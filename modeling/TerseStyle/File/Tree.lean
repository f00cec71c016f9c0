import TerseStyle.File.System
import TerseStyle.OrderedMap
import TerseStyle.Text.PathBytes

/-!
# File trees

A file system as a value: files by location, as they are seen from a working directory. A directory
is there as long as it holds a file; the working directory, the directories above it and the root
are always there. A path may spell a name in more ways than one; in a location stands the name under
which the file is listed.

The steps of writing a file, and the printing after them, can be made to fail, one by one.
-/

namespace TerseStyle

/-- A directory that is always there. -/
inductive Anchor where
  /-- The root of all paths. -/
  | root
  /-- The directory a number of steps above the working directory. -/
  | above (steps : Nat)
  deriving Repr, DecidableEq

/-- A place in a tree: the names on the way to it from an anchor. -/
structure Location where
  /-- Where the way begins. -/
  anchor : Anchor := .above 0
  /-- The names on the way. -/
  names : List Text
  deriving Repr, DecidableEq

namespace Location

/-- The working directory. -/
def working : Location where
  names := []

/-- The root of all paths. -/
def root : Location where
  anchor := .root
  names := []

/-- The place one name further on. -/
def enter (location : Location) (name : Text) : Location :=
  { location with names := location.names ++ [name] }

/-- The place one directory up; above the root there is none. -/
def leave (location : Location) : Location :=
  match location with
  | ⟨.root, names⟩ => ⟨.root, names.dropLast⟩
  | ⟨.above steps, []⟩ => ⟨.above (steps + 1), []⟩
  | ⟨.above steps, names⟩ => ⟨.above steps, names.dropLast⟩

/-- Whether a place lies on the way to another. -/
def isAbove (location other : Location) : Bool :=
  location.anchor == other.anchor && location.names.isPrefixOf other.names &&
    location.names.length < other.names.length

end Location

/-- Files by location. -/
structure FileTree where
  /-- The contents by location. -/
  files : OrderedMap Location ByteArray

namespace FileTree

/-- The contents of the file at a location. -/
def get? (tree : FileTree) (location : Location) : Option ByteArray :=
  tree.files.get? location

/-- Whether a location is an anchor or lies on the way to a file. -/
def isDirectory (tree : FileTree) (location : Location) : Bool :=
  location.names.isEmpty || tree.files.keys.any location.isAbove

/-- The tree with contents at a location. -/
def put (tree : FileTree) (location : Location) (contents : ByteArray) : FileTree :=
  ⟨tree.files.insert location contents⟩

/-- The tree without the file at a location. -/
def delete (tree : FileTree) (location : Location) : FileTree :=
  ⟨tree.files.erase location⟩

/-- What stands at a location. -/
def kindAt (tree : FileTree) (location : Location) : Except FileError FileKind :=
  if (tree.get? location).isSome then .ok .file
  else if tree.isDirectory location then .ok .directory
  else .error .missing

/-- Follows the parts of a path. Every part but the last must lead to a directory. -/
def walk (tree : FileTree) (location : Location) : List Text → Except FileError Location
  | [] => .ok location
  | part :: rest => do
    match ← tree.kindAt location with
    | .file => .error .notDirectory
    | .directory =>
      if part.isEmpty ∨ part = "." then walk tree location rest
      else if part = ".." then walk tree location.leave rest
      else walk tree (location.enter (Text.fileName part)) rest

/-- The location that a path leads to. -/
def locate (tree : FileTree) (path : Path) : Except FileError Location :=
  tree.walk (if path.root.isEmpty then .working else .root) path.parts

/-- What stands at a path as it was written. -/
def kind (tree : FileTree) (text : Text) : Except FileError FileKind := do
  if (Text.pathBytes? text).isNone then .error .unencodable
  else if CodePoint.char '\x00' ∈ text then .error .impossiblePath
  else if text.isEmpty then .error .missing
  else
    let start : Location := if (Path.rootOf text).isEmpty then .working else .root
    tree.kindAt (← tree.walk start (Path.pieces text))

/-- The contents of the file at a path. -/
def read (tree : FileTree) (path : Path) : Except FileError ByteArray := do
  let location ← tree.locate path
  match tree.get? location with
  | some contents => .ok contents
  | none => .error (if tree.isDirectory location then .isDirectory else .missing)

/-- The length of the longest name in the tree. -/
def longestName (tree : FileTree) : Nat :=
  ((tree.files.keys.flatMap Location.names).map List.length).foldl max 0

/-- A name that is longer than every name in the tree, and so new in every directory. -/
def freshName (tree : FileTree) (name : Text) : Text :=
  "." ++ name ++ "." ++ List.replicate (tree.longestName + 1) (CodePoint.char '0') ++ ".tmp"

/-- The longest name that a file may have, in bytes. -/
def maxNameBytes : Nat := 255

/-- By how many bytes the name of a temporary file is longer than the name of its target. -/
def temporaryNameBytes : Nat := 14

/-- Whether the name of a temporary file for a target would be too long. -/
def isNameTooLong (name : Text) : Bool :=
  match Text.pathBytes? name with
  | none => false
  | some bytes => maxNameBytes < bytes.length + temporaryNameBytes

/-- Where a temporary file for a target would stand. -/
def temporaryLocation (tree : FileTree) (target : Path) : Except FileError Location := do
  let directory ← tree.locate target.parent
  match ← tree.kindAt directory with
  | .file => .error .notDirectory
  | .directory =>
    let name := target.name?.getD []
    if isNameTooLong name then .error .refused
    else .ok (directory.enter (tree.freshName (Text.fileName name)))

/-- Where a target stands or would stand; a directory cannot be replaced. -/
def targetLocation (tree : FileTree) (target : Path) : Except FileError Location := do
  let location ← tree.locate target
  if (tree.get? location).isNone && tree.isDirectory location then .error .isDirectory
  else .ok location

/-- The steps that fail whatever the tree is, and how. -/
structure Faults where
  create : Option FileError := none
  /-- A write that fails leaves something else in the file: a part of the contents, say. -/
  write : Option (FileError × ByteArray) := none
  replace : Option FileError := none
  print : Option FileError := none

/-- The tree as a file system. -/
def fileSystem (faults : Faults) : FileSystem (StateM FileTree) where
  kind text := return (← get).kind text
  read path := return (← get).read path
  Temporary := Location
  createTemporary target := do
    let tree ← get
    match faults.create, tree.temporaryLocation target with
    | some error, _ => return .error error
    | none, .error error => return .error error
    | none, .ok location =>
      set (tree.put location .empty)
      return .ok location
  write location contents := do
    match faults.write with
    | some (error, remains) =>
      modify (·.put location remains)
      return .error error
    | none =>
      modify (·.put location contents)
      return .ok ()
  replace location target := do
    let tree ← get
    match faults.replace, tree.targetLocation target, tree.get? location with
    | some error, _, _ => return .error error
    | none, .error error, _ => return .error error
    | none, .ok _, none => return .error .missing
    | none, .ok destination, some contents =>
      set ((tree.delete location).put destination contents)
      return .ok ()
  remove location := modify (·.delete location)
  print _ :=
    match faults.print with
    | some error => return .error error
    | none => return .ok ()

end FileTree

end TerseStyle

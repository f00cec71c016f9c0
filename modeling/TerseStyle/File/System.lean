import TerseStyle.File.Path
import TerseStyle.Text.Encoding

/-!
# File systems

What a command asks of the place where files live, in any monad. Looking at files and changing them
are apart, so that a command that is only given a view cannot change anything. A file is written
through a temporary file in the same directory, which then takes the place of the target: whoever
looks at the target sees the old contents or the new, and nothing between. What a run has to say is
printed, which can fail as well.
-/

namespace TerseStyle

/-- What stands at a path. -/
inductive FileKind where
  | file
  | directory
  deriving Repr, DecidableEq

/-- Why a file system refuses. -/
inductive FileError where
  /-- Nothing stands at the path. -/
  | missing
  /-- A directory is expected where something else stands. -/
  | notDirectory
  /-- A directory stands where a file is expected. -/
  | isDirectory
  /-- No file can have such a path. -/
  | impossiblePath
  /-- A path, or the text to be written, has no bytes. -/
  | unencodable
  /-- Any other reason. -/
  | refused
  deriving Repr, DecidableEq

/-- The questions that can be asked about files. -/
structure FileView (m : Type → Type) where
  /-- What stands at a path, which is given as it was written. -/
  kind : Text → m (Except FileError FileKind)
  /-- The contents of a file. -/
  read : Path → m (Except FileError ByteArray)

/-- A file system: questions about files, the steps of writing one, and a place to print to. -/
structure FileSystem (m : Type → Type) extends FileView m where
  /-- What a temporary file is known by. -/
  Temporary : Type
  /-- Makes an empty temporary file in the directory of a target. -/
  createTemporary : Path → m (Except FileError Temporary)
  /-- Writes contents into a temporary file. -/
  write : Temporary → ByteArray → m (Except FileError Unit)
  /-- Puts a temporary file in the place of a target. -/
  replace : Temporary → Path → m (Except FileError Unit)
  /-- Removes a temporary file. -/
  remove : Temporary → m Unit
  /-- Prints a text. -/
  print : Text → m (Except FileError Unit)

namespace FileSystem

variable {m : Type → Type} [Monad m]

/-- Fills a temporary file and puts it in the place of the target. -/
def fill (files : FileSystem m) (temporary : files.Temporary) (target : Path) (text : Text) :
    m (Except FileError Unit) := do
  match Text.encode? text with
  | none => return .error .unencodable
  | some contents =>
    match ← files.write temporary contents with
    | .error error => return .error error
    | .ok () => files.replace temporary target

/-- Writes a file through a temporary file, of which nothing is left if a step fails. -/
def writeAtomic (files : FileSystem m) (target : Path) (text : Text) :
    m (Except FileError Unit) := do
  match ← files.createTemporary target with
  | .error error => return .error error
  | .ok temporary =>
    match ← files.fill temporary target text with
    | .error error =>
      files.remove temporary
      return .error error
    | .ok () => return .ok ()

end FileSystem

end TerseStyle

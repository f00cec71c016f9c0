import TerseStyle.Text.Basic

/-!
# Paths

A path as it is named on the command line, without the parts that say nothing: empty parts and
single dots. Two dots stay, since what they mean depends on the file system.
-/

namespace TerseStyle

/-- A path in normal form. -/
structure Path where
  /-- The slashes at the beginning: none, one or two. -/
  root : Text
  /-- The parts in order. -/
  parts : List Text
  deriving Repr, DecidableEq

namespace Path

/-- The pieces of a text between slashes. -/
def pieces : Text → List Text
  | [] => [[]]
  | c :: rest =>
    if c = '/' then [] :: pieces rest
    else
      match pieces rest with
      | [] => [[c]]
      | piece :: others => (c :: piece) :: others

/-- Whether a part says something. -/
def isSignificant (part : Text) : Bool :=
  !part.isEmpty && part != "."

/-- The slashes at the beginning of a path: exactly two are kept, more count as one. -/
def rootOf (text : Text) : Text :=
  match (text.takeWhile (· == CodePoint.char '/')).length with
  | 0 => []
  | 2 => ['/', '/']
  | _ => ['/']

/-- The path that a text names. -/
def parse (text : Text) : Path where
  root := rootOf text
  parts := (pieces text).filter isSignificant

/-- The path as a text. -/
def render (path : Path) : Text :=
  if path.root.isEmpty ∧ path.parts.isEmpty then ['.']
  else path.root ++ Text.joinWith "/" path.parts

/-- The last part. -/
def name? (path : Path) : Option Text :=
  path.parts.getLast?

/-- The path without its last part. -/
def parent (path : Path) : Path :=
  { path with parts := path.parts.dropLast }

/-- Whether a text can stand as the last part of a path: it has no slash at either end, and exactly
one of its own parts says something. -/
def isName (name : Text) : Bool :=
  (rootOf name).isEmpty && name.getLast? != some (CodePoint.char '/') &&
    (parse name).parts.length == 1

/-- The path with another last part; a path without parts has none to replace. -/
def withName? (path : Path) (name : Text) : Option Path :=
  if path.parts.isEmpty || !isName name then none
  else some { path with parts := path.parts.dropLast ++ [name] }

/-- The ending of the names of sources. -/
def sourceEnding : Text := ".ctrl.ts"

/-- The name of the style sheet of a source: the last extension of a source gives way to the suffix,
any other name gets the suffix appended. -/
def outputName (suffix name : Text) : Text :=
  if sourceEnding.isSuffixOf name then name.take (name.length - 3) ++ suffix else name ++ suffix

/-- The path of the style sheet of a source, next to the source. -/
def output? (suffix : Text) (source : Path) : Option Path :=
  source.name?.bind fun name => source.withName? (outputName suffix name)

end Path

end TerseStyle

import TerseStyle.Error

/-!
# Declarations

A declaration is a name with a value in square brackets, as in `bg[red]`. A sigil before the name
makes it a runtime variable, a local variable or a custom property, and an exclamation mark after
the value makes it important. The value runs up to the last closing bracket of the statement.
-/

namespace TerseStyle

/-- What stands before the name of a declaration. -/
inductive Sigil where
  | plain
  | runtime
  | localVariable
  | custom
  deriving Repr, DecidableEq

namespace Sigil

/-- The written form. -/
def text : Sigil → Text
  | plain => []
  | runtime => ['$']
  | localVariable => ['-', '-', '&']
  | custom => ['-', '-']

/-- The sigil that a statement begins with, and the text after it. -/
def read : Text → Sigil × Text
  | .char '$' :: rest => (runtime, rest)
  | .char '-' :: .char '-' :: .char '&' :: rest => (localVariable, rest)
  | .char '-' :: .char '-' :: rest => (custom, rest)
  | rest => (plain, rest)

end Sigil

/-- A flat declaration. -/
structure Declaration where
  /-- What stands before the name. -/
  sigil : Sigil
  /-- The name: an abbreviation, a define group or the name of a variable. -/
  name : Text
  /-- The text between the brackets. -/
  value : Text
  /-- Whether the declaration ends with an exclamation mark. -/
  important : Bool
  deriving Repr, DecidableEq

namespace Declaration

/-- An ASCII identifier, which may start with one hyphen, and the text after it. -/
def readIdentifier? : Text → Option (Text × Text)
  | .char '-' :: c :: rest =>
    if isIdentifierStart c then
      some (.char '-' :: c :: rest.takeWhile isAsciiNameChar, rest.dropWhile isAsciiNameChar)
    else none
  | c :: rest =>
    if isIdentifierStart c then
      some (c :: rest.takeWhile isAsciiNameChar, rest.dropWhile isAsciiNameChar)
    else none
  | [] => none

/-- The text up to the last closing bracket, and the text after that bracket. -/
def splitAtLastBracket? (text : Text) : Option (Text × Text) :=
  match text.reverse.dropWhile (· ≠ CodePoint.char ']') with
  | [] => none
  | _ :: before => some (before.reverse, (text.reverse.takeWhile (· ≠ CodePoint.char ']')).reverse)

/-- The value and the importance mark after a name. -/
def readValue? : Text → Option (Text × Bool)
  | .char '[' :: rest =>
    match splitAtLastBracket? rest with
    | some (value, []) => some (value, false)
    | some (value, [.char '!']) => some (value, true)
    | _ => none
  | _ => none

/-- The declaration that a whole statement spells. -/
def read? (statement : Text) : Option Declaration :=
  let (sigil, rest) := Sigil.read statement
  match readIdentifier? rest with
  | none => none
  | some (name, rest) =>
    (readValue? rest).map fun (value, important) => { sigil, name, value, important }

/-- The declaration that a whole statement spells, or the error that it spells none. -/
def parse (statement : Text) : Except Error Declaration :=
  match read? statement with
  | some declaration => .ok declaration
  | none => .error (Cause.invalidDeclaration statement : Cause)

/-- The statement that spells a declaration. -/
def render (declaration : Declaration) : Text :=
  declaration.sigil.text ++ declaration.name ++ "[" ++ declaration.value ++ "]" ++
    (if declaration.important then "!" else "")

/-- Whether a statement looks like a declaration rather than a block: its first square bracket
comes before its first parenthesis. -/
def looksLike (statement : Text) : Bool :=
  (statement.find? fun (c : CodePoint) => c == '[' || c == '(') == some (CodePoint.char '[')

end Declaration

end TerseStyle

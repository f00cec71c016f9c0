import TerseStyle.Error
import TerseStyle.Naming

/-!
# Directives

A directive is a line `@name value` outside every pair of braces, such as `@scope app`. The lines
`@use` and `@query` are never directives. Directives are read from the last line to the first, which
decides which faulty scope is reported.
-/

namespace TerseStyle

/-- A line `@name value` at the top level of a source. -/
structure Directive where
  /-- The word after the at sign. -/
  name : Text
  /-- The rest of the line. -/
  value : Text
  deriving Repr, DecidableEq

namespace Directive

/-- Names that never make a directive. -/
def reserved : List Text := ["use", "query"]

/-- The directive that a line spells. -/
def read? (line : Text) : Option Directive :=
  match line.dropWhile fun (c : CodePoint) => c == ' ' || c == '\t' with
  | .char '@' :: written =>
    let name := written.takeWhile isNameChar
    if name.isEmpty || name ∈ reserved then none
    else
      match written.dropWhile isNameChar with
      | [] => some { name, value := [] }
      | c :: rest =>
        if c == ' ' || c == '\t' then some { name, value := Text.trim rest } else none
  | _ => none

/-- Whether the directive declares the scope. -/
def isScope (directive : Directive) : Bool :=
  directive.name == ("scope" : Text)

/-- Whether a text may be the value of a scope directive. -/
def isScopeValue (value : Text) : Bool :=
  value == Naming.noScope || (!value.isEmpty && value.all isAsciiNameChar)

/-- The line feeds and carriage returns that end a line. -/
def isLineEnd (c : CodePoint) : Bool :=
  c == '\n' || c == '\r'

/-- The line without the line end, and the line end. -/
def splitLineEnd (line : Text) : Text × Text :=
  ((line.reverse.dropWhile isLineEnd).reverse, (line.reverse.takeWhile isLineEnd).reverse)

/-- How many more braces a line opens than it closes. -/
def braceBalance (line : Text) : Int :=
  (line.count (.char '{') : Int) - line.count (.char '}')

/-- Takes the directives out of lines of which the first has the given number and stands at the
given depth of braces: the text that remains, and the directives in source order. -/
def takeFrom (depth : Int) (number : Nat) : List Text → Except Error (Text × List Directive)
  | [] => .ok ([], [])
  | line :: rest =>
    match takeFrom (depth + braceBalance line) (number + Text.lineFeeds line) rest with
    | .error error => .error error
    | .ok (remaining, directives) =>
      let (content, ending) := splitLineEnd line
      match if depth = 0 then read? content else none with
      | none => .ok (line ++ remaining, directives)
      | some directive =>
        if directive.isScope && !isScopeValue directive.value then
          .error { cause := .invalidScope directive.value, line := some number }
        else .ok (ending ++ remaining, directive :: directives)

/-- Takes the directives out of a text. There may be one scope at most. -/
def takeAll (text : Text) : Except Error (Text × List Directive) :=
  match takeFrom 0 1 (Text.linesWithBreaks text) with
  | .error error => .error error
  | .ok (remaining, directives) =>
    if directives.countP isScope > 1 then
      .error (Cause.repeatedScope : Cause)
    else .ok (remaining, directives)

/-- The scope that the directives declare. -/
def scope (directives : List Directive) : Text :=
  match directives.find? isScope with
  | some directive => if directive.value.isEmpty then Naming.noScope else directive.value
  | none => Naming.noScope

end Directive

end TerseStyle

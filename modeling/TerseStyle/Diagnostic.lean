import TerseStyle.Compile

/-!
# Diagnostics

A compilation that reports its failure instead of ending with it: the style sheet, or the
diagnostics that say why there is none. A defect of the theme is no finding about the source, and
ends the compilation without a report.
-/

namespace TerseStyle

/-- How serious a diagnostic is. -/
inductive Severity where
  | error
  | warning
  deriving Repr, DecidableEq

/-- The severity as a word of diagnostics. -/
def Severity.word : Severity → String
  | error => "ERROR"
  | warning => "WARNING"

/-- A finding about a source. -/
structure Diagnostic where
  /-- The kind of mistake. -/
  kind : Error.Kind
  /-- How serious it is. -/
  severity : Severity
  /-- The message. -/
  message : Text
  /-- The line, counted from one, where it is known. -/
  line : Option Nat
  deriving Repr, DecidableEq

namespace Diagnostic

/-- Whether the finding prevents a style sheet. -/
def isError (diagnostic : Diagnostic) : Bool :=
  diagnostic.severity == .error

/-- The finding that reports an error. -/
def ofError (error : Error) : Diagnostic where
  kind := error.kind
  severity := .error
  message := error.message
  line := error.line

/-- The finding as one line of text. -/
def render (diagnostic : Diagnostic) : Text :=
  let place : Text := match diagnostic.line with
    | some line => " [line=" ++ Text.ofNat line ++ "]"
    | none => []
  diagnostic.severity.word ++ place ++ ": " ++ diagnostic.message

end Diagnostic

/-- A style sheet, or the reasons why there is none. -/
structure Report where
  css : Option Text
  diagnostics : List Diagnostic
  deriving Repr, DecidableEq

/-- Whether there is a style sheet and no finding is an error. -/
def Report.isOk (report : Report) : Bool :=
  report.css.isSome && !report.diagnostics.any Diagnostic.isError

/-- Compiles the text of a source under a theme and reports failure as a diagnostic. -/
def report (theme : Theme) (text : Text) : Except Theme.Defect Report :=
  match compile theme text with
  | .ok css => .ok { css := some css, diagnostics := [] }
  | .error error =>
    match error.defect? with
    | some defect => .error defect
    | none => .ok { css := none, diagnostics := [Diagnostic.ofError error] }

end TerseStyle

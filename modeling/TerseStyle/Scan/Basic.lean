import TerseStyle.Error
import TerseStyle.Vocabulary.Name

/-!
# Bracket scanning

Bodies are scanned one character at a time with a stack of open bracket groups:

* a *value* is opened by a square bracket;
* a *block* is opened by a parenthesis outside every group, as in `hover(bg[red] c[blue])`;
* a *function* is opened by a parenthesis inside a value or a function, or inside a block directly
  after the name of a function of values, as in `calc(100% - 2px)`.

Outside every group the text is at its top level. A block never opens inside another group, so at
most the outermost group is a block. A closing bracket that closes nothing is an error.
-/

namespace TerseStyle

/-- The kind of an open bracket group. -/
inductive Group where
  | block
  | value
  | function
  deriving Repr, DecidableEq

/-- The state of a scan. -/
structure Scan where
  /-- The characters that were read, the latest first. -/
  seen : Text := []
  /-- The open groups, the innermost first. -/
  groups : List Group := []
  deriving Repr, DecidableEq

namespace Scan

/-- Whether no group is open. -/
def atTopLevel (scan : Scan) : Bool :=
  scan.groups.isEmpty

/-- The line of the next character, counted from one. -/
def line (scan : Scan) : Nat :=
  Text.lineFeeds scan.seen + 1

/-- The name that ends right before the next character. -/
def nameBefore (scan : Scan) : Text :=
  (scan.seen.takeWhile isNameChar).reverse

/-- The next character with up to forty characters before it, as one line. -/
def excerpt (scan : Scan) (c : CodePoint) : Text :=
  Text.collapse ((scan.seen.take 40).reverse ++ [c])

/-- An error at the next character. -/
def errorAt (scan : Scan) (cause : Cause) : Error :=
  { cause, line := some scan.line }

/-- The groups that are open after the next character. -/
def groupsAfter (scan : Scan) (c : CodePoint) : Except Cause (List Group) :=
  match c, scan.groups with
  | .char '[', groups => .ok (.value :: groups)
  | .char ']', .value :: outer => .ok outer
  | .char ']', _ => .error (.unexpectedCloser c (scan.excerpt c))
  | .char '(', [] => .ok [.block]
  | .char '(', .block :: outer =>
    if scan.nameBefore ∈ Vocabulary.valueFunctions then .ok (.function :: .block :: outer)
    else .error (.nestedBlock (scan.excerpt c))
  | .char '(', groups => .ok (.function :: groups)
  | .char ')', .block :: outer => .ok outer
  | .char ')', .function :: outer => .ok outer
  | .char ')', _ => .error (.unexpectedCloser c (scan.excerpt c))
  | _, .block :: outer =>
    if c = '{' ∨ c = '}' ∨ c = '@' then .error (.forbiddenInBlock c (scan.excerpt c))
    else .ok (.block :: outer)
  | _, groups => .ok groups

/-- Reads one character. -/
def step (scan : Scan) (c : CodePoint) : Except Error Scan :=
  match scan.groupsAfter c with
  | .ok groups => .ok { seen := c :: scan.seen, groups }
  | .error cause => .error (scan.errorAt cause)

/-- Refuses to end inside a group. -/
def finish (scan : Scan) : Except Error Unit :=
  match scan.groups with
  | [] => .ok ()
  | innermost :: _ =>
    let opener : CodePoint := if innermost = .value then '[' else '('
    .error (scan.errorAt (.missingCloser opener (Text.collapse scan.seen.reverse)))

/-- Reads a text to its end. -/
def run : Scan → Text → Except Error Scan
  | scan, [] => .ok scan
  | scan, c :: rest =>
    match scan.step c with
    | .ok next => run next rest
    | .error error => .error error

/-- The number of open parentheses. -/
def parenthesisDepth (scan : Scan) : Nat :=
  scan.groups.countP (· ≠ .value)

/-- The number of open square brackets. -/
def bracketDepth (scan : Scan) : Nat :=
  scan.groups.countP (· = .value)

end Scan

end TerseStyle

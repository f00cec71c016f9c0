import TerseStyle.Scan.Basic

/-!
# Statements of a body

A body is a sequence of statements separated by blanks at its top level. A blank inside a group
belongs to the statement and is written as one space, so a block may run over several lines.
-/

namespace TerseStyle

namespace Scan

/-- The statements of the rest of a body, of which the first is already read in part. The part is
kept with its latest character first. -/
def statementsAfter (scan : Scan) (part : Text) : Text → Except Error (List Text)
  | [] =>
    match scan.finish with
    | .error error => .error error
    | .ok () => .ok (if part.isEmpty then [] else [part.reverse])
  | c :: rest =>
    match scan.step c with
    | .error error => .error error
    | .ok next =>
      if scan.atTopLevel && isBlank c then
        if part.isEmpty then next.statementsAfter [] rest
        else (next.statementsAfter [] rest).map (part.reverse :: ·)
      else
        next.statementsAfter ((if isBlank c then ' ' else c) :: part) rest

/-- The text before the first top-level separator of the rest and the text after it. -/
def splitTopLevelAfter (isSeparator : CodePoint → Bool) (scan : Scan) :
    Text → Except Error (Option (Text × Text))
  | [] => .ok none
  | c :: rest =>
    match scan.step c with
    | .error error => .error error
    | .ok next =>
      if scan.atTopLevel && isSeparator c then .ok (some (scan.seen.reverse, rest))
      else splitTopLevelAfter isSeparator next rest

end Scan

/-- The statements of a body. -/
def statements (text : Text) : Except Error (List Text) :=
  ({} : Scan).statementsAfter [] text

/-- The text before the first separator outside every group and the text after it. -/
def splitTopLevel (isSeparator : CodePoint → Bool) (text : Text) :
    Except Error (Option (Text × Text)) :=
  ({} : Scan).splitTopLevelAfter isSeparator text

end TerseStyle

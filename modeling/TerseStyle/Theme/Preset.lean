import TerseStyle.Json.Basic
import TerseStyle.Scan.Statement

/-!
# Typography presets

A preset is a text of statements. It may also be a list of texts, each of which is read as if it
were one character: a text that is a bracket opens or closes a group, a blank text outside every
group ends a statement, and any other text belongs to a statement as a whole.
-/

namespace TerseStyle

namespace Preset

/-- Whether a part is refused inside a block: a run of the characters that are refused there. -/
def isForbiddenInBlock (part : Text) : Bool :=
  ([['{', '}', '@'], ['}', '@'], ['@']] : List Text).any part.isPrefixOf

/-- Whether a part consists of blanks. -/
def isBlankPart (part : Text) : Bool :=
  !part.isEmpty && part.all isBlank

/-- The groups that are open after a part. -/
def groupsAfter (groups : List Group) (part : Text) : Except Theme.Defect (List Group) :=
  match part, groups with
  | [.char '['], groups => .ok (.value :: groups)
  | [.char ']'], .value :: outer => .ok outer
  | [.char ']'], _ => .error .presetWithOddPart
  | [.char '('], [] => .ok [.block]
  | [.char '('], .block :: _ => .error .presetWithOddBlock
  | [.char '('], groups => .ok (.function :: groups)
  | [.char ')'], .block :: outer => .ok outer
  | [.char ')'], .function :: outer => .ok outer
  | [.char ')'], _ => .error .presetWithOddPart
  | part, .block :: outer =>
    if isForbiddenInBlock part then .error .presetWithOddPart else .ok (.block :: outer)
  | _, groups => .ok groups

/-- The statements of a list of parts, of which the first statement is already read in part. Its
parts are kept with the latest first. -/
def partStatements (groups : List Group) (read : List Text) :
    List JsonValue → Except Theme.Defect (List Text)
  | [] =>
    if !groups.isEmpty then .error .presetWithOddPart
    else .ok (if read.isEmpty then [] else [read.reverse.flatten])
  | .string part :: rest =>
    match groupsAfter groups part with
    | .error defect => .error defect
    | .ok after =>
      if groups.isEmpty && isBlankPart part then
        if read.isEmpty then partStatements after [] rest
        else (partStatements after [] rest).map (read.reverse.flatten :: ·)
      else
        partStatements after ((if isBlankPart part then [' '] else part) :: read) rest
  | _ :: _ =>
    .error (if groups.head? = some .block then .presetWithOddBlock else .presetWithOddPart)

/-- The statements of a preset. -/
def statements (preset : JsonValue) : Except Error (List Text) :=
  let defective : Theme.Defect → Error := fun defect => Cause.defectiveTheme defect
  match preset with
  | .string text => TerseStyle.statements text
  | .scalar _ => .error (defective .presetWithoutParts)
  | .array parts => (partStatements [] [] parts).mapError defective
  | .object [] => .ok []
  | .object _ => .error (defective .presetWithNamedParts)

end Preset

end TerseStyle

import TerseStyle.Json.Read
import TerseStyle.Theme.Build

/-!
# Theme files

A theme file is a JSON object with the members `breakpoints`, `typography`, `keyframes` and
`define`, each of which may be absent. The first two may also be given as lists of pairs, and
keyframes as a list of names that are final already.
-/

namespace TerseStyle

namespace Theme

/-- The error of a defect. -/
def defective (defect : Defect) : Error :=
  { cause := .defectiveTheme defect }

/-- The key of an entry: a value without parts. -/
def entryKey : JsonValue → Except Error JsonScalar
  | .scalar key => .ok key
  | _ => .error (defective .notEntries)

/-- The entry that an item stands for: the two parts of a pair. -/
def entryOf : JsonValue → Except Error (JsonScalar × JsonValue)
  | .array [key, value] => return (← entryKey key, value)
  | .string [key, value] => .ok (.string [key], .string [value])
  | .object [(key, _), (value, _)] => .ok (.string key, .string value)
  | .array _ | .string _ | .object _ => .error (defective .notPairs)
  | _ => .error (defective .notEntries)

/-- The table of a member: an object, or a list of pairs. -/
def tableOf : JsonValue → Except Error Table
  | .object members => .ok (.ofEntries (members.map fun (key, value) => (.string key, value)))
  | .array items => return .ofEntries (← items.mapM entryOf)
  | .string _ => .error (defective .notPairs)
  | _ => .error (defective .notEntries)

/-- A member that is present. -/
def present? (members : List (Text × JsonValue)) (name : Text) : Option JsonValue :=
  (JsonValue.member? members name).filter fun value => !value.isAbsent

/-- The table of a member that may be absent. -/
def tableAt (members : List (Text × JsonValue)) (name : Text) : Except Error Table :=
  match present? members name with
  | none => .ok ∅
  | some value => tableOf value

/-- The keyframes of a list of final names. -/
def finalKeyframes (items : List JsonValue) : Except Error Table := do
  let names ← items.mapM entryKey
  return .ofEntries (names.map fun name => (name, .scalar name))

/-- A define group of a theme file. -/
def groupOf (theme : Theme) (name : Text) (value : JsonValue) :
    Except Error (OrderedMap Text Style) :=
  match value with
  | .object members =>
    compileGroup theme name (members.map fun (variant, fragment) =>
      (variant, .written fragment.toText))
  | _ =>
    if Abbreviation.isKnown name then .error (Cause.groupIsAbbreviation name : Cause)
    else .error (defective .notGroups)

/-- The keyframes of a document that lists final names. -/
def listedKeyframes? (members : List (Text × JsonValue)) : Except Error (Option Table) :=
  match present? members "keyframes" with
  | some (.array items) => (finalKeyframes items).map some
  | _ => .ok none

/-- The tables of a document. Listed keyframes are read before the other tables, and a table of
keyframes after them. -/
def tablesOf (members : List (Text × JsonValue)) : Except Error Theme := do
  let listed? ← listedKeyframes? members
  let breakpoints ← tableAt members "breakpoints"
  let typography ← tableAt members "typography"
  let keyframes ← (listed?.map Except.ok).getD (tableAt members "keyframes")
  return { breakpoints, typography, keyframes }

/-- The define groups of a document, compiled under a theme. -/
def groupsOf (theme : Theme) (members : List (Text × JsonValue)) :
    Except Error (List (Text × OrderedMap Text Style)) :=
  match present? members "define" with
  | none => .ok []
  | some (.object groups) =>
    groups.mapM fun group => (groupOf theme group.1 group.2).map fun compiled => (group.1, compiled)
  | some _ => .error (defective .notGroups)

/-- The theme of a document. -/
def ofMembers (members : List (Text × JsonValue)) : Except Error Theme := do
  let theme ← tablesOf members
  let groups ← groupsOf theme members
  return { theme with defines := .ofList groups }

/-- The theme of the text of a file. The path of the file appears in messages. -/
def ofFile (path text : Text) : Except Error Theme :=
  match Json.read text with
  | .error (.fault fault rest) =>
    .error {
      cause := .invalidThemeFile path fault.message
      line := some (Json.lineOfRest text rest) }
  | .error .longInteger => .error (defective .longInteger)
  | .error .deepNesting => .error (defective .deepNesting)
  | .ok (.object members) => ofMembers members
  | .ok _ => .error (Cause.themeNotObject path : Cause)

end Theme

end TerseStyle

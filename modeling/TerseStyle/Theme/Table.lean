import TerseStyle.Json.Basic
import TerseStyle.OrderedMap

/-!
# Tables of a theme

The breakpoints, the typography and the keyframes of a theme are tables. A source refers to an entry
by a text, and the values are meant to be texts as well. A table that comes from a file holds what
the file holds: entries of any kind are kept and counted, and one that cannot be used does no harm
until it is used.
-/

namespace TerseStyle

namespace Theme

/-- Entries of a theme by key. -/
abbrev Table := OrderedMap JsonScalar JsonValue

namespace Table

/-- The table with an entry. An entry with the same key keeps its place and the key as it was first
written. -/
def insertEntry (table : Table) (entry : JsonScalar × JsonValue) : Table :=
  table.insert ((table.keys.find? (JsonScalar.isSameKey entry.1)).getD entry.1) entry.2

/-- The table of entries that are inserted one after the other. -/
def ofEntries (entries : List (JsonScalar × JsonValue)) : Table :=
  entries.foldl insertEntry ∅

/-- The table of texts by text. -/
def ofTexts (entries : List (Text × Text)) : Table :=
  .ofList (entries.map fun (key, value) => (.string key, .string value))

/-- The value at a text; the null value counts as none. -/
def value? (table : Table) (name : Text) : Option JsonValue :=
  (table.get? (.string name)).filter fun value => !value.isNull

end Table

end Theme

end TerseStyle

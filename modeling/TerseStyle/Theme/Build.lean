import TerseStyle.Statement.Block

/-!
# Building a theme

Fragments of define groups are compiled once, when the theme is built. A fragment may use the
breakpoints, the typography and the keyframes of the theme, but no other fragment.
-/

namespace TerseStyle

/-- A fragment of a define group. -/
inductive Fragment where
  /-- Statements to be compiled. -/
  | written (text : Text)
  /-- A fragment that is compiled already. -/
  | compiled (style : Style)

namespace Fragment

/-- Compiles the text of a fragment under a theme. -/
def compileText (theme : Theme) (text : Text) : Except Error Style :=
  ((∅ : Style).dispatchBody { context := .theme, theme } text).toExcept

/-- Compiles a fragment under a theme. -/
def compile (theme : Theme) : Fragment → Except Error Style
  | written text => compileText theme text
  | compiled style => .ok style

end Fragment

namespace Theme

/-- The fragments of a define group by variant. -/
abbrev Group := List (Text × Fragment)

/-- Compiles a define group, whose name must not be an abbreviation. -/
def compileGroup (theme : Theme) (name : Text) (group : Group) :
    Except Error (OrderedMap Text Style) := do
  if Abbreviation.isKnown name then throw { cause := .groupIsAbbreviation name }
  let compiled ← group.mapM fun (variant, fragment) => do
    return (variant, ← fragment.compile theme)
  return .ofList compiled

/-- The theme with define groups compiled against it. -/
def withGroups (theme : Theme) (groups : List (Text × Group)) : Except Error Theme := do
  let compiled ← groups.mapM fun (name, group) => do
    return (name, ← compileGroup { theme with defines := ∅ } name group)
  return { theme with defines := .ofList compiled }

/-- The texts that a theme is made of. -/
structure Texts where
  breakpoints : List (Text × Text) := []
  typography : List (Text × Text) := []
  keyframes : List (Text × Text) := []
  /-- The fragments of the define groups, by group and variant. -/
  defines : List (Text × List (Text × Text)) := []
  deriving Repr, DecidableEq

namespace Texts

/-- The define groups, to be compiled. -/
def groups (texts : Texts) : List (Text × Group) :=
  texts.defines.map fun (name, fragments) =>
    (name, fragments.map fun (variant, text) => (variant, .written text))

/-- The theme without its define groups. -/
def tables (texts : Texts) : Theme where
  breakpoints := .ofTexts texts.breakpoints
  typography := .ofTexts texts.typography
  keyframes := .ofTexts texts.keyframes

end Texts

/-- The theme that is made of texts. -/
def ofTexts (texts : Texts) : Except Error Theme :=
  texts.tables.withGroups texts.groups

end Theme

end TerseStyle

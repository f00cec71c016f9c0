import TerseStyle.Context
import TerseStyle.Style.Basic
import TerseStyle.Theme.Table

/-!
# Themes

A theme holds what a source may refer to by a short key: conditions by breakpoint, presets by
typography key, whole fragments by define group and variant, and the final names of keyframes that
are declared elsewhere.
-/

namespace TerseStyle

/-- The data that a source may refer to by key. -/
structure Theme where
  /-- Conditions, each written as a declaration. -/
  breakpoints : Theme.Table := ∅
  /-- Presets, each written as a list of declarations. -/
  typography : Theme.Table := ∅
  /-- Final names of keyframes that are declared elsewhere. -/
  keyframes : Theme.Table := ∅
  /-- Compiled fragments by group and variant. -/
  defines : OrderedMap Text (OrderedMap Text Style) := ∅

namespace Theme

/-- Whether a name is a define group. -/
def isGroup (theme : Theme) (name : Text) : Bool :=
  theme.defines.contains name

/-- The fragment of a variant of a define group. -/
def fragment? (theme : Theme) (group variant : Text) : Option Style :=
  (theme.defines.get? group).bind (·.get? variant)

end Theme

/-- Everything that decides what a statement means, besides the statement. -/
structure Environment where
  /-- Where the statement stands. -/
  context : Context
  /-- The theme. -/
  theme : Theme := {}
  /-- Final names of the keyframes of the source. -/
  keyframes : OrderedMap Text Text := ∅

namespace Environment

/-- The final name of a keyframe; the source's own keyframes come before those of the theme. -/
def keyframe? (environment : Environment) (name : Text) : Option JsonValue :=
  ((environment.keyframes.get? name).map JsonValue.string).or
    (environment.theme.keyframes.value? name)

end Environment

end TerseStyle

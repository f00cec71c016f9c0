import TerseStyle.Text.Basic

/-!
# Names with a fixed meaning

The names that may head a block, the registries of plugin states and plugin containers, and the
names of functions whose parentheses belong to a value.
-/

namespace TerseStyle

namespace Vocabulary

/-- Pseudo-classes that may head a block. -/
def pseudoClasses : List Text :=
  [
    "hover", "active", "focus", "focus-within", "focus-visible", "target", "disabled", "enabled",
    "read-only", "read-write", "required", "optional", "checked", "indeterminate", "valid",
    "invalid", "in-range", "out-of-range", "placeholder-shown", "default", "link", "visited",
    "user-invalid" ]

/-- Pseudo-elements that may head a block. -/
def pseudoElements : List Text :=
  [
    "before", "after", "placeholder", "selection", "file-selector-button", "first-letter",
    "first-line", "marker", "backdrop", "spelling-error", "grammar-error" ]

/-- For each plugin, its states and the class, with an attribute in some cases, that marks an
element in that state. -/
def pluginStates : List (Text × List (Text × Text)) :=
  [ ("option", [("active", "listboxPlugin-active"),
      ("selected", "listboxPlugin-selected[aria-selected=\"true\"]"),
      ("unselected", "listboxPlugin-unselected[aria-selected=\"false\"]"),
      ("disabled", "listboxPlugin-disabled[aria-disabled=\"true\"]")]),
    ("accordion", [("active", "accordionPlugin-active"),
      ("expanded", "accordionPlugin-expanded[aria-expanded=\"true\"]"),
      ("collapsed", "accordionPlugin-collapsed[aria-expanded=\"false\"]"),
      ("disabled", "accordionPlugin-disabled[aria-disabled=\"true\"]")]) ]

/-- The blocks that address a plugin container, with the class of the container. -/
def pluginContainers : List (Text × Text) :=
  [ ("drawer-container", "drawerPluginContainer"),
    ("dialog-container", "dialogPluginContainer"),
    ("snackbar-container", "snackbarPluginContainer"),
    ("popover-container", "popoverPluginContainer") ]

/-- The functions of values. Inside a block, the parentheses after one of these names do not open a
block. -/
def valueFunctions : List Text :=
  List.map Text.ofString [
    "attr", "calc", "clamp", "color-mix", "conic-gradient", "cubic-bezier", "env", "fit-content",
    "hsl", "hsla", "hwb", "image-set", "lab", "lch", "linear-gradient", "matrix", "matrix3d",
    "max", "min", "minmax", "oklab", "oklch", "perspective", "radial-gradient", "repeat",
    "repeating-linear-gradient", "repeating-radial-gradient", "rgb", "rgba", "rotate", "rotate3d",
    "rotateX", "rotateY", "rotateZ", "scale", "scale3d", "scaleX", "scaleY", "skew", "skewX",
    "skewY", "steps", "translate", "translate3d", "translateX", "translateY", "translateZ", "url",
    "var" ]

/-- The selector of a plugin state written as plugin, hyphen, state. -/
def pluginStateSelector? (name : Text) : Option Text :=
  match Text.splitAtChar? '-' name with
  | none => none
  | some (plugin, state) => (pluginStates.lookup plugin).bind (·.lookup state)

/-- The class of a plugin container. -/
def pluginContainerClass? (name : Text) : Option Text :=
  pluginContainers.lookup name

end Vocabulary

end TerseStyle

import TerseStyle.OrderedMap
import TerseStyle.Text.Basic

/-!
# Styles

A style collects what the statements of one selector contribute: properties of the element itself,
of its states and pseudo-elements, of plugin states and containers, properties under a screen or
container condition, and variables. Styles add up: `append` puts the contributions of one after
those of another, field by field, and a later value of a property replaces an earlier one in its
place. Each statement contributes a small style of its own, so that the style of a body is the sum
of what its statements contribute.
-/

namespace TerseStyle

/-- Properties and their values, in the order in which they were first written. -/
abbrev Properties := OrderedMap Text Text

/-- Properties by the name of the block that they belong to. -/
abbrev Blocks := OrderedMap Text Properties

/-- A set of names, in the order in which they were first mentioned. -/
abbrev Names := OrderedMap Text Unit

/-- The names of a list. -/
def Names.ofList (names : List Text) : Names :=
  OrderedMap.ofList (names.map fun name => (name, ()))

/-- Adds the properties of every block to those of the block of the same name. -/
def Blocks.append (left right : Blocks) : Blocks :=
  left.mergeWith OrderedMap.merge right

/-- Properties that apply under a condition on the screen or the container. -/
structure Conditional where
  /-- The condition as it is written in the style sheet. -/
  query : Text
  /-- The properties under the condition. -/
  properties : Properties
  deriving DecidableEq

/-- Properties that apply when a plugin marks the element as being in a state. -/
structure PluginState where
  /-- The class, and perhaps the attribute, that marks the state. -/
  selector : Text
  /-- The properties in the state. -/
  properties : Properties
  deriving DecidableEq

/-- Adds properties to a plugin state. -/
def PluginState.append (left right : PluginState) : PluginState :=
  { left with properties := left.properties.merge right.properties }

/-- Runtime variables that have no name yet, with their defaults: for the element itself, its
states and plugin states, its pseudo-elements, and the plugin containers around it. -/
structure Pending where
  base : Properties := ∅
  states : Blocks := ∅
  elements : Blocks := ∅
  containers : Blocks := ∅
  deriving DecidableEq

namespace Pending

/-- Adds the variables of another collection. -/
def append (left right : Pending) : Pending where
  base := left.base.merge right.base
  states := Blocks.append left.states right.states
  elements := Blocks.append left.elements right.elements
  containers := Blocks.append left.containers right.containers

/-- The variables of each block; the block of the element itself has no name. -/
def blocks (pending : Pending) : List (Text × Properties) :=
  ([], pending.base) :: pending.states.entries ++ pending.elements.entries ++
    pending.containers.entries

/-- Whether there is no variable at all. -/
def isEmpty (pending : Pending) : Bool :=
  pending.blocks.all fun block => block.2.isEmpty

/-- The same blocks without any variable. -/
def drained (pending : Pending) : Pending where
  base := ∅
  states := pending.states.map fun _ => ∅
  elements := pending.elements.map fun _ => ∅
  containers := pending.containers.map fun _ => ∅

end Pending

/-- What the statements of one selector contribute. -/
@[ext]
structure Style where
  /-- Properties of the element itself. -/
  base : Properties := ∅
  /-- Properties of its pseudo-classes. -/
  states : Blocks := ∅
  /-- Properties of its plugin states. -/
  pluginStates : OrderedMap Text PluginState := ∅
  /-- Properties under a condition on the screen. -/
  screens : List Conditional := []
  /-- Properties under a condition on the container. -/
  containers : List Conditional := []
  /-- Properties inside plugin containers, by the class of the container. -/
  pluginContainers : Blocks := ∅
  /-- Properties of its pseudo-elements. -/
  elements : Blocks := ∅
  /-- Custom properties of the root element. -/
  rootVariables : Properties := ∅
  /-- Local variables that are declared, with their values. -/
  localVariables : Properties := ∅
  /-- Local variables that are mentioned. -/
  usedLocals : Names := ∅
  /-- Whether a runtime variable was ever declared. -/
  hasRuntime : Bool := false
  /-- Runtime variables that have no name yet. -/
  pending : Pending := {}
  deriving DecidableEq

namespace Style

instance : EmptyCollection Style := ⟨{ base := ∅ }⟩

instance : Inhabited Style := ⟨∅⟩

/-- The contributions of the first style followed by those of the second. -/
def append (left right : Style) : Style where
  base := left.base.merge right.base
  states := Blocks.append left.states right.states
  pluginStates := left.pluginStates.mergeWith PluginState.append right.pluginStates
  screens := left.screens ++ right.screens
  containers := left.containers ++ right.containers
  pluginContainers := Blocks.append left.pluginContainers right.pluginContainers
  elements := Blocks.append left.elements right.elements
  rootVariables := left.rootVariables.merge right.rootVariables
  localVariables := left.localVariables.merge right.localVariables
  usedLocals := left.usedLocals.merge right.usedLocals
  hasRuntime := left.hasRuntime || right.hasRuntime
  pending := left.pending.append right.pending

instance : Append Style := ⟨append⟩

/-- The part of a fragment that a style takes over when it uses the fragment: everything but
variables. -/
def shared (fragment : Style) : Style where
  base := fragment.base
  states := fragment.states
  pluginStates := fragment.pluginStates
  screens := fragment.screens
  containers := fragment.containers
  pluginContainers := fragment.pluginContainers
  elements := fragment.elements
  usedLocals := fragment.usedLocals

/-- The style after using a fragment. -/
def merge (style fragment : Style) : Style :=
  style ++ fragment.shared

end Style

end TerseStyle

import TerseStyle.Attempt
import TerseStyle.Naming
import TerseStyle.Reference
import TerseStyle.Style.Basic

/-!
# Naming runtime variables

Once the class that owns a style is known, each of its pending runtime variables gets its final
name: the default is declared for the root element, and every reference to the variable becomes a
use of that name. A reference without a declaration is an error of the compiler; the values before
it are changed by then.
-/

namespace TerseStyle

namespace Attempt

variable {κ α : Type}

/-- Changes the values of entries in order, up to the first failure. -/
def mapEntries (change : α → Attempt α) : List (κ × α) → Attempt (List (κ × α)) :=
  mapList fun entry => (change entry.2).map fun value => (entry.1, value)

theorem keys_mapEntries (change : α → Attempt α) (entries : List (κ × α)) :
    (mapEntries change entries).state.map Prod.fst = entries.map Prod.fst := by
  induction entries with
  | nil => rfl
  | cons entry rest ih =>
    simp only [mapEntries, mapList, map] at ih ⊢
    split
    · simp
    · simp [ih]

/-- Changes the values of a map in order, up to the first failure. -/
def mapValues (change : α → Attempt α) (source : OrderedMap κ α) : Attempt (OrderedMap κ α) where
  state := ⟨(mapEntries change source.entries).state, by
    rw [keys_mapEntries]
    exact source.distinct⟩
  failure := (mapEntries change source.entries).failure

end Attempt

namespace Pending

/-- Every variable as block, abbreviation and default. -/
def defaults (pending : Pending) : List (Text × Text × Text) :=
  pending.blocks.flatMap fun block =>
    block.2.entries.map fun entry => (block.1, entry.1, entry.2)

/-- The declarations of the variables for the root element. -/
def declarations (display : Text) (pending : Pending) : Properties :=
  .ofList (pending.defaults.map fun (block, abbreviation, default) =>
    (Naming.runtime abbreviation display block, default))

/-- Whether a variable is among the pending ones. -/
def declares (pending : Pending) (abbreviation block : Text) : Bool :=
  pending.defaults.any fun declared => declared.1 == block && declared.2.1 == abbreviation

end Pending

/-- Changes the values of properties in order, up to the first that is refused. -/
def Properties.changeValues (change : Text → Except Error Text) (properties : Properties) :
    Attempt Properties :=
  Attempt.mapValues (fun value => .ofExcept value (change value)) properties

namespace Style

/-- Changes every value of a style, in the order of the emitted rules, up to the first that is
refused. -/
def changeValues (change : Text → Except Error Text) (style : Style) : Attempt Style :=
  let inProperties := Properties.changeValues change
  let inConditional := fun block : Conditional =>
    (inProperties block.properties).map fun properties => { block with properties }
  let inPluginState := fun state : PluginState =>
    (inProperties state.properties).map fun properties => { state with properties }
  let ofBase := (inProperties style.base).map fun base => { style with base }
  let ofStates := ofBase.andThen fun style =>
    (Attempt.mapValues inProperties style.states).map fun states => { style with states }
  let ofPluginStates := ofStates.andThen fun style =>
    (Attempt.mapValues inPluginState style.pluginStates).map fun pluginStates =>
      { style with pluginStates }
  let ofScreens := ofPluginStates.andThen fun style =>
    (Attempt.mapList inConditional style.screens).map fun screens => { style with screens }
  let ofContainers := ofScreens.andThen fun style =>
    (Attempt.mapList inConditional style.containers).map fun containers => { style with containers }
  let ofPluginContainers := ofContainers.andThen fun style =>
    (Attempt.mapValues inProperties style.pluginContainers).map fun pluginContainers =>
      { style with pluginContainers }
  ofPluginContainers.andThen fun style =>
    (Attempt.mapValues inProperties style.elements).map fun elements => { style with elements }

/-- What a reference to a runtime variable becomes. -/
def useRuntime (pending : Pending) (display abbreviation block : Text) : Except Error Text :=
  if pending.declares abbreviation block then
    .ok (Naming.use (Naming.runtime abbreviation display block))
  else .error (Cause.runtimeUndeclared abbreviation display : Cause)

/-- Gives the pending runtime variables of a style their final names. Without a scope there may be
none. -/
def nameVariables (display scope : Text) (style : Style) : Attempt Style :=
  let pending := style.pending
  if scope = Naming.noScope ∧ (style.hasRuntime || !pending.isEmpty) then
    { state := style, failure := some (Cause.runtimeWithoutScope display : Cause) }
  else
    let declared : Style :=
      { style with
        rootVariables := style.rootVariables.merge (pending.declarations display)
        pending := pending.drained }
    if pending.isEmpty then { state := declared }
    else declared.changeValues (Reference.resolveRuntime (useRuntime pending display))

end Style

end TerseStyle

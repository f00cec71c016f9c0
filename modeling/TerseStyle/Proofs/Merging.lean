import TerseStyle.Proofs.Place

/-!
# Using fragments

A style that uses a fragment takes over everything of it but variables. `Style.TakesOver` says what
that means for each kind of field: the values of the fragment win and new names come last, blocks
under a condition are added, and the variables are those of the style. Queries stand beside the
style of a class and are no part of it.

Fragments act on styles (`Style.merge_isAction`): using two of them one after the other is using the
one that they make together, and the empty fragment changes nothing.
-/

namespace TerseStyle

namespace Style

/-- The names, and after them those of the others that are new. -/
def withNew {κ : Type} [DecidableEq κ] (names others : List κ) : List κ :=
  names ++ others.filter (· ∉ names)

/-- The style with everything of the fragment but its variables. -/
structure TakesOver (style fragment merged : Style) : Prop where
  values : ∀ place name, (merged.propertiesAt place).get? name =
    ((fragment.propertiesAt place).get? name).or ((style.propertiesAt place).get? name)
  properties : ∀ place, (merged.propertiesAt place).keys =
    withNew (style.propertiesAt place).keys (fragment.propertiesAt place).keys
  states : merged.states.keys = withNew style.states.keys fragment.states.keys
  elements : merged.elements.keys = withNew style.elements.keys fragment.elements.keys
  pluginStates : merged.pluginStates.keys =
    withNew style.pluginStates.keys fragment.pluginStates.keys
  pluginContainers : merged.pluginContainers.keys =
    withNew style.pluginContainers.keys fragment.pluginContainers.keys
  -- The marks of a state are not overwritten: every use of the state has the same.
  marks : ∀ name, (merged.pluginStates.get? name).map PluginState.selector =
    ((style.pluginStates.get? name).map PluginState.selector).or
      ((fragment.pluginStates.get? name).map PluginState.selector)
  screens : merged.screens = style.screens ++ fragment.screens
  containers : merged.containers = style.containers ++ fragment.containers
  usedLocals : merged.usedLocals.keys = withNew style.usedLocals.keys fragment.usedLocals.keys
  rootVariables : merged.rootVariables = style.rootVariables
  localVariables : merged.localVariables = style.localVariables
  hasRuntime : merged.hasRuntime = style.hasRuntime
  pending : merged.pending = style.pending

theorem propertiesAt_shared (fragment : Style) (place : Place) :
    fragment.shared.propertiesAt place = fragment.propertiesAt place := by
  cases place <;> rfl

theorem propertiesAt_merge (style fragment : Style) (place : Place) :
    (style.merge fragment).propertiesAt place =
      (style.propertiesAt place).merge (fragment.propertiesAt place) := by
  rw [merge, propertiesAt_append, propertiesAt_shared]

theorem takesOver_merge (style fragment : Style) :
    style.TakesOver fragment (style.merge fragment) where
  values place name := by
    rw [propertiesAt_merge, OrderedMap.merge, OrderedMap.get?_mergeWith]
    cases (style.propertiesAt place).get? name <;>
      cases (fragment.propertiesAt place).get? name <;> rfl
  properties place := by
    rw [propertiesAt_merge]
    exact OrderedMap.keys_mergeWith _ _ _
  states := OrderedMap.keys_mergeWith _ _ _
  elements := OrderedMap.keys_mergeWith _ _ _
  pluginStates := OrderedMap.keys_mergeWith _ _ _
  pluginContainers := OrderedMap.keys_mergeWith _ _ _
  marks name := by
    rw [merge, pluginStates_append, OrderedMap.get?_mergeWith]
    cases style.pluginStates.get? name <;>
      cases isMarked : fragment.pluginStates.get? name <;>
      simp [shared, isMarked, PluginState.append]
  screens := rfl
  containers := rfl
  usedLocals := OrderedMap.keys_mergeWith _ _ _
  rootVariables := rfl
  localVariables := rfl
  hasRuntime := Bool.or_false _
  pending := rfl

theorem merge_assoc (style first second : Style) :
    (style.merge first).merge second = style.merge (first.merge second) := by
  rw [merge, merge, merge, merge, append_assoc, shared_append, shared_shared]

/-- Using fragments one after the other is using what they make together. Using the empty one
changes nothing, and none changes the variables of the style or repeats a plugin container. -/
theorem merge_isAction (style first second : Style) :
    (style.merge first).merge second = style.merge (first.merge second) ∧
      style.merge ∅ = style ∧
      style.TakesOver first (style.merge first) ∧
      (style.merge first).pluginContainers.keys.Nodup := by
  refine ⟨merge_assoc style first second, ?_, takesOver_merge style first,
    (style.merge first).pluginContainers.distinct⟩
  rw [merge, shared_empty, append_empty]

end Style

end TerseStyle

import TerseStyle.Proofs.Naming

/-!
# Places with runtime variables

A runtime variable belongs to the element itself or to one of its blocks, and a reference names the
block only. The name of a block tells which place of a style it is (`Place.ofBlock`): no plugin
container is called like a state, and no state like a pseudo-element. `Style.propertiesAt` gives the
properties of a place, and the places of a sum are the sums of the places.
-/

namespace TerseStyle

/-- A place of a style that has runtime variables of its own. -/
inductive Place where
  | base
  | state (name : Text)
  | element (name : Text)
  | pluginState (name : Text)
  | pluginContainer (containerClass : Text)
  deriving DecidableEq

namespace Place

/-- The name of the place in references to its runtime variables. -/
def block : Place → Text
  | base => []
  | state name => name
  | element name => name
  | pluginState name => name
  | pluginContainer containerClass => containerClass

/-- The place that has a name in references. -/
def ofBlock (block : Text) : Place :=
  if block = [] then base
  else if block ∈ Vocabulary.pseudoClasses then state block
  else if block ∈ Vocabulary.pseudoElements then element block
  else if (Vocabulary.pluginStateSelector? block).isSome then pluginState block
  else pluginContainer block

/-- The place can be told from its name. -/
def Known (place : Place) : Prop :=
  ofBlock place.block = place

theorem Known.eq_of_block_eq {place other : Place} (known : place.Known) (knownOther : other.Known)
    (same : place.block = other.block) : place = other := by
  rw [← known, ← knownOther, same]

theorem known_base : base.Known := rfl

end Place

namespace Slot

/-- The place of a block. -/
def toPlace : Slot → Place
  | state name => .state name
  | element name => .element name
  | pluginState name _ => .pluginState name
  | pluginContainer _ containerClass => .pluginContainer containerClass

@[simp]
theorem block_toPlace (slot : Slot) : slot.toPlace.block = slot.target.block := by
  cases slot <;> rfl

theorem known_toPlace {head : Text} {slot : Slot} (isSlot : ofHead? head = some slot) :
    slot.toPlace.Known := by
  have nonempty : [] ∉ Vocabulary.pseudoClasses ∧ [] ∉ Vocabulary.pseudoElements ∧
      Vocabulary.pluginStateSelector? [] = none := by
    decide +kernel
  have headless : ∀ {block : Text}, block ∈ Vocabulary.pseudoClasses ∨
      block ∈ Vocabulary.pseudoElements ∨ (Vocabulary.pluginStateSelector? block).isSome →
      block ≠ [] := by
    rintro block isHead rfl
    simp [nonempty] at isHead
  unfold ofHead? at isSlot
  split at isSlot
  · next isState =>
    cases isSlot
    simp [Place.Known, toPlace, Place.block, Place.ofBlock, headless (Or.inl isState), isState]
  · next notState =>
    split at isSlot
    · next isElement =>
      cases isSlot
      simp [Place.Known, toPlace, Place.block, Place.ofBlock,
        headless (Or.inr (Or.inl isElement)), notState, isElement]
    · next notElement =>
      split at isSlot
      · next selector isPluginState =>
        cases isSlot
        have isSome : (Vocabulary.pluginStateSelector? head).isSome := by simp [isPluginState]
        simp [Place.Known, toPlace, Place.block, Place.ofBlock,
          headless (Or.inr (Or.inr isSome)), notState, notElement, isSome]
      · rcases Option.map_eq_some_iff.mp isSlot with ⟨containerClass, isContainer, rfl⟩
        have allKnown : ∀ container ∈ Vocabulary.pluginContainers,
            Place.ofBlock container.2 = .pluginContainer container.2 := by
          unfold Place.ofBlock Vocabulary.pluginContainers Vocabulary.pseudoClasses
            Vocabulary.pseudoElements
          repeat rw [Text.ofString_ofList]
          decide +kernel
        exact allKnown _ (Vocabulary.mem_of_lookup isContainer)

end Slot

/-! ## The properties of a place -/

/-- The properties of a block, none if there is no such block. -/
def Blocks.propertiesAt (blocks : Blocks) (name : Text) : Properties :=
  (blocks.get? name).getD ∅

theorem Blocks.propertiesAt_single (name other : Text) (properties : Properties) :
    Blocks.propertiesAt (.single name properties) other =
      if other = name then properties else ∅ := by
  by_cases same : other = name <;> simp [Blocks.propertiesAt, same]

theorem Blocks.propertiesAt_append (left right : Blocks) (name : Text) :
    (Blocks.append left right).propertiesAt name =
      (left.propertiesAt name).merge (right.propertiesAt name) := by
  simp only [Blocks.propertiesAt, Blocks.append, OrderedMap.get?_mergeWith]
  cases left.get? name <;> cases right.get? name <;> simp

theorem Blocks.map_append {left right : Blocks} {change ofLeft ofRight : Text → Text}
    (atBlock : ∀ name, ((left.propertiesAt name).merge (right.propertiesAt name)).map change =
      ((left.propertiesAt name).map ofLeft).merge ((right.propertiesAt name).map ofRight)) :
    (Blocks.append left right).map (OrderedMap.map change) =
      Blocks.append (left.map (OrderedMap.map ofLeft)) (right.map (OrderedMap.map ofRight)) := by
  apply OrderedMap.map_mergeWith
  · intro name properties inLeft notRight
    simpa [Blocks.propertiesAt, inLeft, notRight] using atBlock name
  · intro name properties notLeft inRight
    simpa [Blocks.propertiesAt, notLeft, inRight] using atBlock name
  · intro name old new inLeft inRight
    simpa [Blocks.propertiesAt, inLeft, inRight] using atBlock name

namespace Style

/-- The properties of a place. -/
def propertiesAt (style : Style) : Place → Properties
  | .base => style.base
  | .state name => style.states.propertiesAt name
  | .element name => style.elements.propertiesAt name
  | .pluginState name => ((style.pluginStates.get? name).map PluginState.properties).getD ∅
  | .pluginContainer containerClass => style.pluginContainers.propertiesAt containerClass

theorem propertiesAt_append (left right : Style) (place : Place) :
    (left ++ right).propertiesAt place =
      (left.propertiesAt place).merge (right.propertiesAt place) := by
  cases place with
  | base => rfl
  | state name => exact Blocks.propertiesAt_append _ _ name
  | element name => exact Blocks.propertiesAt_append _ _ name
  | pluginState name =>
      simp only [propertiesAt, pluginStates_append, OrderedMap.get?_mergeWith]
      cases left.pluginStates.get? name <;> cases right.pluginStates.get? name <;>
        simp [PluginState.append]
  | pluginContainer containerClass => exact Blocks.propertiesAt_append _ _ containerClass

theorem sets_of_mem_propertiesAt {style : Style} {place : Place} {entry : Text × Text}
    (isEntry : entry ∈ (style.propertiesAt place).entries) : style.Sets entry.1 entry.2 := by
  have ofBlocks : ∀ {blocks : Blocks} {name : Text}, entry ∈ (blocks.propertiesAt name).entries →
      ∃ properties ∈ blocks.values, entry ∈ properties.entries := by
    intro blocks name isEntry
    cases found : blocks.get? name with
    | none => simp [Blocks.propertiesAt, found] at isEntry
    | some properties =>
        rw [Blocks.propertiesAt, found] at isEntry
        exact ⟨properties, List.mem_map_of_mem (OrderedMap.get?_eq_some_iff.mp found), isEntry⟩
  cases place with
  | base => exact .base isEntry
  | state name =>
      rcases ofBlocks isEntry with ⟨properties, isBlock, isEntry⟩
      exact .state isBlock isEntry
  | element name =>
      rcases ofBlocks isEntry with ⟨properties, isBlock, isEntry⟩
      exact .element isBlock isEntry
  | pluginState name =>
      cases found : style.pluginStates.get? name with
      | none => simp [propertiesAt, found] at isEntry
      | some state =>
          rw [propertiesAt, found] at isEntry
          exact .pluginState (List.mem_map_of_mem (OrderedMap.get?_eq_some_iff.mp found)) isEntry
  | pluginContainer containerClass =>
      rcases ofBlocks isEntry with ⟨properties, isBlock, isEntry⟩
      exact .pluginContainer isBlock isEntry

/-- A value of a style belongs to a place or to a conditional block. -/
theorem Sets.place_or_conditional {style : Style} {name value : Text}
    (sets : style.Sets name value) :
    (∃ place, (name, value) ∈ (style.propertiesAt place).entries) ∨
      ∃ block ∈ style.screens ++ style.containers, value ∈ block.properties.values := by
  have ofBlocks : ∀ {blocks : Blocks} {properties : Properties}, properties ∈ blocks.values →
      (name, value) ∈ properties.entries →
      ∃ block, (name, value) ∈ (blocks.propertiesAt block).entries := by
    intro blocks properties isBlock isEntry
    rcases List.mem_map.mp isBlock with ⟨⟨block, _⟩, isMember, rfl⟩
    refine ⟨block, ?_⟩
    rw [Blocks.propertiesAt, OrderedMap.get?_eq_some_iff.mpr isMember]
    exact isEntry
  cases sets with
  | base isEntry => exact Or.inl ⟨.base, isEntry⟩
  | state isBlock isEntry =>
      rcases ofBlocks isBlock isEntry with ⟨block, isEntry⟩
      exact Or.inl ⟨.state block, isEntry⟩
  | pluginState isState isEntry =>
      rcases List.mem_map.mp isState with ⟨⟨state, _⟩, isMember, rfl⟩
      refine Or.inl ⟨.pluginState state, ?_⟩
      rw [propertiesAt, OrderedMap.get?_eq_some_iff.mpr isMember]
      exact isEntry
  | screen isBlock isEntry =>
      exact Or.inr ⟨_, List.mem_append_left _ isBlock, List.mem_map_of_mem isEntry⟩
  | container isBlock isEntry =>
      exact Or.inr ⟨_, List.mem_append_right _ isBlock, List.mem_map_of_mem isEntry⟩
  | pluginContainer isBlock isEntry =>
      rcases ofBlocks isBlock isEntry with ⟨block, isEntry⟩
      exact Or.inl ⟨.pluginContainer block, isEntry⟩
  | element isBlock isEntry =>
      rcases ofBlocks isBlock isEntry with ⟨block, isEntry⟩
      exact Or.inl ⟨.element block, isEntry⟩

theorem propertiesAt_mapValues (style : Style) (change : Text → Text) (place : Place) :
    (style.mapValues change).propertiesAt place = (style.propertiesAt place).map change := by
  have ofBlocks : ∀ (blocks : Blocks) (block : Text),
      Blocks.propertiesAt (blocks.map (OrderedMap.map change)) block =
        (blocks.propertiesAt block).map change := by
    intro blocks block
    simp only [Blocks.propertiesAt, OrderedMap.get?_map]
    cases blocks.get? block <;> rfl
  cases place with
  | base => rfl
  | state block => exact ofBlocks style.states block
  | element block => exact ofBlocks style.elements block
  | pluginContainer block => exact ofBlocks style.pluginContainers block
  | pluginState block =>
      simp only [propertiesAt, mapValues, OrderedMap.get?_map]
      cases style.pluginStates.get? block <;> rfl

/-- Changing the values of a sum is adding changed styles, if it is so place by place and under
every condition. -/
theorem mapValues_append {left right : Style} {change ofLeft ofRight : Text → Text}
    (atPlace : ∀ place, ((left.propertiesAt place).merge (right.propertiesAt place)).map change =
      ((left.propertiesAt place).map ofLeft).merge ((right.propertiesAt place).map ofRight))
    (onLeft : ∀ block ∈ left.screens ++ left.containers, ∀ value ∈ block.properties.values,
      change value = ofLeft value)
    (onRight : ∀ block ∈ right.screens ++ right.containers, ∀ value ∈ block.properties.values,
      change value = ofRight value) :
    (left ++ right).mapValues change = left.mapValues ofLeft ++ right.mapValues ofRight := by
  have ofConditionals : ∀ {blocks : List Conditional} {other : Text → Text},
      (∀ block ∈ blocks, ∀ value ∈ block.properties.values, change value = other value) →
      blocks.map (fun block => { block with properties := block.properties.map change }) =
        blocks.map fun block => { block with properties := block.properties.map other } := by
    intro blocks other same
    apply List.map_congr_left
    intro block isBlock
    rw [OrderedMap.map_congr (same block isBlock)]
  apply Style.ext
  case base => exact atPlace .base
  case states => exact Blocks.map_append fun name => atPlace (.state name)
  case elements => exact Blocks.map_append fun name => atPlace (.element name)
  case pluginContainers => exact Blocks.map_append fun name => atPlace (.pluginContainer name)
  case pluginStates =>
    simp only [mapValues, pluginStates_append]
    apply OrderedMap.map_mergeWith
    · intro name state inLeft notRight
      have same := atPlace (.pluginState name)
      simp only [propertiesAt, inLeft, notRight, Option.map_some, Option.map_none, Option.getD_some,
        Option.getD_none, OrderedMap.merge_empty, OrderedMap.map_empty] at same
      rw [same]
    · intro name state notLeft inRight
      have same := atPlace (.pluginState name)
      simp only [propertiesAt, notLeft, inRight, Option.map_some, Option.map_none, Option.getD_some,
        Option.getD_none, OrderedMap.empty_merge, OrderedMap.map_empty] at same
      rw [same]
    · intro name old new inLeft inRight
      have same := atPlace (.pluginState name)
      simp only [propertiesAt, inLeft, inRight, Option.map_some, Option.getD_some] at same
      simp only [PluginState.append, same]
  case screens =>
    simp only [mapValues, screens_append, List.map_append]
    rw [ofConditionals fun block isBlock => onLeft block (List.mem_append_left _ isBlock),
      ofConditionals fun block isBlock => onRight block (List.mem_append_left _ isBlock)]
  case containers =>
    simp only [mapValues, containers_append, List.map_append]
    rw [ofConditionals fun block isBlock => onLeft block (List.mem_append_right _ isBlock),
      ofConditionals fun block isBlock => onRight block (List.mem_append_right _ isBlock)]
  all_goals rfl

end Style

namespace Pending

/-- The variables of a place. -/
def propertiesAt (pending : Pending) : Place → Properties
  | .base => pending.base
  | .state name => pending.states.propertiesAt name
  | .element name => pending.elements.propertiesAt name
  | .pluginState name => pending.states.propertiesAt name
  | .pluginContainer containerClass => pending.containers.propertiesAt containerClass

theorem propertiesAt_append (left right : Pending) (place : Place) :
    (left.append right).propertiesAt place =
      (left.propertiesAt place).merge (right.propertiesAt place) := by
  cases place with
  | base => rfl
  | state name => exact Blocks.propertiesAt_append _ _ name
  | element name => exact Blocks.propertiesAt_append _ _ name
  | pluginState name => exact Blocks.propertiesAt_append _ _ name
  | pluginContainer containerClass => exact Blocks.propertiesAt_append _ _ containerClass

theorem drained_append (left right : Pending) :
    (left.append right).drained = left.drained.append right.drained := by
  have ofBlocks : ∀ left right : Blocks,
      (Blocks.append left right).map (fun _ => (∅ : Properties)) =
        Blocks.append (left.map fun _ => ∅) (right.map fun _ => ∅) :=
    fun left right => OrderedMap.map_mergeWith (fun _ _ _ _ => rfl) (fun _ _ _ _ => rfl)
      fun _ _ _ _ _ => rfl
  simp only [append, drained, ofBlocks, OrderedMap.merge_empty]

theorem propertiesAt_of_isEmpty {pending : Pending} (noVariable : pending.isEmpty = true)
    (place : Place) : pending.propertiesAt place = ∅ := by
  rcases isEmpty_iff.mp noVariable with ⟨base, states, elements, containers⟩
  have ofBlocks : ∀ {blocks : Blocks}, (∀ block ∈ blocks.entries, block.2 = ∅) →
      ∀ name, blocks.propertiesAt name = ∅ := by
    intro blocks areEmpty name
    cases found : blocks.get? name with
    | none => rw [Blocks.propertiesAt, found, Option.getD_none]
    | some properties =>
        rw [Blocks.propertiesAt, found]
        exact areEmpty _ (OrderedMap.get?_eq_some_iff.mp found)
  cases place with
  | base => exact base
  | state name => exact ofBlocks states name
  | element name => exact ofBlocks elements name
  | pluginState name => exact ofBlocks states name
  | pluginContainer containerClass => exact ofBlocks containers containerClass

theorem isEmpty_drained (pending : Pending) : pending.drained.isEmpty = true := by
  have ofBlocks : ∀ {blocks : Blocks},
      ∀ block ∈ (blocks.map fun _ => (∅ : Properties)).entries, block.2 = ∅ := by
    intro blocks block isBlock
    obtain ⟨_, _, rfl⟩ := List.mem_map.mp isBlock
    rfl
  exact isEmpty_iff.mpr ⟨rfl, ofBlocks, ofBlocks, ofBlocks⟩

theorem drained_of_isEmpty {pending : Pending} (noVariable : pending.isEmpty = true) :
    pending.drained = pending := by
  rcases isEmpty_iff.mp noVariable with ⟨base, states, elements, containers⟩
  have ofBlocks : ∀ {blocks : Blocks}, (∀ block ∈ blocks.entries, block.2 = ∅) →
      blocks.map (fun _ => ∅) = blocks := by
    intro blocks areEmpty
    apply OrderedMap.map_eq_self
    intro properties isBlock
    rcases List.mem_map.mp isBlock with ⟨block, isEntry, rfl⟩
    exact (areEmpty block isEntry).symm
  rw [drained, ofBlocks states, ofBlocks elements, ofBlocks containers, ← base]

/-- Every block has a name that tells its place. -/
structure Known (pending : Pending) : Prop where
  states : ∀ name ∈ pending.states.keys, (Place.state name).Known ∨ (Place.pluginState name).Known
  elements : ∀ name ∈ pending.elements.keys, (Place.element name).Known
  containers : ∀ name ∈ pending.containers.keys, (Place.pluginContainer name).Known

theorem Known.append {left right : Pending} (knownLeft : left.Known) (knownRight : right.Known) :
    (left.append right).Known where
  states := by
    intro name isName
    exact (OrderedMap.mem_keys_mergeWith.mp isName).elim (knownLeft.states name)
      (knownRight.states name)
  elements := by
    intro name isName
    exact (OrderedMap.mem_keys_mergeWith.mp isName).elim (knownLeft.elements name)
      (knownRight.elements name)
  containers := by
    intro name isName
    exact (OrderedMap.mem_keys_mergeWith.mp isName).elim (knownLeft.containers name)
      (knownRight.containers name)

/-- A default is found at the place that its block names. -/
theorem Known.exists_place_of_mem_defaults {pending : Pending} (known : pending.Known)
    {block name default : Text} (isDefault : (block, name, default) ∈ pending.defaults) :
    ∃ place : Place, place.Known ∧ place.block = block ∧
      (pending.propertiesAt place).get? name = some default := by
  rcases mem_defaults_iff.mp isDefault with ⟨properties, isBlock, isEntry⟩
  have found : properties.get? name = some default := OrderedMap.get?_eq_some_iff.mpr isEntry
  have ofBlocks : ∀ {blocks : Blocks}, (block, properties) ∈ blocks.entries →
      block ∈ blocks.keys ∧ (blocks.propertiesAt block).get? name = some default := by
    intro blocks isBlock
    refine ⟨OrderedMap.mem_keys_of_mem isBlock, ?_⟩
    rw [Blocks.propertiesAt, OrderedMap.get?_eq_some_iff.mpr isBlock]
    exact found
  simp only [blocks, List.cons_append, List.mem_cons, List.mem_append, Prod.mk.injEq] at isBlock
  rcases isBlock with ⟨rfl, rfl⟩ | (inStates | inElements) | inContainers
  · exact ⟨.base, Place.known_base, rfl, found⟩
  · rcases ofBlocks inStates with ⟨isKey, atBlock⟩
    rcases known.states block isKey with isState | isPluginState
    · exact ⟨.state block, isState, rfl, atBlock⟩
    · exact ⟨.pluginState block, isPluginState, rfl, atBlock⟩
  · rcases ofBlocks inElements with ⟨isKey, atBlock⟩
    exact ⟨.element block, known.elements block isKey, rfl, atBlock⟩
  · rcases ofBlocks inContainers with ⟨isKey, atBlock⟩
    exact ⟨.pluginContainer block, known.containers block isKey, rfl, atBlock⟩

end Pending

end TerseStyle

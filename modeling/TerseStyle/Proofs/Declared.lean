import TerseStyle.Proofs.Contribution
import TerseStyle.Proofs.Outcome
import TerseStyle.Style.Runtime
import TerseStyle.Theme.Build

/-!
# Where references stand

The values of a style refer to two kinds of variables, and each reference is covered by the style
itself: a local variable is among those that the style notes as used, and a runtime variable has a
default among the pending ones. A style with this property is `Sound`. The sum of sound styles is
sound, every contribution of a statement is, and so is the style of any list of statements, however
far it was read.
-/

namespace TerseStyle

open Reference (Unmarked Within IsName)

/-! ## Pending variables -/

/-- A block has a property. -/
def Blocks.Has (blocks : Blocks) (block name : Text) : Prop :=
  ∃ properties, blocks.get? block = some properties ∧ name ∈ properties.keys

variable {block name statement : Text} {body : Body} {slot : Slot} {environment : Environment}
  {contribution : Style} {theme : Theme}

theorem Blocks.has_append {left right : Blocks} :
    (Blocks.append left right).Has block name ↔ left.Has block name ∨ right.Has block name := by
  simp only [Has, Blocks.append, OrderedMap.get?_mergeWith]
  cases left.get? block <;> cases right.get? block <;> simp

theorem Blocks.has_iff_mem_entries {blocks : Blocks} :
    blocks.Has block name ↔
      ∃ properties, (block, properties) ∈ blocks.entries ∧ name ∈ properties.keys := by
  simp only [Has, OrderedMap.get?_eq_some_iff]

namespace Pending

variable {pending : Pending} {block name : Text}

theorem mem_defaults_iff {default : Text} :
    (block, name, default) ∈ pending.defaults ↔
      ∃ properties, (block, properties) ∈ pending.blocks ∧
        (name, default) ∈ properties.entries := by
  simp only [defaults, List.mem_flatMap, List.mem_map, Prod.mk.injEq, Prod.exists]
  constructor
  · rintro ⟨_, properties, isBlock, _, _, isEntry, rfl, rfl, rfl⟩
    exact ⟨properties, isBlock, isEntry⟩
  · rintro ⟨properties, isBlock, isEntry⟩
    exact ⟨block, properties, isBlock, name, default, isEntry, rfl, rfl, rfl⟩

theorem declares_iff_mem_blocks :
    pending.declares name block = true ↔
      ∃ properties, (block, properties) ∈ pending.blocks ∧ name ∈ properties.keys := by
  simp only [declares, List.any_eq_true, Bool.and_eq_true, beq_iff_eq, Prod.exists,
    mem_defaults_iff, OrderedMap.keys, List.mem_map]
  constructor
  · rintro ⟨_, _, default, ⟨properties, isBlock, isEntry⟩, rfl, rfl⟩
    exact ⟨properties, isBlock, _, default, isEntry, rfl⟩
  · rintro ⟨properties, isBlock, _, default, isEntry, rfl⟩
    exact ⟨block, _, default, ⟨properties, isBlock, isEntry⟩, rfl, rfl⟩

theorem declares_iff :
    pending.declares name block = true ↔
      (block = [] ∧ name ∈ pending.base.keys) ∨ pending.states.Has block name ∨
        pending.elements.Has block name ∨ pending.containers.Has block name := by
  rw [declares_iff_mem_blocks]
  simp only [blocks, List.cons_append, List.mem_cons, List.mem_append, Prod.mk.injEq,
    Blocks.has_iff_mem_entries, or_and_right, exists_or]
  constructor
  · rintro (⟨_, ⟨rfl, rfl⟩, isName⟩ | (inStates | inElements) | inContainers)
    · exact Or.inl ⟨rfl, isName⟩
    · exact Or.inr (Or.inl inStates)
    · exact Or.inr (Or.inr (Or.inl inElements))
    · exact Or.inr (Or.inr (Or.inr inContainers))
  · rintro (⟨rfl, isName⟩ | inStates | inElements | inContainers)
    · exact Or.inl ⟨_, ⟨rfl, rfl⟩, isName⟩
    · exact Or.inr (Or.inl (Or.inl inStates))
    · exact Or.inr (Or.inl (Or.inr inElements))
    · exact Or.inr (Or.inr inContainers)

theorem declares_append {left right : Pending} :
    (left.append right).declares name block = true ↔
      left.declares name block = true ∨ right.declares name block = true := by
  simp only [declares_iff, append, OrderedMap.mem_keys_merge, Blocks.has_append]
  tauto

theorem isEmpty_iff_not_declares :
    pending.isEmpty = true ↔ ∀ name block, pending.declares name block = false := by
  simp only [Bool.eq_false_iff, ne_eq, declares_iff_mem_blocks, isEmpty, List.all_eq_true,
    OrderedMap.isEmpty_iff, Prod.forall]
  constructor
  · rintro noVariable name block ⟨properties, isBlock, isName⟩
    simp [noVariable block properties isBlock] at isName
  · intro noVariable block properties isBlock
    apply OrderedMap.ext
    apply List.eq_nil_iff_forall_not_mem.mpr
    intro entry isEntry
    exact noVariable entry.1 block ⟨properties, isBlock, OrderedMap.mem_keys_of_mem isEntry⟩

theorem isEmpty_iff : pending.isEmpty = true ↔
    pending.base = ∅ ∧ (∀ block ∈ pending.states.entries, block.2 = ∅) ∧
      (∀ block ∈ pending.elements.entries, block.2 = ∅) ∧
      ∀ block ∈ pending.containers.entries, block.2 = ∅ := by
  simp only [isEmpty, blocks, List.cons_append, List.all_cons, List.all_append, Bool.and_eq_true,
    List.all_eq_true, OrderedMap.isEmpty_iff, and_assoc]

theorem isEmpty_iff_defaults : pending.isEmpty = true ↔ pending.defaults = [] := by
  simp only [isEmpty, List.all_eq_true, defaults, List.flatMap_eq_nil_iff, List.map_eq_nil_iff,
    OrderedMap.isEmpty, List.isEmpty_iff]

theorem isEmpty_append (left right : Pending) :
    (left.append right).isEmpty = (left.isEmpty && right.isEmpty) := by
  rw [Bool.eq_iff_iff, Bool.and_eq_true]
  simp only [isEmpty_iff_not_declares, Bool.eq_false_iff, ne_eq, declares_append, not_or,
    forall_and]

theorem mem_defaults_append {left right : Pending} {default : Text}
    (isDefault : (block, name, default) ∈ (left.append right).defaults) :
    (block, name, default) ∈ left.defaults ∨ (block, name, default) ∈ right.defaults := by
  simp only [mem_defaults_iff] at isDefault ⊢
  obtain ⟨properties, isBlock, isEntry⟩ := isDefault
  simp only [blocks, append, List.cons_append, List.mem_cons, List.mem_append, Prod.mk.injEq]
    at isBlock ⊢
  rcases isBlock with ⟨rfl, rfl⟩ | (inStates | inElements) | inContainers
  · rcases OrderedMap.mem_entries_merge isEntry with inLeft | inRight
    · exact Or.inl ⟨_, Or.inl ⟨rfl, rfl⟩, inLeft⟩
    · exact Or.inr ⟨_, Or.inl ⟨rfl, rfl⟩, inRight⟩
  · obtain ⟨own, inLeft | inRight, isOwn⟩ := Blocks.mem_entries_append inStates isEntry
    · exact Or.inl ⟨own, by tauto, isOwn⟩
    · exact Or.inr ⟨own, by tauto, isOwn⟩
  · obtain ⟨own, inLeft | inRight, isOwn⟩ := Blocks.mem_entries_append inElements isEntry
    · exact Or.inl ⟨own, by tauto, isOwn⟩
    · exact Or.inr ⟨own, by tauto, isOwn⟩
  · obtain ⟨own, inLeft | inRight, isOwn⟩ := Blocks.mem_entries_append inContainers isEntry
    · exact Or.inl ⟨own, by tauto, isOwn⟩
    · exact Or.inr ⟨own, by tauto, isOwn⟩

end Pending

/-! ## Declarations and labels of a style -/

namespace Style

/-- Some place of the style sets a property to a value. -/
inductive Sets (style : Style) (name value : Text) : Prop where
  | base (isEntry : (name, value) ∈ style.base.entries)
  | state {properties : Properties} (isBlock : properties ∈ style.states.values)
      (isEntry : (name, value) ∈ properties.entries)
  | pluginState {state : PluginState} (isState : state ∈ style.pluginStates.values)
      (isEntry : (name, value) ∈ state.properties.entries)
  | screen {block : Conditional} (isBlock : block ∈ style.screens)
      (isEntry : (name, value) ∈ block.properties.entries)
  | container {block : Conditional} (isBlock : block ∈ style.containers)
      (isEntry : (name, value) ∈ block.properties.entries)
  | pluginContainer {properties : Properties} (isBlock : properties ∈ style.pluginContainers.values)
      (isEntry : (name, value) ∈ properties.entries)
  | element {properties : Properties} (isBlock : properties ∈ style.elements.values)
      (isEntry : (name, value) ∈ properties.entries)

/-- The texts that the selectors of a style are made of, besides the selector of its owner. -/
def labels (style : Style) : List Text :=
  style.states.keys ++ style.pluginStates.values.map PluginState.selector ++
    style.pluginContainers.keys ++ style.elements.keys

theorem Sets.of_places {style other : Style} {name value : Text} (sets : style.Sets name value)
    (base : style.base = other.base) (states : style.states = other.states)
    (pluginStates : style.pluginStates = other.pluginStates)
    (screens : style.screens = other.screens) (containers : style.containers = other.containers)
    (pluginContainers : style.pluginContainers = other.pluginContainers)
    (elements : style.elements = other.elements) : other.Sets name value := by
  cases sets with
  | base isEntry => exact .base (base ▸ isEntry)
  | state isBlock isEntry => exact .state (states ▸ isBlock) isEntry
  | pluginState isState isEntry => exact .pluginState (pluginStates ▸ isState) isEntry
  | screen isBlock isEntry => exact .screen (screens ▸ isBlock) isEntry
  | container isBlock isEntry => exact .container (containers ▸ isBlock) isEntry
  | pluginContainer isBlock isEntry => exact .pluginContainer (pluginContainers ▸ isBlock) isEntry
  | element isBlock isEntry => exact .element (elements ▸ isBlock) isEntry

theorem mem_values_append {left right : Blocks} {properties : Properties} {entry : Text × Text}
    (isBlock : properties ∈ (Blocks.append left right).values)
    (isEntry : entry ∈ properties.entries) :
    ∃ own, (own ∈ left.values ∨ own ∈ right.values) ∧ entry ∈ own.entries := by
  simp only [OrderedMap.values, List.mem_map, Prod.exists, exists_eq_right] at isBlock ⊢
  obtain ⟨name, isBlock⟩ := isBlock
  obtain ⟨own, isOwn, inOwn⟩ := Blocks.mem_entries_append isBlock isEntry
  exact ⟨own, isOwn.imp (⟨name, ·⟩) (⟨name, ·⟩), inOwn⟩

theorem mem_pluginValues_append {left right : OrderedMap Text PluginState} {state : PluginState}
    (isState : state ∈ (left.mergeWith PluginState.append right).values) :
    (∃ own, (own ∈ left.values ∨ own ∈ right.values) ∧ own.selector = state.selector) ∧
      ∀ entry ∈ state.properties.entries,
        ∃ own, (own ∈ left.values ∨ own ∈ right.values) ∧ entry ∈ own.properties.entries := by
  simp only [OrderedMap.values, List.mem_map, Prod.exists, exists_eq_right] at isState ⊢
  obtain ⟨name, isState⟩ := isState
  rcases OrderedMap.mem_entries_mergeWith isState with
    inLeft | inRight | ⟨old, new, inLeft, inRight, same⟩
  · exact ⟨⟨state, Or.inl ⟨name, inLeft⟩, rfl⟩, fun entry isEntry =>
      ⟨state, Or.inl ⟨name, inLeft⟩, isEntry⟩⟩
  · exact ⟨⟨state, Or.inr ⟨name, inRight⟩, rfl⟩, fun entry isEntry =>
      ⟨state, Or.inr ⟨name, inRight⟩, isEntry⟩⟩
  · simp only at same
    rw [same]
    refine ⟨⟨old, Or.inl ⟨name, inLeft⟩, rfl⟩, ?_⟩
    intro entry isEntry
    rcases OrderedMap.mem_entries_merge isEntry with inOld | inNew
    · exact ⟨old, Or.inl ⟨name, inLeft⟩, inOld⟩
    · exact ⟨new, Or.inr ⟨name, inRight⟩, inNew⟩

variable {left right : Style} {reference : Reference}

theorem sets_append {name value : Text} (sets : (left ++ right).Sets name value) :
    left.Sets name value ∨ right.Sets name value := by
  cases sets with
  | base isEntry => exact (OrderedMap.mem_entries_merge isEntry).imp .base .base
  | state isBlock isEntry =>
      obtain ⟨own, isOwn, inOwn⟩ := mem_values_append isBlock isEntry
      exact isOwn.imp (.state · inOwn) (.state · inOwn)
  | pluginState isState isEntry =>
      obtain ⟨own, isOwn, inOwn⟩ := (mem_pluginValues_append isState).2 _ isEntry
      exact isOwn.imp (.pluginState · inOwn) (.pluginState · inOwn)
  | screen isBlock isEntry =>
      exact (List.mem_append.mp isBlock).imp (.screen · isEntry) (.screen · isEntry)
  | container isBlock isEntry =>
      exact (List.mem_append.mp isBlock).imp (.container · isEntry) (.container · isEntry)
  | pluginContainer isBlock isEntry =>
      obtain ⟨own, isOwn, inOwn⟩ := mem_values_append isBlock isEntry
      exact isOwn.imp (.pluginContainer · inOwn) (.pluginContainer · inOwn)
  | element isBlock isEntry =>
      obtain ⟨own, isOwn, inOwn⟩ := mem_values_append isBlock isEntry
      exact isOwn.imp (.element · inOwn) (.element · inOwn)

theorem mem_labels_append {label : Text} (isLabel : label ∈ (left ++ right).labels) :
    label ∈ left.labels ∨ label ∈ right.labels := by
  simp only [labels, List.mem_append, states_append, pluginStates_append, pluginContainers_append,
    elements_append, Blocks.append, OrderedMap.mem_keys_mergeWith, List.mem_map] at isLabel ⊢
  rcases isLabel with ((inStates | ⟨state, isState, isSelector⟩) | inContainers) | inElements
  · tauto
  · obtain ⟨⟨own, isOwn, sameSelector⟩, -⟩ := mem_pluginValues_append isState
    rw [← isSelector, ← sameSelector]
    rcases isOwn with inLeft | inRight
    · exact Or.inl (Or.inl (Or.inl (Or.inr ⟨own, inLeft, rfl⟩)))
    · exact Or.inr (Or.inl (Or.inl (Or.inr ⟨own, inRight, rfl⟩)))
  · tauto
  · tauto

/-! ## Sound styles -/

/-- The references that a style covers. -/
def Covers (style : Style) : Reference → Prop
  | .runtime name block => style.pending.declares name block = true
  | .localVariable name => name ∈ style.usedLocals.keys
  | .scope _ => False

/-- Every reference of the style is covered, and everything else in it is unmarked. Conditions are
left out: a fragment of a theme may bring any. -/
structure Sound (style : Style) : Prop where
  values : ∀ {name value}, style.Sets name value → Unmarked name ∧ Within style.Covers value
  labels : ∀ label ∈ style.labels, Unmarked label
  locals : ∀ entry ∈ style.localVariables.entries,
    Unmarked entry.1 ∧ Within (Reference.IsLocalOf style.usedLocals) entry.2
  defaults : ∀ {block name default}, (block, name, default) ∈ style.pending.defaults →
    Vocabulary.AreBlockChars block ∧ Vocabulary.isWord name = true ∧ Unmarked default
  rootVariables : style.rootVariables = ∅

theorem covers_append (covers : left.Covers reference ∨ right.Covers reference) :
    (left ++ right).Covers reference := by
  cases reference with
  | runtime name block => exact Pending.declares_append.mpr covers
  | localVariable name => exact OrderedMap.mem_keys_merge.mpr covers
  | scope name => exact covers.elim id id

theorem isLocalOf_merge {left right : Names}
    (isLocal : reference.IsLocalOf left ∨ reference.IsLocalOf right) :
    reference.IsLocalOf (left.merge right) := by
  cases reference with
  | localVariable name => exact OrderedMap.mem_keys_merge.mpr isLocal
  | runtime name block => exact isLocal.elim id id
  | scope name => exact isLocal.elim id id

theorem Sound.append (soundLeft : left.Sound) (soundRight : right.Sound) :
    (left ++ right).Sound where
  values := by
    intro name value sets
    rcases sets_append sets with inLeft | inRight
    · obtain ⟨unmarked, within⟩ := soundLeft.values inLeft
      exact ⟨unmarked, within.mono fun _ covers => covers_append (Or.inl covers)⟩
    · obtain ⟨unmarked, within⟩ := soundRight.values inRight
      exact ⟨unmarked, within.mono fun _ covers => covers_append (Or.inr covers)⟩
  labels := by
    intro label isLabel
    exact (mem_labels_append isLabel).elim (soundLeft.labels label) (soundRight.labels label)
  locals := by
    intro entry isEntry
    rcases OrderedMap.mem_entries_merge isEntry with inLeft | inRight
    · obtain ⟨unmarked, within⟩ := soundLeft.locals entry inLeft
      exact ⟨unmarked, within.mono fun _ isLocal => isLocalOf_merge (Or.inl isLocal)⟩
    · obtain ⟨unmarked, within⟩ := soundRight.locals entry inRight
      exact ⟨unmarked, within.mono fun _ isLocal => isLocalOf_merge (Or.inr isLocal)⟩
  defaults := by
    intro block name default isDefault
    exact (Pending.mem_defaults_append isDefault).elim soundLeft.defaults soundRight.defaults
  rootVariables := by
    rw [rootVariables_append, soundLeft.rootVariables, soundRight.rootVariables,
      OrderedMap.merge_empty]

end Style

namespace Body

/-- The references that the body of a block covers. -/
def Covers (block : Text) (body : Body) : Reference → Prop
  | .runtime name place => place = block ∧ name ∈ body.defaults.keys
  | .localVariable name => name ∈ body.usedLocals.keys
  | .scope _ => False

/-- Every reference of the body is covered, and everything else in it is unmarked. -/
structure Sound (block : Text) (body : Body) : Prop where
  values : ∀ entry ∈ body.properties.entries, Unmarked entry.1 ∧ Within (body.Covers block) entry.2
  defaults : ∀ entry ∈ body.defaults.entries, Vocabulary.isWord entry.1 = true ∧ Unmarked entry.2

theorem sound_empty (block : Text) : (∅ : Body).Sound block :=
  ⟨by simp, by simp⟩

theorem Sound.append {block : Text} {left right : Body} (soundLeft : left.Sound block)
    (soundRight : right.Sound block) : (left ++ right).Sound block where
  values := by
    have wider : ∀ reference, left.Covers block reference ∨ right.Covers block reference →
        (left ++ right).Covers block reference := by
      intro reference covers
      cases reference with
      | runtime name place =>
          simp only [Covers, defaults_append, OrderedMap.mem_keys_merge] at covers ⊢
          tauto
      | localVariable name => exact OrderedMap.mem_keys_merge.mpr covers
      | scope name => exact covers.elim id id
    intro entry isEntry
    rcases OrderedMap.mem_entries_merge isEntry with inLeft | inRight
    · obtain ⟨unmarked, within⟩ := soundLeft.values entry inLeft
      exact ⟨unmarked, within.mono fun reference covers => wider reference (Or.inl covers)⟩
    · obtain ⟨unmarked, within⟩ := soundRight.values entry inRight
      exact ⟨unmarked, within.mono fun reference covers => wider reference (Or.inr covers)⟩
  defaults := by
    intro entry isEntry
    exact (OrderedMap.mem_entries_merge isEntry).elim (soundLeft.defaults entry)
      (soundRight.defaults entry)

theorem mem_entries_ofProperties {names : List Text} {value : Text} {entry : Text × Text}
    (isEntry : entry ∈ (ofProperties names value).properties.entries) :
    entry.1 ∈ names ∧ entry.2 = value := by
  obtain ⟨name, isName, rfl⟩ := List.mem_map.mp (OrderedMap.mem_entries_ofList isEntry)
  exact ⟨isName, rfl⟩

theorem sound_ofProperties (block : Text) {names : List Text} {value : Text} {important : Bool}
    {used : Names} (areNames : ArePropertyNames names)
    (refers : Within (Reference.IsLocalOf used) value) :
    Sound block
      { ofProperties names (Value.withImportance important value) with usedLocals := used } where
  values := by
    intro entry isEntry
    obtain ⟨isName, isValue⟩ := mem_entries_ofProperties isEntry
    refine ⟨areNames.unmarked _ isName, ?_⟩
    rw [isValue]
    apply Value.within_withImportance
    apply refers.mono
    intro reference isLocal
    obtain ⟨name, isUsed, rfl⟩ := isLocal.exists_eq
    exact isUsed
  defaults := by simp [ofProperties]

theorem sound_runtime {block name default : Text} {properties : List Text} {important : Bool}
    (isBlock : Vocabulary.AreBlockChars block)
    (expands : Abbreviation.expand? name = some properties) (unmarked : Unmarked default) :
    Sound block
      { ofProperties properties
          (Value.withImportance important (Reference.runtime name block).render) with
        defaults := .single name default } where
  values := by
    intro entry isEntry
    obtain ⟨isName, isValue⟩ := mem_entries_ofProperties isEntry
    refine ⟨Abbreviation.unmarked_of_expand? expands _ isName, ?_⟩
    rw [isValue]
    apply Value.within_withImportance
    refine Within.of_render ⟨?_, fun c isChar => (isBlock c isChar).1⟩ ⟨rfl, by simp⟩
    exact Vocabulary.isName_of_isWord (Abbreviation.isWord_of_expand? expands)
  defaults := by
    intro entry isEntry
    rw [OrderedMap.entries_single, List.mem_singleton] at isEntry
    rw [isEntry]
    exact ⟨Abbreviation.isWord_of_expand? expands, unmarked⟩

end Body

/-! ## Bodies in their place -/

/-- The style refers to nothing, and everything in it but conditions is unmarked. -/
structure Style.Plain (style : Style) : Prop where
  values : ∀ {name value}, style.Sets name value → Unmarked name ∧ Unmarked value
  labels : ∀ label ∈ style.labels, Unmarked label
  usedLocals : style.usedLocals = ∅

/-- No fragment of the theme refers to anything. -/
def Theme.Sound (theme : Theme) : Prop :=
  ∀ {group variant fragment}, theme.fragment? group variant = some fragment → fragment.Plain

namespace Style

theorem sets_ofBody {body : Body} {name value : Text} (sets : (ofBody body).Sets name value) :
    (name, value) ∈ body.properties.entries := by
  cases sets with
  | base isEntry => exact isEntry
  | state isBlock | pluginState isBlock | screen isBlock | container isBlock
  | pluginContainer isBlock | element isBlock => simp [ofBody] at isBlock

end Style

theorem Body.Sound.ofBody (sound : body.Sound []) : (Style.ofBody body).Sound where
  values := by
    intro name value sets
    obtain ⟨unmarked, within⟩ := sound.values _ (Style.sets_ofBody sets)
    refine ⟨unmarked, within.mono ?_⟩
    intro reference covers
    cases reference with
    | runtime name place => exact Pending.declares_iff.mpr (Or.inl covers)
    | localVariable name => exact covers
    | scope name => exact covers
  labels := by simp [Style.labels, Style.ofBody]
  locals := by simp [Style.ofBody]
  defaults := by
    intro block name default isDefault
    simp only [Style.ofBody, Pending.mem_defaults_iff, Pending.blocks, OrderedMap.entries_empty,
      List.append_nil, List.mem_singleton, Prod.mk.injEq] at isDefault
    obtain ⟨_, ⟨rfl, rfl⟩, isEntry⟩ := isDefault
    exact ⟨by simp [Vocabulary.AreBlockChars], sound.defaults _ isEntry⟩
  rootVariables := rfl

theorem Slot.sets_place {value : Text} (sets : (slot.place body).Sets name value) :
    (name, value) ∈ body.properties.entries := by
  cases slot <;> cases sets <;> simp_all [place]

theorem Slot.declares_place (isDefault : name ∈ body.defaults.keys) :
    (slot.place body).pending.declares name slot.target.block = true := by
  rw [Pending.declares_iff]
  cases slot <;> simp [place, target, Target.insideBlock, Blocks.Has, isDefault]

theorem Slot.mem_defaults_place {default : Text}
    (isDefault : (block, name, default) ∈ (slot.place body).pending.defaults) :
    block = slot.target.block ∧ (name, default) ∈ body.defaults.entries := by
  rw [Pending.mem_defaults_iff] at isDefault
  obtain ⟨properties, isBlock, isEntry⟩ := isDefault
  cases slot <;>
    simp only [place, target, Target.insideBlock, Pending.blocks, OrderedMap.entries_empty,
      OrderedMap.entries_single, List.nil_append, List.append_nil, List.cons_append, List.mem_cons,
      Prod.mk.injEq, List.not_mem_nil, or_false] at isBlock ⊢
  all_goals
    rcases isBlock with ⟨_, rfl⟩ | ⟨rfl, rfl⟩
    · simp at isEntry
    · exact ⟨rfl, isEntry⟩

theorem Slot.of_mem_labels_place {label : Text} (isLabel : label ∈ (slot.place body).labels) :
    label = slot.target.block ∨ ∃ name, slot = .pluginState name label := by
  cases slot <;> simp_all [Style.labels, place, target, Target.insideBlock]

theorem Slot.unmarked_labels_place (wellFormed : slot.WellFormed) (body : Body) :
    ∀ label ∈ (slot.place body).labels, Unmarked label := by
  intro label isLabel
  rcases of_mem_labels_place isLabel with rfl | ⟨name, rfl⟩
  · exact Reference.unmarked_of_isNameChar fun c isChar => (wellFormed.areBlockChars c isChar).1
  · exact (wellFormed.selector name label rfl).1

theorem Body.Sound.place (wellFormed : slot.WellFormed) (sound : body.Sound slot.target.block) :
    (slot.place body).Sound where
  values := by
    intro name value sets
    obtain ⟨unmarked, within⟩ := sound.values _ (Slot.sets_place sets)
    refine ⟨unmarked, within.mono ?_⟩
    intro reference covers
    cases reference with
    | runtime name place =>
        obtain ⟨rfl, isDefault⟩ := covers
        exact Slot.declares_place isDefault
    | localVariable name => cases slot <;> exact covers
    | scope name => exact covers
  labels := Slot.unmarked_labels_place wellFormed body
  locals := by cases slot <;> simp [Slot.place]
  defaults := by
    intro block name default isDefault
    obtain ⟨rfl, isEntry⟩ := Slot.mem_defaults_place isDefault
    exact ⟨wellFormed.areBlockChars, sound.defaults _ isEntry⟩
  rootVariables := by cases slot <;> rfl

/-! ## Contributions are sound -/

namespace Contributes

variable {environment : Environment}

theorem noDefaults {label name : Text} {isElement takesRuntime : Bool} {body : Body}
    (noRuntime : environment.context.allowsRuntime = false ∨ takesRuntime = false)
    (contributes : Contributes environment (.insideBlock label name isElement takesRuntime) body) :
    body.defaults = ∅ := by
  induction contributes with
  | nothing => rfl
  | both _ _ first second => rw [Body.defaults_append, first, second, OrderedMap.merge_empty]
  | properties => rfl
  | runtime mayDeclare takesIt =>
      rcases noRuntime with disallowed | refused
      · simp [disallowed] at mayDeclare
      · simp [Target.insideBlock, refused] at takesIt
  | localVariable _ takesLocals => simp [Target.insideBlock] at takesLocals
  | fragment => rfl

theorem sound_insideBlock (soundTheme : environment.theme.Sound) {label name : Text}
    {isElement takesRuntime : Bool} (isBlock : Vocabulary.AreBlockChars name) {body : Body}
    (contributes : Contributes environment (.insideBlock label name isElement takesRuntime) body) :
    body.Sound name := by
  induction contributes with
  | nothing => exact Body.sound_empty name
  | both _ _ first second => exact first.append second
  | properties areNames _ _ refers => exact Body.sound_ofProperties name areNames refers
  | runtime _ _ expands unmarked => exact Body.sound_runtime isBlock expands unmarked
  | localVariable _ takesLocals => simp [Target.insideBlock] at takesLocals
  | @fragment _ _ fragment important _ isFragment =>
      refine ⟨?_, by simp [Target.insideBlock]⟩
      intro entry isEntry
      obtain ⟨own, isOwn, rfl⟩ := List.mem_map.mp isEntry
      obtain ⟨unmarked, plain⟩ := (soundTheme isFragment).values (.base isOwn)
      exact ⟨unmarked, Value.within_withImportance important (Within.of_unmarked plain)⟩

theorem sound_localVariable {name value : Text} {used : Names}
    (isAscii : ∀ c ∈ name, isAsciiNameChar c = true)
    (refers : Within (Reference.IsLocalOf used) value) :
    (Style.ofBody { usedLocals := used } ++
      { localVariables := OrderedMap.single name value : Style }).Sound where
  values := by
    intro property value sets
    cases sets <;> simp_all [Style.ofBody]
  labels := by simp [Style.labels, Style.ofBody]
  locals := by
    intro entry isEntry
    simp only [Style.localVariables_append, Style.ofBody, OrderedMap.empty_merge,
      OrderedMap.entries_single, List.mem_singleton] at isEntry
    rw [isEntry]
    exact ⟨unmarked_of_isAsciiNameChar isAscii, by simpa [Style.ofBody] using refers⟩
  defaults := by
    intro block name default isDefault
    simp [Style.ofBody, Pending.mem_defaults_iff, Pending.blocks] at isDefault
  rootVariables := rfl

theorem sound_shared {fragment : Style} (plain : fragment.Plain) : fragment.shared.Sound where
  values := by
    intro name value sets
    have inFragment : fragment.Sets name value := sets.of_places rfl rfl rfl rfl rfl rfl rfl
    obtain ⟨unmarkedName, unmarkedValue⟩ := plain.values inFragment
    exact ⟨unmarkedName, Within.of_unmarked unmarkedValue⟩
  labels := plain.labels
  locals := by simp [Style.shared]
  defaults := by
    intro block name default isDefault
    simp [Style.shared, Pending.mem_defaults_iff, Pending.blocks] at isDefault
  rootVariables := rfl

theorem sound_importantBase {fragment : Style} (plain : fragment.Plain) :
    ({ base := fragment.importantBase true } : Style).Sound := by
  have soundBody : Body.Sound [] { properties := fragment.importantBase true } := by
    refine ⟨?_, by simp⟩
    intro entry isEntry
    obtain ⟨own, isOwn, rfl⟩ := List.mem_map.mp isEntry
    obtain ⟨unmarked, plainValue⟩ := plain.values (.base isOwn)
    exact ⟨unmarked, Value.within_withImportance true (Within.of_unmarked plainValue)⟩
  exact soundBody.ofBody

theorem sound_topLevel (soundTheme : environment.theme.Sound) {isDeclared : Text → Bool}
    {contribution : Style}
    (contributes : Contributes environment (.topLevel isDeclared) contribution) :
    contribution.Sound := by
  induction contributes with
  | nothing => exact (Body.sound_empty []).ofBody
  | both _ _ first second => exact first.append second
  | properties areNames _ _ refers => exact (Body.sound_ofProperties [] areNames refers).ofBody
  | runtime _ _ expands unmarked =>
      exact (Body.sound_runtime (by simp [Vocabulary.AreBlockChars]) expands unmarked).ofBody
  | localVariable _ takesLocals isAscii _ refers =>
      simp only [Target.topLevel, Option.some.injEq] at takesLocals
      rw [← takesLocals]
      exact sound_localVariable isAscii refers
  | @fragment _ _ fragment important _ isFragment =>
      have plain := soundTheme isFragment
      cases important with
      | false => exact sound_shared plain
      | true => exact (sound_shared plain).append (sound_importantBase plain)

end Contributes

theorem Condition.sound_place {kind : Condition} {query : Text} (sound : body.Sound [])
    (noDefaults : body.defaults = ∅) :
    ({ usedLocals := body.usedLocals } ++ kind.place query body.properties : Style).Sound where
  values := by
    intro name value sets
    have isEntry : (name, value) ∈ body.properties.entries := by
      cases kind <;> cases sets <;> simp_all [place]
    obtain ⟨unmarked, within⟩ := sound.values _ isEntry
    refine ⟨unmarked, within.mono ?_⟩
    intro reference covers
    cases reference with
    | runtime name block => simp [Body.Covers, noDefaults] at covers
    | localVariable name => cases kind <;> exact covers
    | scope name => exact covers
  labels := by cases kind <;> simp [Style.labels, place]
  locals := by cases kind <;> simp [place]
  defaults := by
    intro block name default isDefault
    cases kind <;> simp [place, Pending.mem_defaults_iff, Pending.blocks] at isDefault
  rootVariables := by cases kind <;> rfl

theorem Contribution.sound (contributes : Contribution environment statement contribution)
    (soundTheme : environment.theme.Sound) : contribution.Sound := by
  cases contributes with
  | flat _ contributes => exact contributes.sound_topLevel soundTheme
  | @slotted head slot body isSlot contributes =>
      have wellFormed := Slot.wellFormed_of_ofHead? isSlot
      have isBlock := wellFormed.areBlockChars
      have sound : body.Sound slot.target.block := by
        cases slot <;> exact contributes.sound_insideBlock soundTheme isBlock
      exact sound.place wellFormed
  | @mentioned _ body _ =>
      have soundBody : Body.Sound [] { usedLocals := body.usedLocals } := ⟨by simp, by simp⟩
      exact soundBody.ofBody
  | conditional contributes =>
      apply Condition.sound_place
      · exact contributes.sound_insideBlock soundTheme (by simp [Vocabulary.AreBlockChars])
      · exact contributes.noDefaults (Or.inr rfl)

theorem Style.sound_empty : (∅ : Style).Sound :=
  (Body.sound_empty []).ofBody

/-! ## Contexts without variables -/

/-- The style declares no variable of any kind. -/
structure Style.VariableFree (style : Style) : Prop where
  rootVariables : style.rootVariables = ∅
  localVariables : style.localVariables = ∅
  hasRuntime : style.hasRuntime = false
  pending : style.pending.isEmpty = true

namespace Style

theorem variableFree_empty : (∅ : Style).VariableFree := ⟨rfl, rfl, rfl, rfl⟩

theorem VariableFree.append {left right : Style} (freeLeft : left.VariableFree)
    (freeRight : right.VariableFree) : (left ++ right).VariableFree where
  rootVariables := by simp [freeLeft.rootVariables, freeRight.rootVariables]
  localVariables := by simp [freeLeft.localVariables, freeRight.localVariables]
  hasRuntime := by simp [freeLeft.hasRuntime, freeRight.hasRuntime]
  pending := by
    rw [pending_append, Pending.isEmpty_append, freeLeft.pending, freeRight.pending, Bool.and_true]

theorem variableFree_shared (style : Style) : style.shared.VariableFree := ⟨rfl, rfl, rfl, rfl⟩

end Style

theorem Contributes.variableFree (noRuntime : environment.context.allowsRuntime = false)
    (noLocals : environment.context.allowsLocalDeclarations = false) {isDeclared : Text → Bool}
    (contributes : Contributes environment (.topLevel isDeclared) contribution) :
    contribution.VariableFree := by
  induction contributes with
  | nothing => exact Style.variableFree_empty
  | both _ _ first second => exact first.append second
  | properties => exact ⟨rfl, rfl, rfl, rfl⟩
  | runtime mayDeclare => simp [noRuntime] at mayDeclare
  | localVariable mayDeclare => simp [noLocals] at mayDeclare
  | @fragment _ _ fragment important _ _ =>
      cases important with
      | false => exact fragment.variableFree_shared
      | true => exact fragment.variableFree_shared.append ⟨rfl, rfl, rfl, rfl⟩

theorem Contribution.variableFree (noRuntime : environment.context.allowsRuntime = false)
    (noLocals : environment.context.allowsLocalDeclarations = false)
    (contributes : Contribution environment statement contribution) :
    contribution.VariableFree := by
  cases contributes with
  | flat _ contributes => exact contributes.variableFree noRuntime noLocals
  | @slotted head slot body _ contributes =>
      have noDefaults : body.defaults = ∅ := by
        cases slot <;> exact contributes.noDefaults (Or.inl noRuntime)
      cases slot <;>
        simp only [Slot.place, noDefaults] <;> exact ⟨rfl, rfl, rfl, rfl⟩
  | mentioned => exact ⟨rfl, rfl, rfl, rfl⟩
  | @conditional kind => cases kind <;> exact ⟨rfl, rfl, rfl, rfl⟩

theorem eq_empty_of_mayRefer (noReferences : environment.context.allowsLocalReferences = false)
    {used : Names} (mayRefer : used ≠ ∅ → environment.context.allowsLocalReferences = true) :
    used = ∅ := by
  by_contra someUsed
  simp [mayRefer someUsed] at noReferences

theorem Contributes.usedLocals_insideBlock
    (noReferences : environment.context.allowsLocalReferences = false) {label : Text}
    {isElement takesRuntime : Bool}
    (contributes : Contributes environment (.insideBlock label name isElement takesRuntime) body) :
    body.usedLocals = ∅ := by
  induction contributes with
  | nothing => rfl
  | both _ _ first second => rw [Body.usedLocals_append, first, second, OrderedMap.merge_empty]
  | properties _ _ mayRefer => exact eq_empty_of_mayRefer noReferences mayRefer
  | runtime => rfl
  | localVariable _ takesLocals => simp [Target.insideBlock] at takesLocals
  | fragment => rfl

theorem Contributes.usedLocals_topLevel
    (noReferences : environment.context.allowsLocalReferences = false)
    (soundTheme : environment.theme.Sound) {isDeclared : Text → Bool}
    (contributes : Contributes environment (.topLevel isDeclared) contribution) :
    contribution.usedLocals = ∅ := by
  induction contributes with
  | nothing => rfl
  | both _ _ first second => rw [Style.usedLocals_append, first, second, OrderedMap.merge_empty]
  | properties _ _ mayRefer => exact eq_empty_of_mayRefer noReferences mayRefer
  | runtime => rfl
  | localVariable _ takesLocals _ mayRefer =>
      simp only [Target.topLevel, Option.some.injEq] at takesLocals
      rw [← takesLocals, eq_empty_of_mayRefer noReferences mayRefer]
      rfl
  | @fragment _ _ fragment important _ isFragment =>
      cases important with
      | false => exact (soundTheme isFragment).usedLocals
      | true => exact (soundTheme isFragment).usedLocals

theorem Contribution.usedLocals (contributes : Contribution environment statement contribution)
    (noReferences : environment.context.allowsLocalReferences = false)
    (soundTheme : environment.theme.Sound) : contribution.usedLocals = ∅ := by
  cases contributes with
  | flat _ contributes => exact contributes.usedLocals_topLevel noReferences soundTheme
  | @slotted head slot body _ contributes =>
      have noneUsed : body.usedLocals = ∅ := by
        cases slot <;> exact contributes.usedLocals_insideBlock noReferences
      cases slot <;> exact noneUsed
  | mentioned contributes => exact contributes.usedLocals_insideBlock noReferences
  | @conditional kind _ _ _ contributes =>
      cases kind <;> exact contributes.usedLocals_insideBlock noReferences

theorem Style.Sound.plain {style : Style} (sound : style.Sound) (usedLocals : style.usedLocals = ∅)
    (noVariable : style.pending.isEmpty = true) : style.Plain where
  values := by
    intro name value sets
    obtain ⟨unmarked, within⟩ := sound.values sets
    refine ⟨unmarked, Within.unmarked (within.mono ?_)⟩
    intro reference covers
    cases reference with
    | runtime name block => simp [Covers, Pending.isEmpty_iff_not_declares.mp noVariable] at covers
    | localVariable name => simp [Covers, usedLocals] at covers
    | scope name => exact covers
  labels := sound.labels
  usedLocals := usedLocals

/-! ## Themes of texts -/

theorem Theme.sound_of_noDefines (noDefines : theme.defines = ∅) : theme.Sound := by
  intro group variant fragment isFragment
  simp [fragment?, noDefines] at isFragment

/-- A fragment that is compiled from a text is plain. -/
theorem Fragment.plain_of_compileText (noDefines : theme.defines = ∅) {text : Text}
    {fragment : Style} (compiles : compileText theme text = .ok fragment) : fragment.Plain := by
  have soundTheme : theme.Sound := Theme.sound_of_noDefines noDefines
  rw [compileText, Attempt.toExcept_eq_ok] at compiles
  have invariant : fragment.Sound ∧ fragment.VariableFree ∧ fragment.usedLocals = ∅ := by
    have isState :
        fragment = ((∅ : Style).dispatchBody { context := .theme, theme } text).state := by
      rw [compiles]
    rw [isState]
    apply Style.dispatchBody_induction
      fun style => style.Sound ∧ style.VariableFree ∧ style.usedLocals = ∅
    · rintro style contribution _ _ ⟨sound, free, noneUsed⟩ contributes
      refine ⟨sound.append (contributes.sound soundTheme),
        free.append (contributes.variableFree rfl rfl), ?_⟩
      rw [Style.usedLocals_append, noneUsed, contributes.usedLocals rfl soundTheme,
        OrderedMap.merge_empty]
    · exact ⟨Style.sound_empty, Style.variableFree_empty, rfl⟩
  exact invariant.1.plain invariant.2.2 invariant.2.1.pending

/-- The fragments of a theme are compiled from its texts. -/
theorem Theme.exists_text_of_fragment? {texts : Theme.Texts}
    (built : Theme.ofTexts texts = .ok theme) {group variant : Text} {fragment : Style}
    (isFragment : theme.fragment? group variant = some fragment) :
    ∃ fragments, (group, fragments) ∈ texts.defines ∧ ∃ text, (variant, text) ∈ fragments ∧
      Fragment.compileText { texts.tables with defines := ∅ } text = .ok fragment := by
  rw [ofTexts, withGroups, bind_eq_ok] at built
  obtain ⟨compiled, made, isTheme⟩ := built
  simp only [pure, Except.pure, Except.ok.injEq] at isTheme
  rw [fragment?, ← isTheme, Option.bind_eq_some_iff] at isFragment
  obtain ⟨variants, isGroup, isVariant⟩ := isFragment
  have inCompiled := OrderedMap.mem_entries_ofList (OrderedMap.get?_eq_some_iff.mp isGroup)
  obtain ⟨⟨name, written⟩, isWritten, madeGroup⟩ := exists_of_mem_mapM made inCompiled
  obtain ⟨⟨_, fragments⟩, isDefine, sameGroup⟩ := List.mem_map.mp isWritten
  simp only [Prod.mk.injEq] at sameGroup
  rw [bind_eq_ok] at madeGroup
  obtain ⟨_, compiledGroup, sameName⟩ := madeGroup
  simp only [pure, Except.pure, Except.ok.injEq, Prod.mk.injEq] at sameName
  rw [sameName.2, compileGroup] at compiledGroup
  split at compiledGroup
  · simp [bind, Except.bind, throw, throwThe, MonadExceptOf.throw] at compiledGroup
  · simp only [bind_eq_ok] at compiledGroup
    obtain ⟨compiledFragments, madeFragments, isOfList⟩ := compiledGroup
    simp only [pure, Except.pure, Except.ok.injEq] at isOfList
    rw [← isOfList] at isVariant
    have inFragments := OrderedMap.mem_entries_ofList (OrderedMap.get?_eq_some_iff.mp isVariant)
    obtain ⟨⟨_, written⟩, isWritten, madeFragment⟩ := exists_of_mem_mapM madeFragments inFragments
    rw [← sameGroup.2] at isWritten
    obtain ⟨⟨_, text⟩, isText, sameFragment⟩ := List.mem_map.mp isWritten
    simp only [Prod.mk.injEq] at sameFragment
    rw [bind_eq_ok] at madeFragment
    obtain ⟨_, compiles, sameVariant⟩ := madeFragment
    simp only [pure, Except.pure, Except.ok.injEq, Prod.mk.injEq] at sameVariant
    rw [sameVariant.2, ← sameFragment.2] at compiles
    refine ⟨fragments, ?_, text, ?_, compiles⟩
    · rw [← sameName.1, ← sameGroup.1]
      exact isDefine
    · rw [← sameVariant.1, ← sameFragment.1]
      exact isText

theorem Theme.sound_of_ofTexts {texts : Theme.Texts} (built : Theme.ofTexts texts = .ok theme) :
    theme.Sound := by
  intro group variant fragment isFragment
  obtain ⟨_, _, _, _, compiles⟩ := exists_text_of_fragment? built isFragment
  exact Fragment.plain_of_compileText rfl compiles

end TerseStyle

import TerseStyle.Proofs.Declared
import TerseStyle.Sheet

/-!
# Final names of variables

Values get the final names of variables in two passes: runtime variables when the class is known,
local variables when its rules are written. On a sound style neither pass is refused, and together
they write every reference once, to a use of the custom property that `Reference.final` names.
-/

namespace TerseStyle

open Reference (Unmarked Within rewrite)

namespace Attempt

variable {κ σ : Type}

theorem mapList_eq {change : σ → Attempt σ} {pure : σ → σ} {items : List σ}
    (succeeds : ∀ item ∈ items, change item = { state := pure item }) :
    mapList change items = { state := items.map pure } := by
  induction items with
  | nil => rfl
  | cons item rest ih =>
      rw [List.forall_mem_cons] at succeeds
      rw [mapList, succeeds.1]
      simp only [ih succeeds.2, map, List.map_cons]

theorem mapValues_eq {change : σ → Attempt σ} {pure : σ → σ} {source : OrderedMap κ σ}
    (succeeds : ∀ value ∈ source.values, change value = { state := pure value }) :
    mapValues change source = { state := source.map pure } := by
  have ofEntries : mapEntries change source.entries =
      { state := source.entries.map fun entry => (entry.1, pure entry.2) } := by
    apply mapList_eq
    intro entry isEntry
    rw [succeeds entry.2 (List.mem_map_of_mem isEntry), map]
  simp only [mapValues, ofEntries]
  rfl

end Attempt

theorem Properties.changeValues_eq {change : Text → Except Error Text} {pure : Text → Text}
    {properties : Properties}
    (succeeds : ∀ entry ∈ properties.entries, change entry.2 = .ok (pure entry.2)) :
    properties.changeValues change = { state := properties.map pure } := by
  apply Attempt.mapValues_eq
  intro value isValue
  obtain ⟨entry, isEntry, rfl⟩ := List.mem_map.mp isValue
  rw [succeeds entry isEntry]
  rfl

namespace Style

/-- The style with every value changed. -/
def mapValues (change : Text → Text) (style : Style) : Style :=
  { style with
    base := style.base.map change
    states := style.states.map (OrderedMap.map change)
    pluginStates := style.pluginStates.map fun state =>
      { state with properties := state.properties.map change }
    screens := style.screens.map fun block =>
      { block with properties := block.properties.map change }
    containers := style.containers.map fun block =>
      { block with properties := block.properties.map change }
    pluginContainers := style.pluginContainers.map (OrderedMap.map change)
    elements := style.elements.map (OrderedMap.map change) }

theorem changeValues_eq {change : Text → Except Error Text} {pure : Text → Text} {style : Style}
    (succeeds : ∀ {name value}, style.Sets name value → change value = .ok (pure value)) :
    style.changeValues change = { state := style.mapValues pure } := by
  have ofProperties : ∀ {properties : Properties},
      (∀ {name value}, (name, value) ∈ properties.entries → style.Sets name value) →
      properties.changeValues change = { state := properties.map pure } :=
    fun sets => Properties.changeValues_eq fun _ isEntry => succeeds (sets isEntry)
  have base : style.base.changeValues change = { state := style.base.map pure } :=
    ofProperties .base
  have states : Attempt.mapValues (Properties.changeValues change) style.states =
      { state := style.states.map (OrderedMap.map pure) } :=
    Attempt.mapValues_eq fun _ isBlock => ofProperties (.state isBlock)
  have pluginContainers :
      Attempt.mapValues (Properties.changeValues change) style.pluginContainers =
        { state := style.pluginContainers.map (OrderedMap.map pure) } :=
    Attempt.mapValues_eq fun _ isBlock => ofProperties (.pluginContainer isBlock)
  have elements : Attempt.mapValues (Properties.changeValues change) style.elements =
      { state := style.elements.map (OrderedMap.map pure) } :=
    Attempt.mapValues_eq fun _ isBlock => ofProperties (.element isBlock)
  simp only [changeValues, mapValues, base, states, Attempt.map, Attempt.andThen]
  rw [Attempt.mapValues_eq fun state isState => by rw [ofProperties (.pluginState isState)]]
  simp only
  rw [Attempt.mapList_eq fun block isBlock => by rw [ofProperties (.screen isBlock)]]
  simp only
  rw [Attempt.mapList_eq fun block isBlock => by rw [ofProperties (.container isBlock)]]
  simp only [pluginContainers, elements]

end Style

/-! ## The first pass: runtime variables -/

/-- What a reference becomes when the runtime variables of a class are named. -/
def Reference.nameRuntime (display : Text) : Reference → Text
  | .runtime name block => Naming.use (Naming.runtime name display block)
  | reference => reference.render

/-- What a reference becomes in the end. -/
def Reference.final (display : Text) : Reference → Text
  | .runtime name block => Naming.use (Naming.runtime name display block)
  | .localVariable name => Naming.use (Naming.localVariable name display)
  | .scope name => (Reference.scope name).render

theorem Reference.Within.rewrite_eq_self {allowed : Reference → Prop} {write : Reference → Text}
    {text : Text} (within : Within allowed text)
    (kept : ∀ reference, allowed reference → write reference = reference.render) :
    Reference.rewrite write text = text := by
  apply Reference.rewrite_eq_self
  intro reference isFound
  exact kept reference (within.mem_all isFound).1

namespace Style

variable {style : Style}

theorem mapValues_congr {first second : Text → Text}
    (same : ∀ {name value}, style.Sets name value → first value = second value) :
    style.mapValues first = style.mapValues second := by
  have ofProperties : ∀ {properties : Properties},
      (∀ {name value}, (name, value) ∈ properties.entries → style.Sets name value) →
      properties.map first = properties.map second := by
    intro properties sets
    apply OrderedMap.map_congr
    intro value isValue
    obtain ⟨entry, isEntry, rfl⟩ := List.mem_map.mp isValue
    exact same (sets isEntry)
  apply Style.ext
  case base => exact ofProperties .base
  case states => exact OrderedMap.map_congr fun _ isBlock => ofProperties (.state isBlock)
  case pluginStates =>
    simp only [mapValues]
    apply OrderedMap.map_congr
    intro state isState
    rw [ofProperties (.pluginState isState)]
  case screens =>
    apply List.map_congr_left
    intro block isBlock
    rw [ofProperties (.screen isBlock)]
  case containers =>
    apply List.map_congr_left
    intro block isBlock
    rw [ofProperties (.container isBlock)]
  case pluginContainers =>
    exact OrderedMap.map_congr fun _ isBlock => ofProperties (.pluginContainer isBlock)
  case elements => exact OrderedMap.map_congr fun _ isBlock => ofProperties (.element isBlock)
  all_goals rfl

theorem mapValues_id (style : Style) : style.mapValues id = style := by
  have ofBlocks : ∀ blocks : Blocks, blocks.map (OrderedMap.map id) = blocks :=
    fun blocks => OrderedMap.map_eq_self fun properties _ => properties.map_id
  apply Style.ext
  case pluginStates =>
    simp only [mapValues]
    apply OrderedMap.map_eq_self
    intro state _
    rw [OrderedMap.map_id]
  all_goals simp [mapValues, OrderedMap.map_id, ofBlocks]

/-- The style with its runtime variables named: the defaults are declared for the root element. -/
def named (display : Text) (style : Style) : Style :=
  { style.mapValues (rewrite (Reference.nameRuntime display)) with
    rootVariables := style.pending.declarations display
    pending := style.pending.drained }

/-- Naming the runtime variables of a sound style is refused for want of a scope only. Otherwise
every default is declared for the root element, and every reference names its declaration. -/
theorem nameVariables_of_sound (sound : style.Sound) (display scope : Text) :
    style.nameVariables display scope =
      if scope = Naming.noScope ∧ (style.hasRuntime || !style.pending.isEmpty) then
        { state := style, failure := some (Cause.runtimeWithoutScope display : Cause) }
      else { state := style.named display } := by
  simp only [nameVariables, named, sound.rootVariables, OrderedMap.empty_merge]
  split
  · rfl
  · split
    · next noVariable =>
      -- Without a runtime variable there is no reference to one, and no value changes.
      have kept : style.mapValues (rewrite (Reference.nameRuntime display)) = style := by
        refine Eq.trans (mapValues_congr ?_) style.mapValues_id
        intro name value sets
        apply (sound.values sets).2.rewrite_eq_self
        intro reference covers
        cases reference with
        | runtime name block =>
            simp [Covers, Pending.isEmpty_iff_not_declares.mp noVariable] at covers
        | localVariable name => rfl
        | scope name => rfl
      rw [kept]
    · apply changeValues_eq
      intro name value sets
      have declared : style.Sets name value := sets.of_places rfl rfl rfl rfl rfl rfl rfl
      apply (sound.values declared).2.replaceItemsM_eq
      intro reference covers _
      cases reference with
      | runtime name block => exact if_pos covers
      | localVariable name => rfl
      | scope name => rfl

end Style

/-! ## The second pass: local variables -/

/-- The rule with every value changed. -/
def Rule.mapValues (change : Text → Text) (rule : Rule) : Rule :=
  { rule with declarations := rule.declarations.map change }

namespace Style

variable {style : Style}

theorem writtenRules_mapValues (change : Text → Text) (selector : Text) (own : Properties) :
    (style.mapValues change).writtenRules selector (own.map change) =
      (style.writtenRules selector own).map (Rule.mapValues change) := by
  have ofPlaces : (style.mapValues change).placeRules selector (own.map change) =
      (style.placeRules selector own).map (Rule.mapValues change) := by
    simp [placeRules, mapValues, Rule.mapValues, Function.comp_def]
  have sameEmptiness : ∀ rule : Rule,
      (!(rule.mapValues change).declarations.isEmpty) = !rule.declarations.isEmpty := by
    intro rule
    rw [Rule.mapValues, OrderedMap.isEmpty_map]
  rw [writtenRules, ofPlaces, List.filter_map, writtenRules]
  congr 2
  exact funext sameEmptiness

theorem unmarked_join {left separator right : Text} (unmarkedLeft : Unmarked left)
    (unmarkedSeparator : Unmarked separator) (unmarkedRight : Unmarked right) :
    Unmarked (left ++ separator ++ right) := by
  simp [unmarkedLeft, unmarkedSeparator, unmarkedRight]

/-- The selectors that are made of the given one and a label of the style. -/
inductive Selects (style : Style) (selector : Text) : Text → Prop where
  | own : Selects style selector selector
  | label {mark label : Text} (isMark : mark ∈ [(":" : Text), ".", "::"])
      (isLabel : label ∈ style.labels) : Selects style selector (selector ++ mark ++ label)
  | inside {label : Text} (isContainer : label ∈ style.pluginContainers.keys) :
      Selects style selector ("." ++ label ++ " " ++ selector)

/-- Every rule of a selector is that of its own properties or of a place of the style. -/
theorem mem_writtenRules {selector : Text} {own : Properties} {rule : Rule}
    (isRule : rule ∈ style.writtenRules selector own) :
    (∀ {name value}, (name, value) ∈ rule.declarations.entries →
      (name, value) ∈ own.entries ∨ style.Sets name value) ∧
    style.Selects selector rule.selector := by
  have isPlace := List.mem_of_mem_filter isRule
  simp only [placeRules, List.mem_append, List.mem_singleton, List.mem_map, Prod.exists] at isPlace
  have isValue : ∀ {α : Type} {source : OrderedMap Text α} {name : Text} {value : α},
      (name, value) ∈ source.entries → value ∈ source.values :=
    fun isEntry => List.mem_map_of_mem isEntry
  rcases isPlace with (((((rfl | ⟨name, properties, isBlock, rfl⟩) | ⟨name, state, isState, rfl⟩) |
    ⟨block, isBlock, rfl⟩) | ⟨block, isBlock, rfl⟩) | ⟨name, properties, isBlock, rfl⟩) |
    ⟨name, properties, isBlock, rfl⟩
  · exact ⟨Or.inl, .own⟩
  · exact ⟨fun isEntry => Or.inr (.state (isValue isBlock) isEntry),
      .label (by simp) (by simp [labels, OrderedMap.mem_keys_of_mem isBlock])⟩
  · have isLabel : state.selector ∈ style.labels := by
      simp only [labels, List.mem_append, List.mem_map]
      exact Or.inl (Or.inl (Or.inr ⟨state, isValue isState, rfl⟩))
    exact ⟨fun isEntry => Or.inr (.pluginState (isValue isState) isEntry),
      .label (by simp) isLabel⟩
  · exact ⟨fun isEntry => Or.inr (.screen isBlock isEntry), .own⟩
  · exact ⟨fun isEntry => Or.inr (.container isBlock isEntry), .own⟩
  · exact ⟨fun isEntry => Or.inr (.pluginContainer (isValue isBlock) isEntry),
      .inside (OrderedMap.mem_keys_of_mem isBlock)⟩
  · exact ⟨fun isEntry => Or.inr (.element (isValue isBlock) isEntry),
      .label (by simp) (by simp [labels, OrderedMap.mem_keys_of_mem isBlock])⟩

theorem Selects.unmarked {selector framed : Text} (selects : style.Selects selector framed)
    (unmarked : Unmarked selector) (unmarkedLabels : ∀ label ∈ style.labels, Unmarked label) :
    Unmarked framed := by
  cases selects with
  | own => exact unmarked
  | label isMark isLabel =>
      have ofMarks : ∀ mark ∈ [(":" : Text), ".", "::"], Unmarked mark := by decide
      exact unmarked_join unmarked (ofMarks _ isMark) (unmarkedLabels _ isLabel)
  | @inside label isContainer =>
      have isLabel : label ∈ style.labels := by simp [labels, isContainer]
      have ofContainer := Text.madeOf_append.mpr
        ⟨(by decide : Unmarked ("." : Text)), unmarkedLabels _ isLabel⟩
      exact unmarked_join ofContainer (by decide) unmarked

/-- The local variables and own properties of a sound style refer to nothing that it does not
cover. -/
theorem Sound.ownProperties (sound : style.Sound) {display : Text} {entry : Text × Text}
    (isEntry : entry ∈ (style.ownProperties display).entries) :
    (Unmarked display → Unmarked entry.1) ∧ Within style.Covers entry.2 := by
  rcases OrderedMap.mem_entries_merge isEntry with isLocal | isBase
  · obtain ⟨⟨name, value⟩, isDeclared, rfl⟩ :=
      List.mem_map.mp (OrderedMap.mem_entries_ofList isLocal)
    obtain ⟨unmarked, within⟩ := sound.locals _ isDeclared
    constructor
    · intro unmarkedDisplay
      have ofName : Unmarked ("--" ++ name) := Text.madeOf_append.mpr ⟨by decide, unmarked⟩
      exact unmarked_join ofName (by decide) unmarkedDisplay
    · apply within.mono
      intro reference isLocal
      obtain ⟨name, isUsed, rfl⟩ := isLocal.exists_eq
      exact isUsed
  · obtain ⟨unmarked, within⟩ := sound.values (.base isBase)
    exact ⟨fun _ => unmarked, within⟩

theorem Sound.within_of_mem_writtenRules (sound : style.Sound) {display selector : Text}
    {rule : Rule} (isRule : rule ∈ style.writtenRules selector (style.ownProperties display))
    {value : Text} (isValue : value ∈ rule.declarations.values) : Within style.Covers value := by
  obtain ⟨⟨name, value⟩, isEntry, rfl⟩ := List.mem_map.mp isValue
  rcases (mem_writtenRules isRule).1 isEntry with isOwn | sets
  · exact (sound.ownProperties isOwn).2
  · exact (sound.values sets).2

/-- Rewriting references, but none to a local variable, changes the own properties of a style value
by value. -/
theorem Sound.ownProperties_mapValues (sound : style.Sound) (write : Reference → Text)
    (kept : ∀ name, write (.localVariable name) = (Reference.localVariable name).render)
    (display : Text) :
    (style.mapValues (rewrite write)).ownProperties display =
      (style.ownProperties display).map (rewrite write) := by
  simp only [Style.ownProperties, mapValues, OrderedMap.map_merge]
  congr 1
  symm
  apply OrderedMap.map_eq_self
  intro value isValue
  obtain ⟨entry, isEntry, rfl⟩ := List.mem_map.mp isValue
  obtain ⟨⟨name, value⟩, isDeclared, rfl⟩ := List.mem_map.mp (OrderedMap.mem_entries_ofList isEntry)
  apply (sound.locals _ isDeclared).2.rewrite_eq_self
  intro reference isLocal
  obtain ⟨name, _, rfl⟩ := isLocal.exists_eq
  exact kept name

end Style

namespace Naming

theorem unmarked_use {property : Text} (unmarked : Unmarked property) : Unmarked (use property) :=
  Style.unmarked_join (by decide) unmarked (by decide)

theorem madeOf_final {Good : CodePoint → Prop} (underscore : Text.MadeOf Good "_")
    {scope name : Text} (ofScope : Text.MadeOf Good scope) (ofName : Text.MadeOf Good name) :
    Text.MadeOf Good (final scope name) := by
  unfold final
  split
  · exact ofName
  · simp [underscore, ofScope, ofName]

theorem unmarked_runtime {name display block : Text} (unmarkedName : Unmarked name)
    (unmarkedDisplay : Unmarked display) (unmarkedBlock : Unmarked block) :
    Unmarked (runtime name display block) := by
  have hyphens : Unmarked ("--" : Text) ∧ Unmarked ("-" : Text) := by decide
  unfold runtime
  split <;> simp [hyphens, unmarkedName, unmarkedDisplay, unmarkedBlock]

theorem unmarked_localVariable {name display : Text} (unmarkedName : Unmarked name)
    (unmarkedDisplay : Unmarked display) : Unmarked (localVariable name display) := by
  have hyphens : Unmarked ("--" : Text) ∧ Unmarked ("-" : Text) := by decide
  simp [localVariable, hyphens, unmarkedName, unmarkedDisplay]

end Naming

namespace Rule

variable {Good : CodePoint → Prop}

theorem madeOf_renderDeclarations (separators : Text.MadeOf Good ":" ∧ Text.MadeOf Good ";")
    {declarations : Properties} (madeOf : ∀ entry ∈ declarations.entries,
      Text.MadeOf Good entry.1 ∧ Text.MadeOf Good entry.2) :
    Text.MadeOf Good (renderDeclarations declarations) := by
  apply Text.MadeOf.flatMap
  intro entry isEntry
  simp [madeOf entry isEntry, separators]

theorem madeOf_enclose (braces : Text.MadeOf Good "\x7b" ∧ Text.MadeOf Good "\x7d")
    {head body : Text} (ofHead : Text.MadeOf Good head) (ofBody : Text.MadeOf Good body) :
    Text.MadeOf Good (enclose head body) := by
  simp [enclose, braces, ofHead, ofBody]

end Rule

namespace Reference

theorem unmarked_final {display : Text} (unmarkedDisplay : Unmarked display) {reference : Reference}
    (wellNamed : reference.WellNamed) (notScope : ∀ name, reference ≠ .scope name) :
    Unmarked (reference.final display) := by
  cases reference with
  | runtime name block =>
      exact Naming.unmarked_use (Naming.unmarked_runtime (unmarked_of_isNameChar wellNamed.1.2)
        unmarkedDisplay (unmarked_of_isNameChar wellNamed.2))
  | localVariable name =>
      exact Naming.unmarked_use (Naming.unmarked_localVariable (unmarked_of_isNameChar wellNamed.2)
        unmarkedDisplay)
  | scope name => exact absurd rfl (notScope name)

/-- The two passes together write every reference in its final form. -/
theorem Within.resolveLocal_nameRuntime {allowed : Reference → Prop} {display value : Text}
    (unmarkedDisplay : Unmarked display) (within : Within allowed value) :
    resolveLocal (fun name => Naming.use (Naming.localVariable name display))
        (Reference.rewrite (nameRuntime display) value) =
      Reference.rewrite (final display) value := by
  have writes : ∀ reference, allowed reference → reference.WellNamed →
      Within (fun _ => True) (nameRuntime display reference) := by
    intro reference _ wellNamed
    cases reference with
    | runtime name block =>
        exact of_unmarked (unmarked_final unmarkedDisplay wellNamed (by simp))
    | localVariable name => exact of_render wellNamed trivial
    | scope name => exact of_render wellNamed trivial
  refine (within.rewrite_rewrite writes).trans (within.rewrite_congr ?_)
  intro reference _ wellNamed
  cases reference with
  | runtime name block =>
      exact rewrite_of_unmarked (unmarked_final unmarkedDisplay wellNamed (by simp))
  | localVariable name => exact rewrite_render wellNamed
  | scope name => exact rewrite_render wellNamed

end Reference

namespace Style

variable {style : Style}

/-- The rules of a class with its runtime variables named are its rules as they are written, with
every reference in its final form. -/
theorem rules_named (sound : style.Sound) {display : Text} (unmarkedDisplay : Unmarked display)
    (selector : Text) :
    (style.named display).rules display selector ((style.named display).ownProperties display) =
      (style.writtenRules selector (style.ownProperties display)).map
        (Rule.mapValues (rewrite (Reference.final display))) := by
  have isOwn : (style.named display).ownProperties display =
      (style.ownProperties display).map (rewrite (Reference.nameRuntime display)) :=
    sound.ownProperties_mapValues (Reference.nameRuntime display) (fun _ => rfl) display
  rw [rules, isOwn]
  have samePlaces : (style.named display).writtenRules selector
        ((style.ownProperties display).map (rewrite (Reference.nameRuntime display))) =
      (style.mapValues (rewrite (Reference.nameRuntime display))).writtenRules selector
        ((style.ownProperties display).map (rewrite (Reference.nameRuntime display))) := rfl
  rw [samePlaces, writtenRules_mapValues, List.map_map]
  apply List.map_congr_left
  intro rule isRule
  simp only [Function.comp_apply, Rule.mapValues, resolveLocals, OrderedMap.map_map]
  congr 1
  apply OrderedMap.map_congr
  intro value isValue
  exact (sound.within_of_mem_writtenRules isRule isValue).resolveLocal_nameRuntime unmarkedDisplay

end Style

end TerseStyle

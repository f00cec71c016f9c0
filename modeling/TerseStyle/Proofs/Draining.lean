import TerseStyle.Proofs.Closure
import TerseStyle.Proofs.VariableName

/-!
# Naming the variables of a style

Naming moves every pending runtime variable of a style to the root element and leaves none behind
(`Style.nameVariables_drains`). No two variables of the style get one name, whatever the display
name is: if two names were equal, turning the display name round would make a part of an
abbreviation behind a hyphen into the beginning of the name of a block, and the vocabulary has no
two such words with the same letters (`Naming.runtime_eq_iff_of_vocabulary`).
-/

namespace TerseStyle

/-! ## Names of variables -/

namespace Slot

/-- The names that blocks have in references to their variables. -/
def blockNames : List Text :=
  Vocabulary.pseudoClasses ++ Vocabulary.pseudoElements ++
    (Vocabulary.pluginStates.flatMap fun plugin =>
      plugin.2.map fun state => plugin.1 ++ "-" ++ state.1) ++
    Vocabulary.pluginContainers.map Prod.snd

theorem mem_blockNames_of_ofHead? {head : Text} {slot : Slot} (isSlot : ofHead? head = some slot) :
    slot.target.block ∈ blockNames := by
  simp only [blockNames, List.mem_append, List.mem_flatMap, List.mem_map]
  unfold ofHead? at isSlot
  split at isSlot
  · next isState =>
    cases isSlot
    exact Or.inl (Or.inl (Or.inl isState))
  · split at isSlot
    · next isElement =>
      cases isSlot
      exact Or.inl (Or.inl (Or.inr isElement))
    · split at isSlot
      · next selector found =>
        cases isSlot
        unfold Vocabulary.pluginStateSelector? at found
        split at found
        · simp at found
        · next plugin state splits =>
          obtain ⟨states, isPlugin, isState⟩ := Option.bind_eq_some_iff.mp found
          refine Or.inl (Or.inr ⟨_, Vocabulary.mem_of_lookup isPlugin, _,
            Vocabulary.mem_of_lookup isState, ?_⟩)
          rw [List.append_assoc]
          exact (Text.splitAtChar?_eq_some splits).symm
      · obtain ⟨containerClass, found, rfl⟩ := Option.map_eq_some_iff.mp isSlot
        exact Or.inr ⟨_, Vocabulary.mem_of_lookup found, rfl⟩

end Slot

namespace Vocabulary

/-- The parts of a name behind its hyphens. -/
def afterHyphens (name : Text) : List Text :=
  (name.tails.filter fun tail => tail.head? == some (.char '-')).map List.tail

/-- The parts of a name in front of its hyphens, and the name itself. -/
def beforeHyphens (name : Text) : List Text :=
  name.inits.filter fun front => (name.drop front.length).head?.all (· == .char '-')

/-- A number that does not depend on the order of the letters. -/
def weight (name : Text) : Nat :=
  (name.map fun c => c.toNat * c.toNat).sum

theorem weight_eq_of_perm {first second : Text} (perm : first.Perm second) :
    weight first = weight second :=
  (perm.map _).sum_eq

/-- No part of an abbreviation behind a hyphen has the letters of the beginning of a block. -/
theorem not_perm_of_mem_afterHyphens {row : Text × List Text} {block tail front : Text}
    (isRow : row ∈ Abbreviation.table) (isTail : tail ∈ afterHyphens row.1)
    (isBlock : block ∈ Slot.blockNames) (isFront : front ∈ beforeHyphens block) :
    ¬front.Perm tail := by
  have different : ∀ ofTail ∈ Abbreviation.table.flatMap fun row => (afterHyphens row.1).map weight,
      ofTail ∉ Slot.blockNames.flatMap fun block => (beforeHyphens block).map weight := by
    unfold Slot.blockNames pseudoClasses pseudoElements pluginStates pluginContainers
    repeat rw [Text.ofString_ofList]
    decide +kernel
  intro perm
  refine different (weight tail) ?_ ?_
  · exact List.mem_flatMap.mpr ⟨row, isRow, List.mem_map_of_mem isTail⟩
  · rw [← weight_eq_of_perm perm]
    exact List.mem_flatMap.mpr ⟨block, isBlock, List.mem_map_of_mem isFront⟩

end Vocabulary

namespace Naming

/-- What the block adds to the name of a variable. -/
def ending (block : Text) : Text :=
  if block.isEmpty then [] else .char '-' :: block

theorem runtime_eq_append_ending (abbreviation display block : Text) :
    runtime abbreviation display block =
      ("--" : Text) ++ (abbreviation ++ .char '-' :: (display ++ ending block)) := by
  have hyphen : ("-" : Text) = [.char '-'] := rfl
  simp only [runtime, ending, hyphen]
  split <;> simp

/-- If a text stands at both ends of another, what remains has the same letters. -/
theorem exists_perm_of_append_eq {display tail first second : Text}
    (same : display ++ first = tail ++ (display ++ second)) :
    ∃ turned, first = turned ++ second ∧ turned.Perm tail := by
  rw [← List.append_assoc] at same
  rcases List.append_eq_append_iff.mp same with
    ⟨turned, isTurned, isFirst⟩ | ⟨rest, isDisplay, isRest⟩
  · refine ⟨turned, isFirst, ?_⟩
    rw [← List.perm_append_left_iff display, ← isTurned]
    exact List.perm_append_comm
  · have lengths := congrArg List.length isDisplay
    simp only [List.length_append] at lengths
    have noTail : tail = [] := List.eq_nil_of_length_eq_zero (by omega)
    have noRest : rest = [] := List.eq_nil_of_length_eq_zero (by omega)
    refine ⟨[], ?_, ?_⟩
    · rw [isRest, noRest, List.nil_append, List.nil_append]
    · rw [noTail]

theorem runtime_ne {display first rest left right : Text} (nonempty : rest ≠ [])
    (isAbbreviation : (Abbreviation.expand? (first ++ rest)).isSome)
    (isBlock : left = [] ∨ left ∈ Slot.blockNames) :
    runtime first display left ≠ runtime (first ++ rest) display right := by
  intro same
  rw [runtime_eq_append_ending, runtime_eq_append_ending, List.append_cancel_left_eq,
    List.append_assoc, List.append_cancel_left_eq] at same
  cases rest with
  | nil => exact nonempty rfl
  | cons c tail =>
      rw [List.cons_append, List.cons.injEq, List.append_cons] at same
      obtain ⟨isHyphen, same⟩ := same
      obtain ⟨turned, isEnding, perm⟩ := exists_perm_of_append_eq same
      -- Both the end of the name and the part behind the hyphen are a hyphen and further letters.
      obtain ⟨front, hasBlock, isFront, samePerm⟩ :
          ∃ front, left ≠ [] ∧ left = front ++ ending right ∧ front.Perm tail := by
        cases turned with
        | nil => exact absurd perm.length_eq (by simp)
        | cons d front =>
            cases left with
            | nil => simp [ending] at isEnding
            | cons letter letters =>
                simp only [ending, List.isEmpty_cons, Bool.false_eq_true, if_false,
                  List.cons_append, List.cons.injEq] at isEnding
                rw [← isEnding.1] at perm
                refine ⟨front, by simp, isEnding.2, ?_⟩
                exact (List.perm_cons _).mp (perm.trans (List.perm_append_singleton _ _))
      have isTail : tail ∈ Vocabulary.afterHyphens (first ++ c :: tail) := by
        refine List.mem_map.mpr ⟨c :: tail, List.mem_filter.mpr ⟨?_, by simp [← isHyphen]⟩, rfl⟩
        exact (List.mem_tails _ _).mpr (List.suffix_append _ _)
      have inBlock : front ∈ Vocabulary.beforeHyphens left := by
        refine List.mem_filter.mpr ⟨?_, ?_⟩
        · exact (List.mem_inits _ _).mpr ⟨ending right, isFront.symm⟩
        · rw [isFront, List.drop_left, ending]
          split <;> simp
      obtain ⟨properties, expands⟩ := Option.isSome_iff_exists.mp isAbbreviation
      exact Vocabulary.not_perm_of_mem_afterHyphens (Abbreviation.mem_table_of_expand? expands)
        isTail (isBlock.resolve_left hasBlock) inBlock samePerm

/-- Abbreviation and block can be read off the name of a variable, whatever the display name is. -/
theorem runtime_eq_iff_of_vocabulary {display first second left right : Text}
    (isFirst : (Abbreviation.expand? first).isSome)
    (isSecond : (Abbreviation.expand? second).isSome)
    (isLeft : left = [] ∨ left ∈ Slot.blockNames) (isRight : right = [] ∨ right ∈ Slot.blockNames) :
    runtime first display left = runtime second display right ↔ first = second ∧ left = right := by
  have sameEnding : ending left = ending right ↔ left = right := by
    cases left <;> cases right <;> simp [ending]
  constructor
  · intro same
    -- If one abbreviation goes on where the other ends, the names differ whatever the blocks are.
    have sameRest := same
    rw [runtime_eq_append_ending, runtime_eq_append_ending, List.append_cancel_left_eq] at sameRest
    have isSame : first = second := by
      apply eq_of_append_eq sameRest
      · rintro rest rfl
        by_contra longer
        exact runtime_ne longer isSecond isLeft same
      · rintro rest rfl
        by_contra longer
        exact runtime_ne longer isFirst isRight same.symm
    subst isSame
    simpa [sameEnding] using sameRest
  · rintro ⟨rfl, rfl⟩
    rfl

end Naming

/-! ## Pending variables -/

namespace Pending

/-- The names of the blocks tell them apart. -/
theorem Known.nodup_blocks {pending : Pending} (known : pending.Known) :
    (pending.blocks.map Prod.fst).Nodup := by
  have isNames : pending.blocks.map Prod.fst =
      [] :: (pending.states.keys ++ (pending.elements.keys ++ pending.containers.keys)) := by
    simp [blocks, OrderedMap.keys]
  -- Two blocks of one name would be one place.
  have ofState : ∀ {name : Text} {place : Place}, name ∈ pending.states.keys → place.Known →
      place.block = name → place = .state name ∨ place = .pluginState name := by
    intro name place isState isKnown same
    exact (known.states name isState).imp (isKnown.eq_of_block_eq · same)
      (isKnown.eq_of_block_eq · same)
  have ofElement : ∀ {name : Text} {place : Place}, name ∈ pending.elements.keys → place.Known →
      place.block = name → place = .element name := fun isElement isKnown same =>
    isKnown.eq_of_block_eq (known.elements _ isElement) same
  have ofContainer : ∀ {name : Text} {place : Place}, name ∈ pending.containers.keys →
      place.Known → place.block = name → place = .pluginContainer name :=
    fun isContainer isKnown same => isKnown.eq_of_block_eq (known.containers _ isContainer) same
  rw [isNames, List.nodup_cons, List.nodup_append, List.nodup_append]
  refine ⟨?_, pending.states.distinct,
    ⟨pending.elements.distinct, pending.containers.distinct, ?_⟩, ?_⟩
  · simp only [List.mem_append]
    rintro (isState | isElement | isContainer)
    · simpa using ofState isState Place.known_base rfl
    · simpa using ofElement isElement Place.known_base rfl
    · simpa using ofContainer isContainer Place.known_base rfl
  · rintro name isElement _ isContainer rfl
    simpa using ofContainer isContainer (known.elements name isElement) rfl
  · rintro name isState _ isOther rfl
    rcases List.mem_append.mp isOther with isElement | isContainer
    · simpa using ofState isState (known.elements name isElement) rfl
    · simpa using ofState isState (known.containers name isContainer) rfl

theorem Known.nodup_defaults {pending : Pending} (known : pending.Known) :
    (pending.defaults.map fun entry => (entry.1, entry.2.1)).Nodup := by
  have isPairs : pending.defaults.map (fun entry => (entry.1, entry.2.1)) =
      pending.blocks.flatMap fun block => block.2.keys.map fun name => (block.1, name) := by
    simp [defaults, List.map_flatMap, OrderedMap.keys, Function.comp_def]
  rw [isPairs, List.nodup_flatMap]
  refine ⟨fun block _ => block.2.distinct.map fun _ _ same => (Prod.mk.inj same).2, ?_⟩
  apply (List.pairwise_map.mp known.nodup_blocks).imp
  intro first second different
  rw [Function.onFun, List.disjoint_left]
  intro pair inFirst inSecond
  obtain ⟨_, _, rfl⟩ := List.mem_map.mp inFirst
  obtain ⟨_, _, same⟩ := List.mem_map.mp inSecond
  exact different (Prod.mk.inj same).1.symm

end Pending

/-! ## Styles whose variables wait for their names -/

namespace Style

/-- The pending variables of the style are of the vocabulary, and the style has noted that there are
some. -/
structure Waiting (style : Style) : Prop where
  sound : style.Sound
  known : style.pending.Known
  vocabulary : ∀ {block name default}, (block, name, default) ∈ style.pending.defaults →
    (Abbreviation.expand? name).isSome ∧ (block = [] ∨ block ∈ Slot.blockNames)
  hasRuntime : style.hasRuntime = !style.pending.isEmpty

theorem Waiting.append {left right : Style} (ofLeft : left.Waiting) (ofRight : right.Waiting) :
    (left ++ right).Waiting where
  sound := ofLeft.sound.append ofRight.sound
  known := ofLeft.known.append ofRight.known
  vocabulary := by
    intro block name default isDefault
    exact (Pending.mem_defaults_append isDefault).elim ofLeft.vocabulary ofRight.vocabulary
  hasRuntime := by
    rw [hasRuntime_append, pending_append, Pending.isEmpty_append, ofLeft.hasRuntime,
      ofRight.hasRuntime, Bool.not_and]

theorem waiting_of_noPending {style : Style} (sound : style.Sound) (noPending : style.pending = {})
    (noRuntime : style.hasRuntime = false) : style.Waiting where
  sound := sound
  known := by
    rw [noPending]
    exact ⟨by simp, by simp, by simp⟩
  vocabulary := by
    intro block name default isDefault
    rw [noPending, Pending.isEmpty_iff_defaults.mp rfl] at isDefault
    exact absurd isDefault List.not_mem_nil
  hasRuntime := by
    rw [noRuntime, noPending]
    rfl

theorem waiting_of_putsAt {place : Place} {put : Body → Style} (puts : PutsAt place put)
    (isBlock : place.block = [] ∨ place.block ∈ Slot.blockNames) {body : Body}
    (areAbbreviations : ∀ name ∈ body.defaults.keys, (Abbreviation.expand? name).isSome)
    (sound : (put body).Sound) (hasRuntime : (put body).hasRuntime = !(put body).pending.isEmpty) :
    (put body).Waiting where
  sound := sound
  known := puts.pending body
  vocabulary := by
    intro block name default isDefault
    obtain ⟨other, isKnown, rfl, found⟩ :=
      (puts.pending body).exists_place_of_mem_defaults isDefault
    rw [puts.pendingAt body other isKnown] at found
    split at found
    · next isPlace =>
      rw [isPlace]
      refine ⟨areAbbreviations name ?_, isBlock⟩
      exact OrderedMap.get?_isSome_iff.mp (Option.isSome_iff_exists.mpr ⟨default, found⟩)
    · simp at found
  hasRuntime := hasRuntime

end Style

theorem Contributes.waiting {environment : Environment} (soundTheme : environment.theme.Sound)
    {isDeclared : Text → Bool} {contribution : Style}
    (contributes : Contributes environment (.topLevel isDeclared) contribution) :
    contribution.Waiting := by
  have sound := contributes.sound_topLevel soundTheme
  induction contributes with
  | nothing => exact Style.waiting_of_noPending sound rfl rfl
  | both ofFirst ofSecond first second =>
      exact (first (ofFirst.sound_topLevel soundTheme)).append
        (second (ofSecond.sound_topLevel soundTheme))
  | properties => exact Style.waiting_of_noPending sound rfl rfl
  | runtime _ _ expands =>
      exact Style.waiting_of_putsAt putsAt_ofBody (Or.inl rfl) (by simp [expands]) sound rfl
  | localVariable _ takesLocals =>
      cases takesLocals
      exact Style.waiting_of_noPending sound rfl rfl
  | @fragment _ _ fragment important _ isFragment =>
      cases important <;> exact Style.waiting_of_noPending sound rfl rfl

theorem Contribution.waiting {environment : Environment} {statement : Text} {contribution : Style}
    (contributes : Contribution environment statement contribution)
    (soundTheme : environment.theme.Sound) : contribution.Waiting := by
  have sound := contributes.sound soundTheme
  cases contributes with
  | flat _ contributes => exact contributes.waiting soundTheme
  | @slotted head slot body isSlot contributes =>
      have isBlock : slot.toPlace.block ∈ Slot.blockNames := by
        rw [Slot.block_toPlace]
        exact Slot.mem_blockNames_of_ofHead? isSlot
      have areAbbreviations : ∀ name ∈ body.defaults.keys, (Abbreviation.expand? name).isSome := by
        cases slot <;> exact contributes.expand?_of_mem_defaults
      apply Style.waiting_of_putsAt (Slot.putsAt_place isSlot) (Or.inr isBlock) areAbbreviations
        sound
      have noneOther : (∅ : Properties).isEmpty = true := rfl
      cases slot <;> simp [Slot.place, Pending.isEmpty, Pending.blocks, noneOther]
  | mentioned => exact Style.waiting_of_noPending sound rfl rfl
  | @conditional kind => cases kind <;> exact Style.waiting_of_noPending sound rfl rfl

/-- Before any variable is named, all variables wait for their names. -/
theorem Style.Reached.waiting {style : Style} (reached : style.Reached fun _ => False) :
    style.Waiting := by
  induction reached with
  | empty => exact waiting_of_noPending sound_empty rfl rfl
  | dispatch statement composed _ waiting =>
      exact waiting.append ((Environment.contribution_of_statement _).waiting composed.sound)
  | merge isFragment made _ waiting =>
      obtain ⟨sound, free, -⟩ := made.sound
      have soundShared := sound.shared (by rcases isFragment with rfl | rfl <;> exact free rfl rfl)
      exact waiting.append (waiting_of_noPending soundShared rfl rfl)
  | nameVariables _ admitted => exact admitted.elim

/-! ## Naming them -/

namespace Style

variable {style : Style}

/-- The custom properties of the pending variables with their defaults, in order. -/
def finalDefaults (display : Text) (style : Style) : List (Text × Text) :=
  style.pending.defaults.map fun entry => (Naming.runtime entry.2.1 display entry.1, entry.2.2)

theorem Waiting.nodup_finalDefaults (waiting : style.Waiting) (display : Text) :
    ((style.finalDefaults display).map Prod.fst).Nodup := by
  have isNames : (style.finalDefaults display).map Prod.fst =
      (style.pending.defaults.map fun entry => (entry.1, entry.2.1)).map
        fun entry => Naming.runtime entry.2 display entry.1 := by
    simp [finalDefaults, Function.comp_def]
  rw [isNames]
  apply List.Nodup.map_on _ waiting.known.nodup_defaults
  rintro ⟨left, first⟩ isLeft ⟨right, second⟩ isRight same
  obtain ⟨⟨_, _, _⟩, isFirst, sameFirst⟩ := List.mem_map.mp isLeft
  obtain ⟨⟨_, _, _⟩, isSecond, sameSecond⟩ := List.mem_map.mp isRight
  cases sameFirst
  cases sameSecond
  have ofFirst := waiting.vocabulary isFirst
  have ofSecond := waiting.vocabulary isSecond
  obtain ⟨rfl, rfl⟩ :=
    (Naming.runtime_eq_iff_of_vocabulary ofFirst.1 ofSecond.1 ofFirst.2 ofSecond.2).mp same
  rfl

theorem Waiting.entries_declarations (waiting : style.Waiting) (display : Text) :
    (style.pending.declarations display).entries = style.finalDefaults display :=
  OrderedMap.entries_ofList (waiting.nodup_finalDefaults display)

theorem nameVariables_of_isEmpty (noVariable : style.pending.isEmpty = true) {scope : Text}
    (hasScope : scope ≠ Naming.noScope ∨ style.hasRuntime = false) (display : Text) :
    style.nameVariables display scope = { state := style } := by
  have accepted :
      ¬(scope = Naming.noScope ∧ (style.hasRuntime || !style.pending.isEmpty) = true) := by
    rintro ⟨noScope, declared⟩
    rw [noVariable, Bool.not_true, Bool.or_false] at declared
    rcases hasScope with hasScope | noRuntime
    · exact hasScope noScope
    · rw [noRuntime] at declared
      exact absurd declared (by decide)
  have noDeclarations : style.pending.declarations display = ∅ := by
    rw [Pending.declarations, Pending.isEmpty_iff_defaults.mp noVariable]
    rfl
  rw [nameVariables, if_neg accepted, if_pos noVariable, noDeclarations,
    Pending.drained_of_isEmpty noVariable, OrderedMap.merge_empty]

/-- The style with its pending variables named: none is pending any more, the root element has each
of them with its default, in order and each under a name of its own, and the references to them name
them. Everything else is as before. -/
structure Drains (display : Text) (style named : Style) : Prop where
  empty : ∀ block ∈ named.pending.blocks, block.2 = ∅
  declared : named.rootVariables.entries =
    style.rootVariables.entries ++ style.finalDefaults display
  distinct : ((style.finalDefaults display).map Prod.fst).Nodup
  used : ∀ {name value}, style.Sets name value → ∀ found ∈ Reference.runtimeNames value,
    Naming.runtime found.1 display found.2 ∈ named.rootVariables.keys
  kept : named = { style.mapValues (Reference.rewrite (Reference.nameRuntime display)) with
    rootVariables := named.rootVariables
    pending := named.pending }

theorem Waiting.drains_named (waiting : style.Waiting) (display : Text) :
    style.Drains display (style.named display) where
  empty := by
    intro block isBlock
    have noVariable := style.pending.isEmpty_drained
    rw [Pending.isEmpty, List.all_eq_true] at noVariable
    exact OrderedMap.isEmpty_iff.mp (noVariable block isBlock)
  declared := by
    rw [waiting.sound.rootVariables]
    exact waiting.entries_declarations display
  distinct := waiting.nodup_finalDefaults display
  used := by
    intro name value sets found isFound
    have covers := (waiting.sound.values sets).2.woven.runtimeNames isFound
    exact Pending.mem_keys_declarations covers display
  kept := rfl

/-- Naming under a scope drains every style of which no variable was named before, and doing it
again changes nothing. Without a scope it is refused exactly if there is a variable. -/
theorem nameVariables_drains (reached : style.Reached fun _ => False) (display : Text) :
    (∀ scope, scope ≠ Naming.noScope → ∃ named,
      style.nameVariables display scope = { state := named } ∧
      style.Drains display named ∧
      ∀ other again, again ≠ Naming.noScope →
        named.nameVariables other again = { state := named }) ∧
    (style.nameVariables display Naming.noScope =
      if style.hasRuntime then
        { state := style, failure := some (Cause.runtimeWithoutScope display : Cause) }
      else { state := style }) ∧
    (style.hasRuntime = true ↔ style.pending.defaults ≠ []) := by
  have waiting := reached.waiting
  refine ⟨?_, ?_, ?_⟩
  · intro scope hasScope
    refine ⟨style.named display, ?_, waiting.drains_named display, ?_⟩
    · rw [nameVariables_of_sound waiting.sound, if_neg fun refused => hasScope refused.1]
    · intro other again hasScopeAgain
      exact nameVariables_of_isEmpty style.pending.isEmpty_drained (Or.inl hasScopeAgain) other
  · split
    · next isDeclared => rw [nameVariables, if_pos ⟨rfl, by rw [isDeclared, Bool.true_or]⟩]
    · next notDeclared =>
      rw [Bool.not_eq_true] at notDeclared
      have noVariable : style.pending.isEmpty = true := by
        simpa [notDeclared] using waiting.hasRuntime
      exact nameVariables_of_isEmpty noVariable (Or.inr notDeclared) display
  · rw [waiting.hasRuntime, Bool.not_eq_true', ← Bool.not_eq_true, Pending.isEmpty_iff_defaults]

set_option maxRecDepth 100000 in
/-- One abbreviation in the style itself and in blocks of three kinds, under a display name that
spells a reference. -/
theorem nameVariables_drains_blocks :
    let environment : Environment := { context := .rule }
    let constant := (∅ : Style).dispatch { context := .constant } "hover(p[1px])"
    let inState := (∅ : Style).dispatch environment "hover($bg[blue] $bg-s[2px])"
    let ofElement := (inState.state.dispatch environment "$bg[red]").state.merge constant.state
    let inElement := ofElement.dispatch environment "before($c[x])"
    let style := (inElement.state.dispatch environment "drawer-container($bg[y])").state
    let declared : List (Text × Text) :=
      [("--bg-s-⟦$:c:⟧", "red"), ("--bg-s-⟦$:c:⟧-hover", "blue"),
        ("--bg-s-s-⟦$:c:⟧-hover", "2px"), ("--c-s-⟦$:c:⟧-before", "x"),
        ("--bg-s-⟦$:c:⟧-drawerPluginContainer", "y")]
    style.Reached (fun _ => False) ∧ ∃ named,
      style.nameVariables "s-⟦$:c:⟧" "s" = { state := named } ∧
      style.Drains "s-⟦$:c:⟧" named ∧ named.rootVariables.entries = declared ∧
      named.nameVariables "t" "s" = { state := named } := by
  intro environment constant inState ofElement inElement style declared
  have composed : ({} : Theme).Composed := by
    intro group variant fragment isFragment
    simp [Theme.fragment?] at isFragment
  have isConstant : MadeIn .constant constant.state := .dispatch _ ∅ composed (.empty .constant)
  have reached : style.Reached fun _ => False :=
    .dispatch _ composed (.dispatch _ composed (.merge (Or.inl rfl) isConstant
      (.dispatch _ composed (.dispatch _ composed .empty))))
  obtain ⟨named, names, drains, again⟩ :=
    (nameVariables_drains reached "s-⟦$:c:⟧").1 "s" (by decide)
  have isDeclared : style.rootVariables.entries ++ style.finalDefaults "s-⟦$:c:⟧" = declared := by
    decide +kernel
  exact ⟨reached, named, names, drains, drains.declared.trans isDeclared, again "t" "s" (by decide)⟩

end Style

end TerseStyle

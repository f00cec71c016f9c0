import TerseStyle.Proofs.Query
import TerseStyle.Proofs.Sigil

/-!
# References in sessions

A style may be worked on in any order: statements are dispatched in any context, fragments are
merged, variables are named under some display name, and statements are dispatched again, whether
the steps before succeeded or failed. Throughout, every local variable that a value refers to is
noted as used, and every runtime variable that a value refers to belongs to the place where the
value stands and has a pending default there. The display names under which variables are named
must not spell such references themselves.
-/

namespace TerseStyle

namespace Reference

/-! ## Texts that spell anything -/

variable {reference : Reference} {write : Reference → Text} {text right : Text}

/-- No reference that starts before the text ends in it: a closing parenthesis comes before every
closing mark. -/
def Seals (text : Text) : Prop :=
  closing ∉ text.takeWhile (· ≠ CodePoint.char ')')

theorem seals_of_unmarked (unmarked : Unmarked text) : Seals text := by
  intro isClosing
  exact (unmarked _ ((List.takeWhile_sublist _).subset isClosing)).2 rfl

theorem parenthesis_notMem_render (wellNamed : reference.WellNamed) :
    CodePoint.char ')' ∉ reference.render := by
  intro isChar
  rcases mem_render wellNamed isChar with isName | isOther
  · exact absurd isName (by decide)
  · exact absurd isOther (by decide)

/-- The border before a sealing text is not crossed by a reference. -/
theorem pieces_append_of_seals (seals : Seals right) (left : Text) :
    Text.pieces recognise (left ++ right) =
      Text.pieces recognise left ++ Text.pieces recognise right := by
  induction left using text_induction with
  | nil => rfl
  | char c rest nothing ih =>
      have stillNothing : read? (c :: rest ++ right) = none := by
        rw [Option.eq_none_iff_forall_ne_some]
        intro found isRead
        obtain ⟨wellNamed, after, isAppend⟩ := read?_eq_some isRead
        rcases List.append_eq_append_iff.mp isAppend with
          ⟨middle, isRender, isRight⟩ | ⟨middle, isLeft, -⟩
        · -- The reference would end in the sealing text.
          cases middle using List.reverseRecOn with
          | nil =>
              rw [List.append_nil] at isRender
              rw [← isRender, ← List.append_nil found.render,
                read?_render_append wellNamed] at nothing
              simp at nothing
          | append_singleton middle last =>
              obtain ⟨before, isBefore⟩ := exists_render_eq_append_closing found
              have isLast : last = closing := by
                rw [isBefore, ← List.append_assoc] at isRender
                exact (List.append_inj' isRender rfl).2 |> List.singleton_inj.mp |>.symm
              apply seals
              rw [isRight, List.takeWhile_append_of_pos, isLast]
              · simp
              · intro c isChar
                have inRender : c ∈ found.render := by
                  rw [isRender]
                  exact List.mem_append_right _ isChar
                simp only [ne_eq, decide_not, Bool.not_eq_eq_eq_not, Bool.not_true,
                  decide_eq_false_iff_not]
                rintro rfl
                exact parenthesis_notMem_render wellNamed inRender
        · rw [isLeft, read?_render_append wellNamed] at nothing
          simp at nothing
      rw [List.cons_append] at stillNothing ⊢
      rw [pieces_cons_of_read? stillNothing, pieces_cons_of_read? nothing, ih,
        List.cons_append]
  | reference reference rest wellNamed ih =>
      rw [List.append_assoc, pieces_render_append wellNamed, pieces_render_append wellNamed,
        ih, List.cons_append]

theorem all_append_of_seals (seals : Seals right) (left : Text) :
    all (left ++ right) = all left ++ all right := by
  simp [all, Text.items, pieces_append_of_seals seals]

theorem rewrite_append_of_seals (seals : Seals right) (left : Text) :
    rewrite write (left ++ right) = rewrite write left ++ rewrite write right := by
  simp [rewrite, Text.replaceItems, pieces_append_of_seals seals]

/-! ## Values of a session -/

/-- No variable is referred to. -/
def NamesNoVariable (text : Text) : Prop :=
  runtimeNames text = [] ∧ localNames text = []

theorem NamesNoVariable.isScope (noVariable : NamesNoVariable text)
    (isFound : reference ∈ all text) : ∃ name, reference = .scope name := by
  cases reference with
  | runtime name block =>
      have notFound := List.filterMap_eq_nil_iff.mp noVariable.1 _ isFound
      simp at notFound
  | localVariable name =>
      have notFound := List.filterMap_eq_nil_iff.mp noVariable.2 _ isFound
      simp at notFound
  | scope name => exact ⟨name, rfl⟩

theorem namesNoVariable_of_all_eq {other : Text} (same : all text = all other)
    (noVariable : NamesNoVariable other) : NamesNoVariable text := by
  simp only [NamesNoVariable, runtimeNames, localNames, same] at noVariable ⊢
  exact noVariable

/-- Texts put together from unmarked characters, references of a set, and uses of variables that are
named already, where anything may be spelled but a reference to a variable. -/
inductive Woven (allowed : Reference → Prop) : Text → Prop where
  | nil : Woven allowed []
  | char {c : CodePoint} {rest : Text} (unreserved : c ≠ opening ∧ c ≠ closing)
      (onwards : Woven allowed rest) : Woven allowed (c :: rest)
  | reference {reference : Reference} {rest : Text} (wellNamed : reference.WellNamed)
      (isAllowed : allowed reference) (onwards : Woven allowed rest) :
      Woven allowed (reference.render ++ rest)
  | use {part rest : Text} (noVariable : NamesNoVariable part) (onwards : Woven allowed rest) :
      Woven allowed (part ++ .char ')' :: rest)

theorem Within.woven {allowed : Reference → Prop} (within : Within allowed text) :
    Woven allowed text := by
  induction within with
  | nil => exact .nil
  | char unreserved _ ih => exact .char unreserved ih
  | reference wellNamed isAllowed _ ih =>
      exact .reference wellNamed isAllowed ih

theorem seals_parenthesis (rest : Text) : Seals (.char ')' :: rest) := by
  simp [Seals]

namespace Woven

variable {allowed other : Reference → Prop} {text left right : Text} {write : Reference → Text}

theorem mono (woven : Woven allowed text)
    (weaker : ∀ reference, allowed reference → other reference) : Woven other text := by
  induction woven with
  | nil => exact nil
  | char unreserved _ ih => exact char unreserved ih
  | reference wellNamed isAllowed _ ih =>
      exact reference wellNamed (weaker _ isAllowed) ih
  | use noVariable _ ih => exact use noVariable ih

theorem append (woven : Woven allowed left) (wovenRight : Woven allowed right) :
    Woven allowed (left ++ right) := by
  induction woven with
  | nil => exact wovenRight
  | char unreserved _ ih => exact char unreserved ih
  | reference wellNamed isAllowed _ ih =>
      rw [List.append_assoc]
      exact reference wellNamed isAllowed ih
  | use noVariable _ ih =>
      rw [List.append_assoc]
      exact use noVariable ih

theorem all_use (part rest : Text) : all (part ++ .char ')' :: rest) = all part ++ all rest := by
  rw [all_append_of_seals (seals_parenthesis rest),
    all_cons_of_read? (read?_cons_of_ne (by decide) _)]

/-- Only references of the set are found, and references to classes. -/
theorem mem_all (woven : Woven allowed text) {found : Reference} (isFound : found ∈ all text) :
    allowed found ∨ ∃ name, found = .scope name := by
  induction woven with
  | nil => simp [all, Text.items] at isFound
  | char unreserved _ ih =>
      rw [all_cons_of_read? (read?_cons_of_ne unreserved.1 _)] at isFound
      exact ih isFound
  | reference wellNamed isAllowed _ ih =>
      rw [all_render_append wellNamed, List.mem_cons] at isFound
      rcases isFound with rfl | isLater
      · exact Or.inl isAllowed
      · exact ih isLater
  | use noVariable _ ih =>
      rw [all_use, List.mem_append] at isFound
      rcases isFound with inPart | isLater
      · exact Or.inr (noVariable.isScope inPart)
      · exact ih isLater

theorem rewrite_use {part : Text} (noVariable : NamesNoVariable part) (rest : Text)
    (keepsScopes : ∀ name, write (.scope name) = (scope name).render) :
    Reference.rewrite write (part ++ .char ')' :: rest) =
      part ++ .char ')' :: Reference.rewrite write rest := by
  have kept : Reference.rewrite write part = part := by
    apply rewrite_eq_self
    intro reference isFound
    obtain ⟨name, rfl⟩ := noVariable.isScope isFound
    exact keepsScopes name
  rw [rewrite_append_of_seals (seals_parenthesis rest), kept, rewrite_cons (by decide)]

/-- What the references of the set are rewritten to decides what the result is woven of. -/
theorem rewrite (woven : Woven allowed text)
    (keepsScopes : ∀ name, write (.scope name) = (scope name).render)
    (writes : ∀ reference, allowed reference → reference.WellNamed →
      Woven other (write reference)) :
    Woven other (Reference.rewrite write text) := by
  induction woven with
  | nil => exact nil
  | char unreserved _ ih =>
      rw [rewrite_cons unreserved.1]
      exact char unreserved ih
  | reference wellNamed isAllowed _ ih =>
      rw [rewrite_render_append wellNamed]
      exact append (writes _ isAllowed wellNamed) ih
  | use noVariable _ ih =>
      rw [rewrite_use noVariable _ keepsScopes]
      exact use noVariable ih

end Woven

/-- The use of a runtime variable spells a reference only if the display name does. -/
theorem woven_use_runtime {allowed : Reference → Prop} {name display block : Text}
    (unmarkedName : Unmarked name) (unmarkedBlock : Unmarked block)
    (noVariable : NamesNoVariable display) :
    Woven allowed (Naming.use (Naming.runtime name display block)) := by
  have unmarkedFront : Unmarked ("var(" ++ ("--" ++ name ++ "-") : Text) := by
    have ofOthers : Unmarked ("var(" : Text) ∧ Unmarked ("--" : Text) ∧ Unmarked ("-" : Text) := by
      decide
    simp [ofOthers, unmarkedName]
  have unmarkedBack : Unmarked ("-" ++ block : Text) := by
    simp only [Text.madeOf_append]
    exact ⟨by decide, unmarkedBlock⟩
  have spells : ∃ back, Unmarked back ∧
      ("var(" ++ Naming.runtime name display block : Text) =
        ("var(" ++ ("--" ++ name ++ "-")) ++ (display ++ back) := by
    unfold Naming.runtime
    split
    · exact ⟨[], Text.madeOf_nil, by simp⟩
    · exact ⟨"-" ++ block, unmarkedBack, by simp⟩
  obtain ⟨back, ofBack, isFront⟩ := spells
  have isUse : Naming.use (Naming.runtime name display block) =
      (("var(" : Text) ++ Naming.runtime name display block) ++ [CodePoint.char ')'] := rfl
  rw [isUse]
  refine .use (namesNoVariable_of_all_eq ?_ noVariable) .nil
  rw [isFront, all_of_unmarked_append unmarkedFront, all_append_of_seals (seals_of_unmarked ofBack),
    all_of_unmarked ofBack, List.append_nil]

end Reference

open Reference (Unmarked Within Woven NamesNoVariable rewrite)

/-! ## Closed styles -/

theorem Place.block_ofBlock (block : Text) : (Place.ofBlock block).block = block := by
  unfold ofBlock
  split
  · next isBase => exact isBase.symm
  · split
    · rfl
    · split
      · rfl
      · split <;> rfl

namespace Style

/-- Every reference to a variable in the values of a style is covered by the style: a local variable
is noted as used, and a runtime variable belongs to the place of the value and has a default there.
Under conditions there are no runtime variables. -/
structure Closed (style : Style) : Prop where
  locals : ∀ {name value}, style.Sets name value →
    ∀ used ∈ Reference.localNames name ++ Reference.localNames value, used ∈ style.usedLocals.keys
  localValues : ∀ entry ∈ style.localVariables.entries,
    ∀ used ∈ Reference.localNames entry.1 ++ Reference.localNames entry.2,
      used ∈ style.usedLocals.keys
  runtime : ∀ place, ∀ entry ∈ (style.propertiesAt place).entries, ∀ {abbreviation block},
    (abbreviation, block) ∈ Reference.runtimeNames entry.1 ++ Reference.runtimeNames entry.2 →
      place = .ofBlock block ∧ abbreviation ∈ (style.pending.propertiesAt place).keys
  conditional : ∀ block ∈ style.screens ++ style.containers, ∀ entry ∈ block.properties.entries,
    Reference.runtimeNames entry.1 = [] ∧ Reference.runtimeNames entry.2 = []

/-- The references that a place of a style may hold. -/
def CoversAt (style : Style) (place : Place) : Reference → Prop
  | .runtime name block => place = .ofBlock block ∧ name ∈ (style.pending.propertiesAt place).keys
  | .localVariable name => name ∈ style.usedLocals.keys
  | .scope _ => False

/-- The invariant of sessions, from which styles are closed. -/
structure Tidy (style : Style) : Prop where
  names : ∀ {name value}, style.Sets name value → Unmarked name
  places : ∀ place, ∀ entry ∈ (style.propertiesAt place).entries,
    Woven (style.CoversAt place) entry.2
  conditions : ∀ block ∈ style.screens ++ style.containers, ∀ value ∈ block.properties.values,
    Woven (Reference.IsLocalOf style.usedLocals) value
  locals : ∀ entry ∈ style.localVariables.entries,
    Unmarked entry.1 ∧ Within (Reference.IsLocalOf style.usedLocals) entry.2

end Style

namespace Reference

variable {text name : Text} {found : Text × Text} {allowed : Reference → Prop}

theorem localNames_of_unmarked (unmarked : Unmarked text) : localNames text = [] := by
  rw [localNames, all_of_unmarked unmarked, List.filterMap_nil]

theorem runtimeNames_of_unmarked (unmarked : Unmarked text) : runtimeNames text = [] := by
  rw [runtimeNames, all_of_unmarked unmarked, List.filterMap_nil]

theorem mem_localNames : name ∈ localNames text ↔ .localVariable name ∈ all text := by
  simp only [localNames, List.mem_filterMap]
  constructor
  · rintro ⟨reference, isFound, isName⟩
    cases reference <;> simp_all
  · intro isFound
    exact ⟨_, isFound, rfl⟩

theorem mem_runtimeNames : found ∈ runtimeNames text ↔ .runtime found.1 found.2 ∈ all text := by
  simp only [runtimeNames, List.mem_filterMap]
  constructor
  · rintro ⟨reference, isFound, isName⟩
    cases reference with
    | runtime name block =>
        simp only [Option.some.injEq] at isName
        rw [← isName]
        exact isFound
    | localVariable name => simp at isName
    | scope name => simp at isName
  · intro isFound
    exact ⟨_, isFound, rfl⟩

theorem Woven.localNames (woven : Woven allowed text) (isName : name ∈ Reference.localNames text) :
    allowed (.localVariable name) := by
  rcases woven.mem_all (mem_localNames.mp isName) with isAllowed | ⟨_, isScope⟩
  · exact isAllowed
  · simp at isScope

theorem Woven.runtimeNames (woven : Woven allowed text)
    (isFound : found ∈ Reference.runtimeNames text) : allowed (.runtime found.1 found.2) := by
  rcases woven.mem_all (mem_runtimeNames.mp isFound) with isAllowed | ⟨_, isScope⟩
  · exact isAllowed
  · simp at isScope

end Reference

namespace Style

theorem Tidy.closed {style : Style} (tidy : style.Tidy) : style.Closed where
  locals := by
    intro name value sets used isUsed
    rw [Reference.localNames_of_unmarked (tidy.names sets), List.nil_append] at isUsed
    rcases sets.place_or_conditional with ⟨place, isEntry⟩ | ⟨block, isBlock, isValue⟩
    · exact (tidy.places place _ isEntry).localNames isUsed
    · exact (tidy.conditions block isBlock value isValue).localNames isUsed
  localValues := by
    intro entry isEntry used isUsed
    obtain ⟨unmarked, within⟩ := tidy.locals entry isEntry
    rw [Reference.localNames_of_unmarked unmarked, List.nil_append] at isUsed
    exact within.woven.localNames isUsed
  runtime := by
    intro place entry isEntry abbreviation block isFound
    rw [Reference.runtimeNames_of_unmarked (tidy.names (sets_of_mem_propertiesAt isEntry)),
      List.nil_append] at isFound
    exact (tidy.places place entry isEntry).runtimeNames isFound
  conditional := by
    intro block isBlock entry isEntry
    have sets : style.Sets entry.1 entry.2 := by
      rcases List.mem_append.mp isBlock with isScreen | isContainer
      · exact .screen isScreen isEntry
      · exact .container isContainer isEntry
    refine ⟨Reference.runtimeNames_of_unmarked (tidy.names sets), ?_⟩
    rw [List.eq_nil_iff_forall_not_mem]
    intro found isFound
    exact (tidy.conditions block isBlock _ (List.mem_map_of_mem isEntry)).runtimeNames isFound

theorem coversAt_append {left right : Style} {place : Place} {reference : Reference}
    (covers : left.CoversAt place reference ∨ right.CoversAt place reference) :
    (left ++ right).CoversAt place reference := by
  cases reference with
  | runtime name block =>
      simp only [CoversAt, pending_append, Pending.propertiesAt_append, OrderedMap.mem_keys_merge]
        at covers ⊢
      tauto
  | localVariable name => exact OrderedMap.mem_keys_merge.mpr covers
  | scope name => exact covers.elim id id

theorem Tidy.append {left right : Style} (tidyLeft : left.Tidy) (tidyRight : right.Tidy) :
    (left ++ right).Tidy where
  names := by
    intro name value sets
    exact (sets_append sets).elim tidyLeft.names tidyRight.names
  places := by
    intro place entry isEntry
    rw [propertiesAt_append] at isEntry
    rcases OrderedMap.mem_entries_merge isEntry with inLeft | inRight
    · exact (tidyLeft.places place entry inLeft).mono fun _ covers =>
        coversAt_append (Or.inl covers)
    · exact (tidyRight.places place entry inRight).mono fun _ covers =>
        coversAt_append (Or.inr covers)
  conditions := by
    intro block isBlock value isValue
    rcases mem_conditionals_append isBlock with inLeft | inRight
    · exact (tidyLeft.conditions block inLeft value isValue).mono fun _ isLocal =>
        isLocalOf_merge (Or.inl isLocal)
    · exact (tidyRight.conditions block inRight value isValue).mono fun _ isLocal =>
        isLocalOf_merge (Or.inr isLocal)
  locals := by
    intro entry isEntry
    rcases OrderedMap.mem_entries_merge isEntry with inLeft | inRight
    · obtain ⟨unmarked, within⟩ := tidyLeft.locals entry inLeft
      exact ⟨unmarked, within.mono fun _ isLocal => isLocalOf_merge (Or.inl isLocal)⟩
    · obtain ⟨unmarked, within⟩ := tidyRight.locals entry inRight
      exact ⟨unmarked, within.mono fun _ isLocal => isLocalOf_merge (Or.inr isLocal)⟩

/-- A sound style without runtime variables is tidy: its values refer to local variables only. -/
theorem Sound.tidy_of_isEmpty {style : Style} (sound : style.Sound)
    (noVariable : style.pending.isEmpty = true) : style.Tidy := by
  have ofValue : ∀ {name value}, style.Sets name value →
      Within (Reference.IsLocalOf style.usedLocals) value := by
    intro name value sets
    apply (sound.values sets).2.mono
    intro reference covers
    cases reference with
    | runtime name block =>
        simp [Covers, Pending.isEmpty_iff_not_declares.mp noVariable] at covers
    | localVariable name => exact covers
    | scope name => exact covers
  refine ⟨fun sets => (sound.values sets).1, ?_, ?_, sound.locals⟩
  · intro place entry isEntry
    apply (ofValue (sets_of_mem_propertiesAt isEntry)).woven.mono
    intro reference isLocal
    obtain ⟨name, isUsed, rfl⟩ := isLocal.exists_eq
    exact isUsed
  · intro block isBlock value isValue
    obtain ⟨entry, isEntry, rfl⟩ := List.mem_map.mp isValue
    rcases List.mem_append.mp isBlock with isScreen | isContainer
    · exact (ofValue (.screen isScreen isEntry)).woven
    · exact (ofValue (.container isContainer isEntry)).woven

end Style

/-! ## Statements -/

theorem PutsAt.tidy {place : Place} {put : Body → Style} (puts : PutsAt place put) {body : Body}
    (sound : body.Sound place.block) (sameUsed : (put body).usedLocals = body.usedLocals)
    (noLocals : (put body).localVariables = ∅) : (put body).Tidy where
  names := by
    intro name value sets
    rcases sets.place_or_conditional with ⟨other, isEntry⟩ | ⟨block, isBlock, -⟩
    · rw [puts.propertiesAt] at isEntry
      split at isEntry
      · exact (sound.values _ isEntry).1
      · simp at isEntry
    · simp [puts.unconditional] at isBlock
  places := by
    intro other entry isEntry
    rw [puts.propertiesAt] at isEntry
    split at isEntry
    · next isPlace =>
      apply (sound.values _ isEntry).2.woven.mono
      intro reference covers
      cases reference with
      | runtime name block =>
          obtain ⟨rfl, isDefault⟩ := covers
          have isKnown : place = .ofBlock place.block := puts.known.symm
          rw [isPlace]
          refine ⟨isKnown, ?_⟩
          rw [puts.pendingAt body place puts.known, if_pos rfl]
          exact isDefault
      | localVariable name =>
          rw [Style.CoversAt, sameUsed]
          exact covers
      | scope name => exact covers
    · simp at isEntry
  conditions := by simp [puts.unconditional]
  locals := by simp [noLocals]

theorem Contributes.tidy {environment : Environment} (soundTheme : environment.theme.Sound)
    {isDeclared : Text → Bool} {contribution : Style}
    (contributes : Contributes environment (.topLevel isDeclared) contribution) :
    contribution.Tidy := by
  induction contributes with
  | nothing => exact Style.sound_empty.tidy_of_isEmpty rfl
  | both _ _ first second => exact first.append second
  | properties areNames _ _ refers =>
      exact putsAt_ofBody.tidy (Body.sound_ofProperties [] areNames refers) rfl rfl
  | runtime _ _ expands unmarked =>
      have isBlock : Vocabulary.AreBlockChars [] := by simp [Vocabulary.AreBlockChars]
      exact putsAt_ofBody.tidy (Body.sound_runtime isBlock expands unmarked) rfl rfl
  | localVariable _ takesLocals isAscii _ refers =>
      cases takesLocals
      exact (sound_localVariable isAscii refers).tidy_of_isEmpty rfl
  | @fragment _ _ fragment important _ isFragment =>
      have plain := soundTheme isFragment
      have tidy : fragment.shared.Tidy := (sound_shared plain).tidy_of_isEmpty rfl
      cases important with
      | false => exact tidy
      | true => exact tidy.append ((sound_importantBase plain).tidy_of_isEmpty rfl)

theorem Contribution.tidy {environment : Environment} {statement : Text} {contribution : Style}
    (contributes : Contribution environment statement contribution)
    (soundTheme : environment.theme.Sound) : contribution.Tidy := by
  have sound := contributes.sound soundTheme
  cases contributes with
  | flat _ contributes => exact contributes.tidy soundTheme
  | @slotted head slot body isSlot contributes =>
      have puts := Slot.putsAt_place isSlot
      have soundBody : body.Sound slot.toPlace.block := by
        rw [Slot.block_toPlace]
        have isBlock := (Slot.wellFormed_of_ofHead? isSlot).areBlockChars
        cases slot <;> exact contributes.sound_insideBlock soundTheme isBlock
      apply puts.tidy soundBody
      · cases slot <;> rfl
      · cases slot <;> rfl
  | mentioned => exact sound.tidy_of_isEmpty rfl
  | @conditional kind => exact sound.tidy_of_isEmpty (by cases kind <;> rfl)

/-! ## Naming variables -/

theorem Pending.declares_of_mem_propertiesAt {pending : Pending} {place : Place} {name : Text}
    (isDefault : name ∈ (pending.propertiesAt place).keys) :
    pending.declares name place.block = true := by
  have ofBlocks : ∀ {blocks : Blocks} {block : Text}, name ∈ (blocks.propertiesAt block).keys →
      blocks.Has block name := by
    intro blocks block isName
    cases found : blocks.get? block with
    | none => simp [Blocks.propertiesAt, found] at isName
    | some properties =>
        rw [Blocks.propertiesAt, found] at isName
        exact ⟨properties, found, isName⟩
  rw [declares_iff]
  cases place with
  | base => exact Or.inl ⟨rfl, isDefault⟩
  | state block => exact Or.inr (Or.inl (ofBlocks isDefault))
  | pluginState block => exact Or.inr (Or.inl (ofBlocks isDefault))
  | element block => exact Or.inr (Or.inr (Or.inl (ofBlocks isDefault)))
  | pluginContainer block => exact Or.inr (Or.inr (Or.inr (ofBlocks isDefault)))

namespace Style

variable {style : Style}

/-- A reference in a value of a tidy style is to a declared runtime variable, or it stays. -/
theorem Tidy.mem_all (tidy : style.Tidy) {name value : Text} (sets : style.Sets name value)
    {reference : Reference} (isFound : reference ∈ Reference.all value) :
    (∃ abbreviation block, reference = .runtime abbreviation block ∧
      style.pending.declares abbreviation block = true) ∨
    (∃ used, reference = .localVariable used) ∨ ∃ name, reference = .scope name := by
  rcases sets.place_or_conditional with ⟨place, isEntry⟩ | ⟨block, isBlock, isValue⟩
  · rcases (tidy.places place _ isEntry).mem_all isFound with covers | isScope
    · cases reference with
      | runtime abbreviation block =>
          obtain ⟨isPlace, isDefault⟩ := covers
          have declares := Pending.declares_of_mem_propertiesAt isDefault
          rw [isPlace, Place.block_ofBlock] at declares
          exact Or.inl ⟨abbreviation, block, rfl, declares⟩
      | localVariable used => exact Or.inr (Or.inl ⟨used, rfl⟩)
      | scope name => exact Or.inr (Or.inr ⟨name, rfl⟩)
    · exact Or.inr (Or.inr isScope)
  · rcases (tidy.conditions block isBlock value isValue).mem_all isFound with isLocal | isScope
    · cases reference with
      | runtime abbreviation block => exact isLocal.elim
      | localVariable used => exact Or.inr (Or.inl ⟨used, rfl⟩)
      | scope name => exact isLocal.elim
    · exact Or.inr (Or.inr isScope)

/-- Naming the variables of a tidy style is refused for want of a scope only. -/
theorem Tidy.nameVariables_eq (tidy : style.Tidy) (display scope : Text) :
    (style.nameVariables display scope).state = style ∨
      (style.nameVariables display scope).state =
        { style.mapValues (rewrite (Reference.nameRuntime display)) with
          rootVariables := style.rootVariables.merge (style.pending.declarations display)
          pending := style.pending.drained } := by
  simp only [nameVariables]
  split
  · exact Or.inl rfl
  · right
    split
    · next noVariable =>
      have kept : style.mapValues (rewrite (Reference.nameRuntime display)) = style := by
        refine Eq.trans (mapValues_congr ?_) style.mapValues_id
        intro name value sets
        apply Reference.rewrite_eq_self
        intro reference isFound
        rcases tidy.mem_all sets isFound with ⟨_, _, _, declares⟩ | ⟨_, rfl⟩ | ⟨_, rfl⟩
        · simp [Pending.isEmpty_iff_not_declares.mp noVariable] at declares
        · rfl
        · rfl
      rw [kept]
    · have accepts : ∀ {name value}, style.Sets name value →
          Reference.resolveRuntime (useRuntime style.pending display) value =
            .ok (rewrite (Reference.nameRuntime display) value) := by
        intro name value sets
        apply Reference.replaceItemsM_eq_ok
        intro reference isFound
        rcases tidy.mem_all sets isFound with ⟨_, _, rfl, declares⟩ | ⟨_, rfl⟩ | ⟨_, rfl⟩
        · exact if_pos declares
        · rfl
        · rfl
      have changes : ∀ declared : Style,
          (∀ {name value}, declared.Sets name value → style.Sets name value) →
          declared.changeValues (Reference.resolveRuntime (useRuntime style.pending display)) =
            { state := declared.mapValues (rewrite (Reference.nameRuntime display)) } :=
        fun declared same => changeValues_eq fun sets => accepts (same sets)
      rw [changes]
      · rfl
      · intro name value sets
        exact sets.of_places rfl rfl rfl rfl rfl rfl rfl

theorem sets_mapValues {change : Text → Text} {name value : Text}
    (sets : (style.mapValues change).Sets name value) :
    ∃ old, style.Sets name old ∧ value = change old := by
  have ofEntry : ∀ {properties : Properties}, (name, value) ∈ (properties.map change).entries →
      ∃ old, (name, old) ∈ properties.entries ∧ value = change old := by
    intro properties isEntry
    obtain ⟨⟨_, old⟩, isOld, same⟩ := List.mem_map.mp isEntry
    cases same
    exact ⟨old, isOld, rfl⟩
  have ofBlocks : ∀ {blocks : Blocks} {properties : Properties},
      properties ∈ (blocks.map (OrderedMap.map change)).values →
      (name, value) ∈ properties.entries →
      ∃ own ∈ blocks.values, ∃ old, (name, old) ∈ own.entries ∧ value = change old := by
    intro blocks properties isBlock isEntry
    obtain ⟨entry, isMember, rfl⟩ := List.mem_map.mp isBlock
    obtain ⟨own, isOwn, rfl⟩ := List.mem_map.mp isMember
    exact ⟨own.2, List.mem_map_of_mem isOwn, ofEntry isEntry⟩
  have ofConditionals : ∀ {blocks : List Conditional} {block : Conditional},
      block ∈ blocks.map (fun block => { block with properties := block.properties.map change }) →
      (name, value) ∈ block.properties.entries →
      ∃ own ∈ blocks, ∃ old, (name, old) ∈ own.properties.entries ∧ value = change old := by
    intro blocks block isBlock isEntry
    obtain ⟨own, isOwn, rfl⟩ := List.mem_map.mp isBlock
    exact ⟨own, isOwn, ofEntry isEntry⟩
  cases sets with
  | base isEntry =>
      obtain ⟨old, isOld, same⟩ := ofEntry isEntry
      exact ⟨old, .base isOld, same⟩
  | state isBlock isEntry =>
      obtain ⟨own, isOwn, old, isOld, same⟩ := ofBlocks isBlock isEntry
      exact ⟨old, .state isOwn isOld, same⟩
  | pluginState isState isEntry =>
      obtain ⟨entry, isMember, rfl⟩ := List.mem_map.mp isState
      obtain ⟨own, isOwn, rfl⟩ := List.mem_map.mp isMember
      obtain ⟨old, isOld, same⟩ := ofEntry isEntry
      exact ⟨old, .pluginState (List.mem_map_of_mem isOwn) isOld, same⟩
  | screen isBlock isEntry =>
      obtain ⟨own, isOwn, old, isOld, same⟩ := ofConditionals isBlock isEntry
      exact ⟨old, .screen isOwn isOld, same⟩
  | container isBlock isEntry =>
      obtain ⟨own, isOwn, old, isOld, same⟩ := ofConditionals isBlock isEntry
      exact ⟨old, .container isOwn isOld, same⟩
  | pluginContainer isBlock isEntry =>
      obtain ⟨own, isOwn, old, isOld, same⟩ := ofBlocks isBlock isEntry
      exact ⟨old, .pluginContainer isOwn isOld, same⟩
  | element isBlock isEntry =>
      obtain ⟨own, isOwn, old, isOld, same⟩ := ofBlocks isBlock isEntry
      exact ⟨old, .element isOwn isOld, same⟩

/-- The named variables leave no reference, and the rest of the references stay covered. -/
theorem Tidy.nameVariables (tidy : style.Tidy) {display : Text}
    (noVariable : NamesNoVariable display) (scope : Text) :
    (style.nameVariables display scope).state.Tidy := by
  rcases tidy.nameVariables_eq display scope with unchanged | isNamed
  · rw [unchanged]
    exact tidy
  · rw [isNamed]
    have weave : ∀ {allowed other : Reference → Prop} {value : Text}, Woven allowed value →
        (∀ name, allowed (.localVariable name) → other (.localVariable name)) →
        (∀ name, ¬allowed (.scope name)) →
        Woven other (rewrite (Reference.nameRuntime display) value) := by
      intro allowed other value woven keeps noScope
      refine woven.rewrite (fun _ => ?_) ?_
      · rfl
      intro reference isAllowed wellNamed
      cases reference with
      | runtime name block =>
          exact Reference.woven_use_runtime (Reference.unmarked_of_isNameChar wellNamed.1.2)
            (Reference.unmarked_of_isNameChar wellNamed.2) noVariable
      | localVariable name => exact (Within.of_render wellNamed (keeps name isAllowed)).woven
      | scope name => exact absurd isAllowed (noScope name)
    refine ⟨?_, ?_, ?_, tidy.locals⟩
    · intro name value sets
      have ofValues : (style.mapValues (rewrite (Reference.nameRuntime display))).Sets name value :=
        sets.of_places rfl rfl rfl rfl rfl rfl rfl
      obtain ⟨old, wasSet, -⟩ := sets_mapValues ofValues
      exact tidy.names wasSet
    · intro place entry isEntry
      have isChanged : entry ∈
          ((style.propertiesAt place).map (rewrite (Reference.nameRuntime display))).entries := by
        rw [← propertiesAt_mapValues]
        cases place <;> exact isEntry
      obtain ⟨old, isOld, rfl⟩ := List.mem_map.mp isChanged
      exact weave (tidy.places place old isOld) (fun _ covers => covers) fun _ covers => covers
    · intro block isBlock value isValue
      have isChanged : ∃ old ∈ style.screens ++ style.containers,
          block.properties = old.properties.map (rewrite (Reference.nameRuntime display)) := by
        simp only [mapValues, ← List.map_append, List.mem_map] at isBlock
        obtain ⟨old, isOld, rfl⟩ := isBlock
        exact ⟨old, isOld, rfl⟩
      obtain ⟨old, isOld, same⟩ := isChanged
      rw [same] at isValue
      obtain ⟨entry, isEntry, rfl⟩ := List.mem_map.mp isValue
      obtain ⟨own, isOwn, rfl⟩ := List.mem_map.mp isEntry
      exact weave (tidy.conditions old isOld _ (List.mem_map_of_mem isOwn))
        (fun _ isLocal => isLocal) fun _ isLocal => isLocal

end Style

/-! ## Sessions -/

/-- Styles that statements make in one context, whether they succeed or fail. The fragments of the
themes that they use are made so themselves, in the context of fragments. -/
inductive Style.MadeIn : Context → Style → Prop where
  | empty (context : Context) : MadeIn context ∅
  | dispatch {context : Context} {theme : Theme} {style : Style} (statement : Text)
      (keyframes : OrderedMap Text Text)
      (composed : ∀ {group variant fragment}, theme.fragment? group variant = some fragment →
        MadeIn .theme fragment)
      (made : MadeIn context style) :
      MadeIn context (style.dispatch { context, theme, keyframes } statement).state

/-- Every fragment of the theme is made by statements. -/
def Theme.Composed (theme : Theme) : Prop :=
  ∀ {group variant fragment}, theme.fragment? group variant = some fragment →
    Style.MadeIn .theme fragment

/-- The styles that a session can reach: it dispatches statements in any context, merges fragments
that were made in constants or in the theme, and names variables under the display names that are
admitted. -/
inductive Style.Reached (admits : Text → Prop) : Style → Prop where
  | empty : Reached admits ∅
  | dispatch {environment : Environment} {style : Style} (statement : Text)
      (composed : environment.theme.Composed) (reached : Reached admits style) :
      Reached admits (style.dispatch environment statement).state
  | merge {context : Context} {style fragment : Style}
      (isFragment : context = .constant ∨ context = .theme) (made : MadeIn context fragment)
      (reached : Reached admits style) : Reached admits (style.merge fragment)
  | nameVariables {style : Style} {display : Text} (scope : Text) (admitted : admits display)
      (reached : Reached admits style) : Reached admits (style.nameVariables display scope).state

/-- What statements of a context make is sound, and free of what the context does not allow. -/
theorem Style.MadeIn.sound {context : Context} {style : Style} (made : MadeIn context style) :
    style.Sound ∧
      (context.allowsRuntime = false → context.allowsLocalDeclarations = false →
        style.VariableFree) ∧
      (context.allowsLocalReferences = false → style.usedLocals = ∅) := by
  induction made with
  | empty => exact ⟨sound_empty, fun _ _ => variableFree_empty, fun _ => rfl⟩
  | @dispatch context theme style statement keyframes _ _ ofFragments ih =>
      have soundTheme : theme.Sound := by
        intro group variant fragment isFragment
        obtain ⟨sound, free, noneUsed⟩ := ofFragments isFragment
        exact sound.plain (noneUsed rfl) (free rfl rfl).pending
      let environment : Environment := { context, theme, keyframes }
      have contributes : Contribution environment (Text.trim statement)
          (environment.contribution style.localVariables.contains statement).written :=
        Environment.contribution_of_statement _
      obtain ⟨sound, free, noneUsed⟩ := ih
      refine ⟨sound.append (contributes.sound soundTheme), ?_, ?_⟩
      · intro noRuntime noLocals
        exact (free noRuntime noLocals).append (contributes.variableFree noRuntime noLocals)
      · intro noReferences
        rw [Style.dispatch, usedLocals_append, noneUsed noReferences,
          contributes.usedLocals noReferences soundTheme, OrderedMap.merge_empty]

theorem Theme.Composed.sound {theme : Theme} (composed : theme.Composed) : theme.Sound := by
  intro group variant fragment isFragment
  obtain ⟨sound, free, noneUsed⟩ := (composed isFragment).sound
  exact sound.plain (noneUsed rfl) (free rfl rfl).pending

theorem Theme.composed_of_ofTexts {texts : Theme.Texts} {theme : Theme}
    (built : Theme.ofTexts texts = .ok theme) : theme.Composed := by
  have ofStatements : ∀ found : List Text, Style.MadeIn .theme
      ((∅ : Style).dispatchAll { context := .theme, theme := texts.tables } found).state := by
    intro found
    apply Attempt.state_forEach _ (Style.MadeIn.empty .theme)
    intro statement _ style made
    refine .dispatch statement ∅ ?_ made
    simp [fragment?, Texts.tables]
  intro group variant fragment isFragment
  obtain ⟨_, _, text, _, compiles⟩ := exists_text_of_fragment? built isFragment
  rw [Fragment.compileText, Attempt.toExcept_eq_ok, Style.dispatchBody] at compiles
  split at compiles
  · simp at compiles
  · next found _ =>
    have made := ofStatements found
    rwa [show texts.tables = { texts.tables with defines := ∅ } from rfl, compiles] at made

/-- At every point of a session the style is closed, if no display name spells a reference to a
variable. -/
theorem Style.closed_of_reached {style : Style}
    (reached : Reached Reference.NamesNoVariable style) :
    style.Closed := by
  apply Tidy.closed
  induction reached with
  | empty => exact sound_empty.tidy_of_isEmpty rfl
  | dispatch statement composed _ tidy =>
      exact tidy.append ((Environment.contribution_of_statement _).tidy composed.sound)
  | merge isFragment made _ tidy =>
      obtain ⟨sound, free, -⟩ := made.sound
      have soundShared := sound.shared (by rcases isFragment with rfl | rfl <;> exact free rfl rfl)
      exact tidy.append (soundShared.tidy_of_isEmpty rfl)
  | nameVariables scope admitted _ tidy => exact tidy.nameVariables admitted scope

set_option maxRecDepth 100000 in
/-- A statement that fails half way, a constant, a naming and a further variable of the same
block. -/
theorem Style.closed_of_reached_renamed :
    let texts : Theme.Texts := { defines := [("card", [("x", "bg[red]")])] }
    let constant := (∅ : Style).dispatch { context := .constant } "hover(c[--&tone])"
    let session : Theme → Style := fun theme =>
      let failed :=
        (∅ : Style).dispatch { context := .rule, theme } "hover($w[1px] card[x] none[1])"
      let renamed := (failed.state.merge constant.state).nameVariables "⟦s" "s"
      (renamed.state.dispatch { context := .rule, theme } "hover($h[2px])").state
    ∃ theme, Theme.ofTexts texts = .ok theme ∧
      session theme =
        { states := .single "hover" (.ofList [("width", "var(--w-⟦s-hover)"),
            ("background-color", "red"), ("color", (Reference.localVariable "tone").render),
            ("height", (Reference.runtime "h" "hover").render)])
          rootVariables := .single "--w-⟦s-hover" "1px"
          usedLocals := .single "tone" ()
          hasRuntime := true
          pending := { states := .single "hover" (.single "h" "2px") } } ∧
      (session theme).Closed := by
  intro texts constant session
  have evaluates : (Theme.ofTexts texts >>= fun theme =>
      (pure (session theme) : Except Error Style)) =
      .ok { states := .single "hover" (.ofList [("width", "var(--w-⟦s-hover)"),
              ("background-color", "red"), ("color", (Reference.localVariable "tone").render),
              ("height", (Reference.runtime "h" "hover").render)])
            rootVariables := .single "--w-⟦s-hover" "1px"
            usedLocals := .single "tone" ()
            hasRuntime := true
            pending := { states := .single "hover" (.single "h" "2px") } } := by
    decide +kernel
  obtain ⟨theme, built, outcome⟩ := bind_eq_ok.mp evaluates
  have composed : theme.Composed := Theme.composed_of_ofTexts built
  have isConstant : MadeIn .constant constant.state := by
    refine .dispatch _ ∅ ?_ (.empty .constant)
    simp [Theme.fragment?]
  have noVariable : Reference.NamesNoVariable "⟦s" := ⟨by decide +kernel, by decide +kernel⟩
  have reached : Reached Reference.NamesNoVariable (session theme) :=
    .dispatch _ composed (.nameVariables _ noVariable (.merge (Or.inl rfl) isConstant
      (.dispatch _ composed .empty)))
  exact ⟨theme, built, Except.ok.inj outcome, Style.closed_of_reached reached⟩

set_option maxRecDepth 100000 in
/-- A display name that spells a reference brings it into the style. -/
theorem Style.not_closed_of_reached_display :
    ∃ style : Style, style.Reached (fun _ => True) ∧ ¬style.Closed := by
  let first := (∅ : Style).dispatch { context := .rule } "$bg[red]"
  have composed : ({} : Theme).Composed := by
    intro group variant fragment isFragment
    simp [Theme.fragment?] at isFragment
  refine ⟨(first.state.nameVariables "⟦$:c:⟧" "s").state,
    .nameVariables _ trivial (.dispatch _ composed .empty), ?_⟩
  intro closed
  have isEntry : (("background-color" : Text), ("var(--bg-⟦$:c:⟧)" : Text)) ∈
      ((first.state.nameVariables "⟦$:c:⟧" "s").state.propertiesAt .base).entries := by
    decide +kernel
  have isFound : (("c" : Text), ([] : Text)) ∈ Reference.runtimeNames "background-color" ++
      Reference.runtimeNames "var(--bg-⟦$:c:⟧)" := by
    decide +kernel
  have isPending := (closed.runtime .base _ isEntry isFound).2
  exact absurd isPending (by decide +kernel)

end TerseStyle

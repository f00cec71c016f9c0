import TerseStyle.Proofs.Hoisting
import TerseStyle.Proofs.Section
import TerseStyle.Proofs.Spelling

/-!
# The order of declarations and blocks

The declarations and the blocks of a class may be written in any relative order
(`Source.rulesOfClass_of_reorders`). A declaration adds to the class itself and a block adds to its
place, and neither looks at what the other adds. Where the two change places, only the order in
which local variables are mentioned changes (`Style.Alike`), and no rule depends on it.

A declaration may also take a fragment with blocks from the theme, as a typography preset does. It
changes places with a block of another family, but not with one of the same: those of the fragment
and those of the class overwrite each other in the order in which they stand
(`compile_swapped_preset`).
-/

namespace TerseStyle

/-! ## Outcomes that agree -/

/-- Both outcomes are errors, or both are results that are related. -/
inductive Agree {ε α β : Type} (Related : α → β → Prop) : Except ε α → Except ε β → Prop where
  | ok {left : α} {right : β} (related : Related left right) : Agree Related (.ok left) (.ok right)
  | error (left right : ε) : Agree Related (.error left) (.error right)

namespace Agree

variable {ε α β γ δ : Type} {Related : α → β → Prop} {Turned : β → α → Prop} {left : Except ε α}
  {right : Except ε β}

theorem bind {Next : γ → δ → Prop} {ofLeft : α → Except ε γ} {ofRight : β → Except ε δ}
    (agree : Agree Related left right)
    (onwards : ∀ {a b}, Related a b → Agree Next (ofLeft a) (ofRight b)) :
    Agree Next (left >>= ofLeft) (right >>= ofRight) := by
  cases agree with
  | ok related => exact onwards related
  | error left right => exact .error left right

theorem refl (outcome : Except ε α) : Agree Eq outcome outcome := by
  cases outcome with
  | ok result => exact .ok rfl
  | error error => exact .error error error

theorem symm (agree : Agree Related left right) (turns : ∀ {a b}, Related a b → Turned b a) :
    Agree Turned right left := by
  cases agree with
  | ok related => exact .ok (turns related)
  | error left right => exact .error right left

theorem trans {middle : Except ε β} {last : Except ε γ} {Later : β → γ → Prop} {Both : α → γ → Prop}
    (first : Agree Related left middle) (second : Agree Later middle last)
    (joins : ∀ {a b c}, Related a b → Later b c → Both a c) : Agree Both left last := by
  cases first with
  | ok related =>
      cases second with
      | ok later => exact .ok (joins related later)
  | error error _ =>
      cases second with
      | error _ other => exact .error error other

theorem swap {Next : γ → δ → Prop} (first : Except ε α) (second : Except ε β)
    {ofLeft : α → β → Except ε γ} {ofRight : β → α → Except ε δ}
    (onwards : ∀ {a b}, first = .ok a → second = .ok b → Agree Next (ofLeft a b) (ofRight b a)) :
    Agree Next (first >>= fun a => second >>= ofLeft a)
      (second >>= fun b => first >>= ofRight b) := by
  cases first with
  | error error =>
      cases second with
      | error other => exact .error _ _
      | ok b => exact .error _ _
  | ok a =>
      cases second with
      | error error => exact .error _ _
      | ok b => exact onwards rfl rfl

theorem toOption_eq {left right : Except ε α} (agree : Agree Eq left right) :
    left.toOption = right.toOption := by
  cases agree with
  | ok same => rw [same]
  | error left right => rfl

theorem isOk_iff (agree : Agree Related left right) :
    (∃ a, left = .ok a) ↔ ∃ b, right = .ok b := by
  cases agree <;> simp

end Agree

theorem Attempt.toExcept_andThen {σ : Type} (first : Attempt σ) (change : σ → Attempt σ) :
    (first.andThen change).toExcept = first.toExcept >>= fun state => (change state).toExcept := by
  cases ended : first.failure <;> simp [andThen, toExcept, ended] <;> rfl

/-! ## Styles that differ in the order of mentioned variables -/

namespace Style

/-- The styles are the same, but may mention local variables in different orders. -/
structure Alike (left right : Style) : Prop where
  rest : right = { left with usedLocals := right.usedLocals }
  usedLocals : ∀ name, name ∈ left.usedLocals.keys ↔ name ∈ right.usedLocals.keys

theorem Alike.refl (style : Style) : style.Alike style :=
  ⟨rfl, fun _ => Iff.rfl⟩

variable {left right : Style}

theorem Alike.symm (alike : left.Alike right) : right.Alike left where
  rest := by
    rw [alike.rest]
  usedLocals name := (alike.usedLocals name).symm

theorem Alike.trans {first second third : Style} (alike : first.Alike second)
    (alikeNext : second.Alike third) : first.Alike third where
  rest := by
    rw [alikeNext.rest, alike.rest]
  usedLocals name := (alike.usedLocals name).trans (alikeNext.usedLocals name)

theorem Alike.append_right (alike : left.Alike right) (style : Style) :
    (left ++ style).Alike (right ++ style) where
  rest := by
    rw [alike.rest]
    rfl
  usedLocals := by
    intro name
    simp only [usedLocals_append, OrderedMap.mem_keys_merge, alike.usedLocals]

theorem Alike.append_left (alike : left.Alike right) (style : Style) :
    (style ++ left).Alike (style ++ right) where
  rest := by
    rw [alike.rest]
    rfl
  usedLocals := by
    intro name
    simp only [usedLocals_append, OrderedMap.mem_keys_merge, alike.usedLocals]

/-- The families of blocks that a style keeps apart. -/
inductive Family where
  | states
  | pluginStates
  | screens
  | containers
  | pluginContainers
  | elements
  deriving DecidableEq

/-- The style has no block of the family. -/
def Lacks (style : Style) : Family → Prop
  | .states => style.states = ∅
  | .pluginStates => style.pluginStates = ∅
  | .screens => style.screens = []
  | .containers => style.containers = []
  | .pluginContainers => style.pluginContainers = ∅
  | .elements => style.elements = ∅

variable {family : Family}

theorem lacks_empty : (∅ : Style).Lacks family := by
  cases family <;> rfl

theorem Lacks.append (ofLeft : left.Lacks family) (ofRight : right.Lacks family) :
    (left ++ right).Lacks family := by
  cases family <;> simp_all [Lacks]

/-- Besides what belongs to the element itself there are blocks of other families at most. -/
structure Spares (family : Family) (style : Style) : Prop where
  lacks : style.Lacks family
  rootVariables : style.rootVariables = ∅
  pending : style.pending = { base := style.pending.base }

theorem Spares.append (ofLeft : left.Spares family) (ofRight : right.Spares family) :
    (left ++ right).Spares family where
  lacks := ofLeft.lacks.append ofRight.lacks
  rootVariables := by
    rw [rootVariables_append, ofLeft.rootVariables, ofRight.rootVariables, OrderedMap.merge_empty]
  pending := by
    rw [pending_append, ofLeft.pending, ofRight.pending]
    rfl

theorem spares_empty : (∅ : Style).Spares family :=
  ⟨lacks_empty, rfl, rfl⟩

/-- There is nothing that belongs to the element itself, and no block of another family. -/
structure HasOnly (family : Family) (style : Style) : Prop where
  base : style.base = ∅
  lacks : ∀ other, other ≠ family → style.Lacks other
  rootVariables : style.rootVariables = ∅
  localVariables : style.localVariables = ∅
  pending : style.pending.base = ∅

theorem hasOnly_empty : (∅ : Style).HasOnly family :=
  ⟨rfl, fun _ _ => lacks_empty, rfl, rfl, rfl⟩

theorem HasOnly.append (ofLeft : left.HasOnly family) (ofRight : right.HasOnly family) :
    (left ++ right).HasOnly family where
  base := by simp [ofLeft.base, ofRight.base]
  lacks other differs := (ofLeft.lacks other differs).append (ofRight.lacks other differs)
  rootVariables := by simp [ofLeft.rootVariables, ofRight.rootVariables]
  localVariables := by simp [ofLeft.localVariables, ofRight.localVariables]
  pending := by simp [Pending.append, ofLeft.pending, ofRight.pending]

theorem alike_append_comm {own blocks : Style} (ofOwn : own.Spares family)
    (ofBlocks : blocks.HasOnly family) : (own ++ blocks).Alike (blocks ++ own) where
  rest := by
    -- Of each family, one of the two has no block, so nothing is overwritten.
    have either : ∀ other, own.Lacks other ∨ blocks.Lacks other := by
      intro other
      by_cases same : other = family
      · exact Or.inl (same ▸ ofOwn.lacks)
      · exact Or.inr (ofBlocks.lacks other same)
    apply Style.ext
    case usedLocals => rfl
    case hasRuntime => exact Bool.or_comm _ _
    case pending =>
      simp only [pending_append]
      rw [ofOwn.pending]
      simp [Pending.append, ofBlocks.pending]
    case states => rcases either .states with none | none <;> simp_all [Lacks]
    case pluginStates => rcases either .pluginStates with none | none <;> simp_all [Lacks]
    case screens => rcases either .screens with none | none <;> simp_all [Lacks]
    case containers => rcases either .containers with none | none <;> simp_all [Lacks]
    case pluginContainers => rcases either .pluginContainers with none | none <;> simp_all [Lacks]
    case elements => rcases either .elements with none | none <;> simp_all [Lacks]
    all_goals
      simp [ofOwn.rootVariables, ofBlocks.base, ofBlocks.rootVariables, ofBlocks.localVariables]
  usedLocals := by
    intro name
    simp only [usedLocals_append, OrderedMap.mem_keys_merge, or_comm]

theorem changeValues_withUsedLocals (change : Text → Except Error Text) (style : Style)
    (used : Names) : changeValues change { style with usedLocals := used } =
      (changeValues change style).map fun changed => { changed with usedLocals := used } := by
  have onwards : ∀ {first other : Attempt Style} {next : Style → Attempt Style},
      other = first.map (fun changed => { changed with usedLocals := used }) →
      (∀ state, next { state with usedLocals := used } =
        (next state).map fun changed => { changed with usedLocals := used }) →
      other.andThen next =
        (first.andThen next).map fun changed => { changed with usedLocals := used } := by
    intro first other next isOther ofNext
    rw [isOther]
    cases ended : first.failure <;> simp [Attempt.andThen, Attempt.map, ended, ofNext]
  simp only [changeValues]
  iterate 6 refine onwards ?_ fun _ => rfl
  rfl

theorem nameVariables_withUsedLocals (display scope : Text) (style : Style) (used : Names) :
    nameVariables display scope { style with usedLocals := used } =
      (nameVariables display scope style).map fun named => { named with usedLocals := used } := by
  simp only [nameVariables]
  split
  · rfl
  · split
    · rfl
    · exact changeValues_withUsedLocals
        (Reference.resolveRuntime (useRuntime style.pending display))
        { style with
          rootVariables := style.rootVariables.merge (style.pending.declarations display)
          pending := style.pending.drained } used

theorem usedLocals_nameVariables (display scope : Text) (style : Style) :
    (nameVariables display scope style).state.usedLocals = style.usedLocals := by
  have same := nameVariables_withUsedLocals display scope style style.usedLocals
  exact congrArg (fun attempt : Attempt Style => attempt.state.usedLocals) same

theorem Alike.nameVariables (alike : left.Alike right) (display scope : Text) :
    Agree Alike (left.nameVariables display scope).toExcept
      (right.nameVariables display scope).toExcept := by
  have ofRight : right.nameVariables display scope =
      (left.nameVariables display scope).map fun named =>
        { named with usedLocals := right.usedLocals } :=
    (congrArg (Style.nameVariables display scope) alike.rest).trans
      (nameVariables_withUsedLocals display scope left right.usedLocals)
  rw [ofRight, Attempt.toExcept_map]
  cases named : (left.nameVariables display scope).toExcept with
  | error error => exact .error error error
  | ok style =>
      have sameUsed := usedLocals_nameVariables display scope left
      rw [Attempt.toExcept_eq_ok.mp named] at sameUsed
      refine .ok ⟨rfl, ?_⟩
      intro name
      rw [sameUsed]
      exact alike.usedLocals name

end Style

/-! ## What declarations and blocks add -/

theorem Contributes.spares {environment : Environment} {isDeclared : Text → Bool}
    {contribution : Style}
    (contributes : Contributes environment (.topLevel isDeclared) contribution)
    (noDefines : environment.theme.defines = ∅) (family : Style.Family) :
    contribution.Spares family := by
  induction contributes with
  | nothing => exact Style.spares_empty
  | both _ _ first second => exact first.append second
  | properties => exact ⟨Style.lacks_empty, rfl, rfl⟩
  | runtime => exact ⟨Style.lacks_empty, rfl, rfl⟩
  | localVariable _ takesLocals =>
      cases takesLocals
      exact ⟨Style.lacks_empty, rfl, rfl⟩
  | fragment _ isFragment => simp [Theme.fragment?, noDefines] at isFragment

namespace Environment

variable {environment : Environment} {isDeclared : Text → Bool} {statement : Text}
  {declaration : Declaration} {family : Style.Family}

/-- The declaration names a fragment of a define group of the theme. -/
structure NamesFragment (environment : Environment) (declaration : Declaration) (fragment : Style) :
    Prop where
  isPlain : declaration.sigil = .plain
  notAbbreviation : Abbreviation.expand? declaration.name = none
  isFragment : ∃ variant, Text.words declaration.value = [variant] ∧
    environment.theme.fragment? declaration.name variant = some fragment

/-- The declaration takes a fragment from the theme, because it names it or because its typography
preset does. -/
inductive Takes (environment : Environment) (declaration : Declaration) (fragment : Style) :
    Prop where
  | named (names : environment.NamesFragment declaration fragment)
  | preset {preset : JsonValue} {tokens : List Text} {token : Text} {inPreset : Declaration}
      (isPlain : declaration.sigil = .plain) (isPreset : declaration.name = "ty")
      (found : environment.theme.typography.value? (Text.trim declaration.value) = some preset)
      (splits : Preset.statements preset = .ok tokens) (isToken : token ∈ tokens)
      (parsed : Declaration.parse token = .ok inPreset)
      (names : environment.NamesFragment inPreset fragment)

/-- The environment with a theme that has no fragments. -/
def withoutDefines (environment : Environment) : Environment :=
  { environment with theme := { environment.theme with defines := ∅ } }

theorem spares_define {fragment : Style} (lacks : fragment.Lacks family)
    (isDeclared : Text → Bool) (important : Bool) :
    ((Target.topLevel isDeclared).define fragment important).Spares family := by
  have shared : fragment.shared.Spares family := ⟨by cases family <;> exact lacks, rfl, rfl⟩
  cases important with
  | false => exact shared
  | true => exact shared.append ⟨Style.lacks_empty, rfl, rfl⟩

theorem spares_basic (isAscii : ∀ c ∈ declaration.name, isAsciiNameChar c = true)
    (accepted : ¬environment.refusesImportance declaration = true)
    (notSigil : declaration.sigil = .custom ∨ declaration.sigil = .plain)
    (lacks : ∀ fragment, environment.NamesFragment declaration fragment → fragment.Lacks family) :
    (environment.basic (.topLevel isDeclared) statement declaration).written.Spares family := by
  have lawful := Target.lawful_topLevel isDeclared
  unfold basic
  split
  · -- Neither custom properties nor abbreviations look at the fragments of the theme.
    have contributes : Contributes environment.withoutDefines (.topLevel isDeclared)
        (environment.custom (.topLevel isDeclared) statement declaration).written :=
      @contributes_custom _ _ _ environment.withoutDefines _ _ _ _ lawful isAscii accepted
    exact contributes.spares rfl family
  · next notCustom =>
    split
    · next properties expands =>
      have contributes : Contributes environment.withoutDefines (.topLevel isDeclared)
          (environment.setProperties (.topLevel isDeclared) statement declaration
            properties).written :=
        @contributes_setProperties _ _ _ environment.withoutDefines _ _ _ _ lawful _ expands
          accepted
      exact contributes.spares rfl family
    · next notAbbreviation =>
      split
      · unfold useFragment
        split
        · next variant isVariant =>
          split
          · exact Style.spares_empty
          · next fragment isFragment =>
            exact spares_define (lacks fragment ⟨notSigil.resolve_left notCustom,
              notAbbreviation, variant, isVariant, isFragment⟩) isDeclared _
        · exact Style.spares_empty
      · exact Style.spares_empty

theorem spares_presetToken {key token : Text} {important : Bool}
    (lacks : ∀ inPreset, Declaration.parse token = .ok inPreset →
      ∀ fragment, environment.NamesFragment inPreset fragment → fragment.Lacks family) :
    (environment.presetToken (.topLevel isDeclared) key important token).written.Spares family := by
  apply Draft.written_lift_andThen Style.spares_empty
  intro inPreset parsed
  split
  · exact Style.spares_empty
  · next supported =>
    simp only
    split
    · exact Style.spares_empty
    · next accepted =>
      have isAscii : ∀ c ∈ inPreset.name, isAsciiNameChar c = true :=
        Declaration.isAscii_of_parse parsed
      refine spares_basic isAscii accepted ?_ ?_
      · cases isOne : inPreset.sigil <;> simp_all
      · intro fragment names
        exact lacks inPreset parsed fragment
          ⟨names.isPlain, names.notAbbreviation, names.isFragment⟩

/-- A declaration adds no block of a family that the fragments it takes have none of. -/
theorem spares_declare (isAscii : ∀ c ∈ declaration.name, isAsciiNameChar c = true)
    (lacks : ∀ fragment, environment.Takes declaration fragment → fragment.Lacks family) :
    (environment.declare (.topLevel isDeclared) statement declaration).written.Spares family := by
  have lawful := Target.lawful_topLevel isDeclared
  unfold declare
  split
  · exact Style.spares_empty
  · next accepted =>
    split
    -- Declaring a variable does not look at the theme, so the theme may as well have no fragments.
    · have contributes : Contributes environment.withoutDefines (.topLevel isDeclared)
          (environment.declareLocal (.topLevel isDeclared) statement declaration).written :=
        @contributes_declareLocal _ _ _ environment.withoutDefines _ _ _ _ lawful isAscii
      exact contributes.spares rfl family
    · have contributes : Contributes environment.withoutDefines (.topLevel isDeclared)
          (environment.declareRuntime (.topLevel isDeclared) statement declaration).written :=
        @contributes_declareRuntime _ _ _ environment.withoutDefines _ _ _ _
      exact contributes.spares rfl family
    · next isCustom =>
      exact spares_basic isAscii accepted (Or.inl isCustom) fun fragment names =>
        lacks fragment (.named names)
    · next isPlain =>
      split
      · next isPreset =>
        unfold usePreset
        simp only
        split
        · exact Style.spares_empty
        · next preset found =>
          apply Draft.written_lift_andThen Style.spares_empty
          intro tokens splits
          apply Draft.written_forEach Style.spares_empty fun _ _ => .append
          intro token isToken
          apply spares_presetToken
          intro inPreset parsed fragment names
          exact lacks fragment (.preset isPlain isPreset found splits isToken parsed names)
      · exact spares_basic isAscii accepted (Or.inr isPlain) fun fragment names =>
          lacks fragment (.named names)

end Environment

/-! ## Blocks -/

/-- The family that a block of the element or its surroundings belongs to. -/
def Slot.family : Slot → Style.Family
  | state _ => .states
  | element _ => .elements
  | pluginState _ _ => .pluginStates
  | pluginContainer _ _ => .pluginContainers

/-- The family that a block under a condition belongs to. -/
def Condition.family : Condition → Style.Family
  | screen => .screens
  | container => .containers

/-- The family of the blocks that a name heads. -/
def Style.Family.ofHead? (head : Text) : Option Style.Family :=
  ((Slot.ofHead? head).map Slot.family).or ((Condition.ofHead? head).map Condition.family)

/-- The statement is a block of the family. -/
def IsBlock (statement : Text) (family : Style.Family) : Prop :=
  ∃ head inside, blockParts? (Text.trim statement) = some (head, inside) ∧
    Style.Family.ofHead? head = some family

theorem Slot.hasOnly_place (slot : Slot) (body : Body) : (slot.place body).HasOnly slot.family := by
  have lacks : ∀ other, other ≠ slot.family → (slot.place body).Lacks other := by
    intro other differs
    cases slot <;> cases other <;> simp_all [family, place, Style.Lacks]
  cases slot <;> exact ⟨rfl, lacks, rfl, rfl, rfl⟩

theorem Condition.hasOnly_place (kind : Condition) (query : Text) (properties : Properties) :
    (kind.place query properties).HasOnly kind.family := by
  have lacks : ∀ other, other ≠ kind.family → (kind.place query properties).Lacks other := by
    intro other differs
    cases kind <;> cases other <;> simp_all [family, place, Style.Lacks]
  cases kind <;> exact ⟨rfl, lacks, rfl, rfl, rfl⟩

namespace Environment

theorem hasOnly_conditional (environment : Environment) (kind : Condition)
    (statement inside : Text) :
    (environment.conditional kind statement inside).written.HasOnly kind.family := by
  apply Draft.written_lift_andThen Style.hasOnly_empty
  intro parts _
  split
  · exact Style.hasOnly_empty
  · next condition body _ =>
    apply Draft.written_lift_andThen Style.hasOnly_empty
    intro query _
    have used : ({ usedLocals := (environment.blockBody kind.target body).written.usedLocals } :
        Style).HasOnly kind.family := ⟨rfl, fun _ _ => Style.lacks_empty, rfl, rfl, rfl⟩
    simp only
    split
    · exact used
    · exact used.append (kind.hasOnly_place query _)

theorem exists_block?_of_ofHead? (environment : Environment) {head : Text} {family : Style.Family}
    (isFamily : Style.Family.ofHead? head = some family) (statement inside : Text) :
    ∃ draft, environment.block? head statement inside = some draft ∧
      draft.written.HasOnly family := by
  unfold Style.Family.ofHead? at isFamily
  unfold block?
  cases isSlot : Slot.ofHead? head with
  | some slot =>
      rw [isSlot] at isFamily
      cases isFamily
      exact ⟨_, rfl, slot.hasOnly_place _⟩
  | none =>
      rw [isSlot, Option.map_none, Option.none_or] at isFamily
      obtain ⟨kind, isKind, rfl⟩ := Option.map_eq_some_iff.mp isFamily
      exact ⟨_, by rw [isKind]; rfl, environment.hasOnly_conditional kind statement inside⟩

/-- What a block adds does not depend on the local variables that are declared. -/
theorem exists_draft_of_isBlock (environment : Environment) {statement : Text}
    {family : Style.Family} (isBlock : IsBlock statement family) :
    ∃ draft, (∀ isDeclared, environment.contribution isDeclared statement = draft) ∧
      draft.written.HasOnly family := by
  obtain ⟨head, inside, parts, isFamily⟩ := isBlock
  obtain ⟨draft, isDraft, hasOnly⟩ :=
    environment.exists_block?_of_ofHead? isFamily (Text.trim statement) inside
  unfold contribution
  split
  · exact ⟨_, fun _ => rfl, Style.hasOnly_empty⟩
  · exact ⟨_, fun _ => rfl, Style.hasOnly_empty⟩
  · simp only [parts, isDraft]
    split
    · exact ⟨_, fun _ => rfl, Style.hasOnly_empty⟩
    · exact ⟨_, fun _ => rfl, hasOnly⟩

end Environment

/-! ## Statements in a different order -/

/-- The same statements, but a declaration may have changed places with a block next to it, unless
it takes blocks of the same family from the theme. -/
inductive Environment.Reorders (environment : Environment) : List Text → List Text → Prop where
  | refl (found : List Text) : Reorders environment found found
  | swap {flat nested : Text} {declaration : Declaration} {family : Style.Family}
      (parsed : Declaration.parse flat = .ok declaration)
      (lacks : ∀ fragment, environment.Takes declaration fragment → fragment.Lacks family)
      (isBlock : IsBlock nested family) (after : List Text) :
      Reorders environment (flat :: nested :: after) (nested :: flat :: after)
  | cons (statement : Text) {found other : List Text}
      (reorders : Reorders environment found other) :
      Reorders environment (statement :: found) (statement :: other)
  | symm {found other : List Text} (reorders : Reorders environment found other) :
      Reorders environment other found
  | trans {first second third : List Text} (reorders : Reorders environment first second)
      (onwards : Reorders environment second third) : Reorders environment first third

namespace Style

variable {environment : Environment}

theorem toExcept_dispatchAll_cons (statement : Text) (rest : List Text) (style : Style) :
    (style.dispatchAll environment (statement :: rest)).toExcept =
      (environment.contribution style.localVariables.contains statement).result >>= fun _ =>
        ((style ++ (environment.contribution style.localVariables.contains statement).written)
          |>.dispatchAll environment rest).toExcept := by
  rw [dispatchAll, Attempt.forEach, Attempt.toExcept_andThen, dispatch, Attempt.toExcept,
    Draft.failure?]
  cases (environment.contribution style.localVariables.contains statement).result <;> rfl

theorem Alike.dispatchAll {left right : Style} (alike : left.Alike right) (found : List Text) :
    Agree Alike (left.dispatchAll environment found).toExcept
      (right.dispatchAll environment found).toExcept := by
  induction found generalizing left right with
  | nil => exact .ok alike
  | cons statement rest ih =>
      have sameLocals : right.localVariables = left.localVariables := by rw [alike.rest]
      rw [toExcept_dispatchAll_cons, toExcept_dispatchAll_cons, sameLocals]
      apply (Agree.refl _).bind
      intro _ _ _
      exact ih (alike.append_right _)

theorem agree_dispatchAll_swap {flat nested : Text} {declaration : Declaration} {family : Family}
    (parsed : Declaration.parse flat = .ok declaration)
    (lacks : ∀ fragment, environment.Takes declaration fragment → fragment.Lacks family)
    (isBlock : IsBlock nested family) (after : List Text) (style : Style) :
    Agree Alike (style.dispatchAll environment (flat :: nested :: after)).toExcept
      (style.dispatchAll environment (nested :: flat :: after)).toExcept := by
  obtain ⟨draft, ofBlock, ofNested⟩ := environment.exists_draft_of_isBlock isBlock
  have ofFlat :
      (environment.contribution style.localVariables.contains flat).written.Spares family := by
    rw [environment.contribution_of_parse parsed]
    exact Environment.spares_declare (Declaration.isAscii_of_parse parsed) lacks
  -- The block declares no local variable, so the declaration is read alike after it.
  have sameLocals : (style ++ draft.written).localVariables = style.localVariables := by
    rw [localVariables_append, ofNested.localVariables, OrderedMap.merge_empty]
  simp only [toExcept_dispatchAll_cons, ofBlock, sameLocals]
  apply Agree.swap
  intro _ _ _ _
  apply Alike.dispatchAll
  rw [append_assoc, append_assoc]
  exact (alike_append_comm ofFlat ofNested).append_left style

theorem agree_dispatchAll_of_reorders {found other : List Text}
    (reorders : environment.Reorders found other) (style : Style) :
    Agree Alike (style.dispatchAll environment found).toExcept
      (style.dispatchAll environment other).toExcept := by
  induction reorders generalizing style with
  | refl found => exact (Alike.refl style).dispatchAll found
  | swap parsed lacks isBlock after =>
      exact agree_dispatchAll_swap parsed lacks isBlock after style
  | cons statement _ ih =>
      rw [toExcept_dispatchAll_cons, toExcept_dispatchAll_cons]
      apply (Agree.refl _).bind
      intro _ _ _
      exact ih _
  | symm _ ih => exact (ih style).symm Alike.symm
  | trans _ _ first second => exact (first style).trans (second style) Alike.trans

end Style

/-! ## Classes -/

namespace Query

/-- The body uses the constants, holds the statements and has the queries. -/
def HasParts (body : Text) (used found : List Text) (queries : List QueryTree) : Prop :=
  ∃ lines, QueryTree.parse body = .ok (lines, queries) ∧ usedConstants lines = used ∧
    statements (Text.joinWith [.char '\n'] (statementLines lines)) = .ok found

end Query

namespace Source

variable {environment : Environment} {scope : Text} {constants : Constants}
  {names : OrderedMap Text Text} {block other : ClassBlock}

theorem readClass_of_hasParts {used found : List Text} {queries : List QueryTree}
    (hasParts : Query.HasParts block.body used found queries) :
    readClass environment scope constants block = do
      let style ← ((∅ : Style).useConstants constants false used).toExcept
      let style ← (style.dispatchAll environment found).toExcept
      let queries ← (QueryTree.compileForest environment constants queries).toExcept
      checkLocals scope block.name style queries
      return (style, queries) := by
  obtain ⟨lines, isRead, isUsed, areFound⟩ := hasParts
  have isDispatched : ((∅ : Style).dispatchLines environment constants false lines).toExcept =
      ((∅ : Style).useConstants constants false used).toExcept >>= fun style =>
        (style.dispatchAll environment found).toExcept := by
    have ofBody : ∀ style : Style, style.dispatchBody environment
        (Text.joinWith [.char '\n'] (Query.statementLines lines)) =
          style.dispatchAll environment found := by
      intro style
      rw [Style.dispatchBody, areFound]
    rw [Style.dispatchLines, Attempt.toExcept_andThen, isUsed]
    simp only [ofBody]
  rw [readClass_eq, isRead, ok_bind, compileRead, isDispatched, bind_assoc]

theorem agree_checkLocals {left right : Style} (alike : left.Alike right) (scope name : Text)
    (queries : List QueryTree) :
    Agree Eq (checkLocals scope name left queries) (checkLocals scope name right queries) := by
  have sameLocals : right.localVariables = left.localVariables := by rw [alike.rest]
  have both : checkLocals scope name left queries = .ok () ↔
      checkLocals scope name right queries = .ok () := by
    simp only [checkLocals_eq_ok_iff, mem_keys_usedLocals, alike.usedLocals, sameLocals]
  cases ofLeft : checkLocals scope name left queries with
  | ok _ =>
      rw [both.mp ofLeft]
      exact .ok rfl
  | error error =>
      cases ofRight : checkLocals scope name right queries with
      | ok _ =>
          rw [both.mpr ofRight] at ofLeft
          simp at ofLeft
      | error other => exact .error error other

/-- Compiled classes that differ in the order of mentioned variables only. -/
structure AlikeClasses (left right : CompiledClass) : Prop where
  name : left.name = right.name
  display : left.display = right.display
  style : left.style.Alike right.style
  queries : left.queries = right.queries

theorem agree_compileClass (sameName : block.name = other.name) {used found reordered : List Text}
    {queries : List QueryTree} (hasParts : Query.HasParts block.body used found queries)
    (hasOthers : Query.HasParts other.body used reordered queries)
    (reorders : environment.Reorders found reordered) :
    Agree AlikeClasses (compileClass environment scope constants block)
      (compileClass environment scope constants other) := by
  rw [compileClass, compileClass, readClass_of_hasParts hasParts, readClass_of_hasParts hasOthers,
    sameName]
  simp only [bind_assoc, pure_bind]
  apply (Agree.refl _).bind
  rintro style _ rfl
  apply (Style.agree_dispatchAll_of_reorders reorders style).bind
  intro left right alike
  apply (Agree.refl _).bind
  rintro compiled _ rfl
  apply (agree_checkLocals alike scope other.name compiled).bind
  intro _ _ _
  apply (alike.nameVariables (Naming.final scope other.name) scope).bind
  intro leftNamed rightNamed alikeNamed
  exact .ok ⟨rfl, rfl, alikeNamed, rfl⟩

theorem AlikeClasses.classRules_eq {left right : CompiledClass} (alike : AlikeClasses left right)
    (names : OrderedMap Text Text) :
    classRules names left.display left.style left.queries =
      classRules names right.display right.style right.queries := by
  rw [alike.display, alike.queries, alike.style.rest]
  rfl

/-- Two classes whose bodies differ only in the order in which declarations and blocks stand are
both refused, or they have the same rules. -/
theorem rulesOfClass_of_reorders (sameName : block.name = other.name)
    {used found reordered : List Text} {queries : List QueryTree}
    (hasParts : Query.HasParts block.body used found queries)
    (hasOthers : Query.HasParts other.body used reordered queries)
    (reorders : environment.Reorders found reordered) (scope : Text) (constants : Constants)
    (names : OrderedMap Text Text) :
    ((∃ compiled, compileClass environment scope constants block = .ok compiled) ↔
        ∃ compiled, compileClass environment scope constants other = .ok compiled) ∧
      (rulesOfClass environment scope constants names block).toOption =
        (rulesOfClass environment scope constants names other).toOption := by
  have agree : Agree AlikeClasses (compileClass environment scope constants block)
      (compileClass environment scope constants other) :=
    agree_compileClass sameName hasParts hasOthers reorders
  refine ⟨agree.isOk_iff, Agree.toOption_eq ?_⟩
  apply agree.bind
  intro left right alike
  rw [alike.classRules_eq names]
  exact .refl _

set_option maxRecDepth 100000 in
/-- A typography preset that takes a fragment with a screen block, next to a block of a state. -/
theorem rulesOfClass_of_reorders_preset :
    let card : Style :=
      { base := .single "padding" "1px"
        screens := [{ query := "(min-width:9px)", properties := .single "width" "3px" }] }
    let environment : Environment :=
      { context := .rule
        theme :=
          { typography := .ofTexts [("t", "w[2px] card[x]")]
            defines := .single "card" (.single "x" card) } }
    let constants : Constants := .single "k" card
    let block : ClassBlock :=
      { name := "a", body := "@use k\n--&tone[red] ty[t]\nhover($bg[blue] c[--&tone]) h[1px]" }
    let other : ClassBlock :=
      { name := "a", body := "--&tone[red] hover($bg[blue] c[--&tone])\nty[t]\n@use k\nh[1px]" }
    let found : List Text := ["--&tone[red]", "ty[t]", "hover($bg[blue] c[--&tone])", "h[1px]"]
    let reordered : List Text := ["--&tone[red]", "hover($bg[blue] c[--&tone])", "ty[t]", "h[1px]"]
    (Query.HasParts block.body ["k"] found [] ∧ Query.HasParts other.body ["k"] reordered [] ∧
        environment.Reorders found reordered) ∧
      (rulesOfClass environment "s" constants ∅ block).toOption.isSome = true ∧
      (rulesOfClass environment "s" constants ∅ block).toOption =
        (rulesOfClass environment "s" constants ∅ other).toOption := by
  intro card environment constants block other found reordered
  have hasParts : Query.HasParts block.body ["k"] found [] :=
    ⟨_, QueryTree.parse_of_noQuery (by decide +kernel), by decide +kernel, by decide +kernel⟩
  have hasOthers : Query.HasParts other.body ["k"] reordered [] :=
    ⟨_, QueryTree.parse_of_noQuery (by decide +kernel), by decide +kernel, by decide +kernel⟩
  have onlyCard : ∀ {named : Declaration} {fragment : Style},
      environment.NamesFragment named fragment → fragment = card := by
    intro named fragment names
    obtain ⟨variant, _, isFragment⟩ := names.isFragment
    obtain ⟨group, isGroup, isFragment⟩ := Option.bind_eq_some_iff.mp isFragment
    rw [OrderedMap.get?_single] at isGroup
    split at isGroup
    · cases isGroup
      rw [OrderedMap.get?_single] at isFragment
      split at isFragment
      · exact (Option.some.inj isFragment).symm
      · simp at isFragment
    · simp at isGroup
  have reorders : environment.Reorders found reordered := by
    have parsed : Declaration.parse "ty[t]" = .ok ⟨.plain, "ty", "t", false⟩ := by decide +kernel
    refine .cons _ (@Environment.Reorders.swap _ _ _ _ .states parsed ?_ ?_ _)
    · intro fragment takes
      have isCard : fragment = card := by
        cases takes with
        | named names => exact onlyCard names
        | preset _ _ _ _ _ _ names => exact onlyCard names
      rw [isCard]
      rfl
    · exact ⟨"hover", "$bg[blue] c[--&tone]", by decide +kernel, by decide +kernel⟩
  have same := (@rulesOfClass_of_reorders environment block other rfl _ found reordered _ hasParts
    hasOthers reorders "s" constants ∅).2
  exact ⟨⟨hasParts, hasOthers, reorders⟩, by decide +kernel, same⟩

end Source

set_option maxRecDepth 100000 in
/-- A typography preset that takes a fragment with a block: whichever of the two blocks stands last
decides. -/
theorem compile_swapped_preset :
    let texts : Theme.Texts :=
      { typography := [("t", "card[x]")]
        defines := [("card", [("x", "hover(bg[red])")])] }
    ∃ theme, Theme.ofTexts texts = .ok theme ∧
      compile theme ".a \x7b ty[t] hover(bg[blue]) \x7d" =
        .ok ".a:hover\x7bbackground-color:blue;\x7d" ∧
      compile theme ".a \x7b hover(bg[blue]) ty[t] \x7d" =
        .ok ".a:hover\x7bbackground-color:red;\x7d" := by
  intro texts
  have evaluates : (do
      let theme ← Theme.ofTexts texts
      let inOrder ← compile theme ".a \x7b ty[t] hover(bg[blue]) \x7d"
      let swapped ← compile theme ".a \x7b hover(bg[blue]) ty[t] \x7d"
      return (inOrder, swapped) : Except Error (Text × Text)) =
      .ok (".a:hover\x7bbackground-color:blue;\x7d", ".a:hover\x7bbackground-color:red;\x7d") := by
    repeat rw [Text.ofString_ofList]
    decide +kernel
  simp only [bind_eq_ok, pure, Except.pure, Except.ok.injEq, Prod.mk.injEq] at evaluates
  obtain ⟨theme, built, _, inOrder, _, swapped, rfl, rfl⟩ := evaluates
  exact ⟨theme, built, inOrder, swapped⟩

end TerseStyle

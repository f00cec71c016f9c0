import TerseStyle.Proofs.Declared

/-!
# Constants are inlined

A constant is compiled on its own, and a class or query that uses it takes over the resulting
fragment. This comes to the same as writing the statements of the constant in its place. There are
two reasons. A constant may say less than a class or query: what it may say, it says in the same
words there (`contribution_widen`). And it declares no variables, so that sharing the fragment drops
nothing but blocks without a variable (`Contribution.variableFree`). The rest is associativity.
-/

namespace TerseStyle

/-! ## Blocks without variables -/

/-- The blocks that have properties. -/
def Blocks.compact (blocks : Blocks) : Blocks :=
  ⟨blocks.entries.filter fun block => !block.2.isEmpty,
    blocks.distinct.sublist (List.filter_sublist.map Prod.fst)⟩

/-- The pending variables without the blocks that have none. -/
def Pending.compact (pending : Pending) : Pending where
  base := pending.base
  states := pending.states.compact
  elements := pending.elements.compact
  containers := pending.containers.compact

/-- The style without the entries of pending blocks that have no variable. -/
def Style.compact (style : Style) : Style :=
  { style with pending := style.pending.compact }

namespace Blocks

/-- An empty block is not seen after compaction, whether it is new or not. -/
theorem compact_insertWith (name : Text) (blocks : Blocks) :
    compact (blocks.insertWith OrderedMap.merge name ∅) = compact blocks := by
  obtain ⟨entries, distinct⟩ := blocks
  apply OrderedMap.ext
  simp only [compact, OrderedMap.insertWith]
  clear distinct
  induction entries with
  | nil => rfl
  | cons entry rest ih =>
      obtain ⟨present, properties⟩ := entry
      simp only [OrderedMap.insertEntry]
      split
      · rfl
      · rw [List.filter_cons, List.filter_cons, ih]

theorem compact_append {left right : Blocks}
    (noProperties : ∀ block ∈ right.entries, block.2 = ∅) :
    (Blocks.append left right).compact = left.compact := by
  simp only [append, OrderedMap.mergeWith]
  generalize right.entries = entries at noProperties
  induction entries generalizing left with
  | nil => rfl
  | cons block rest ih =>
      obtain ⟨name, properties⟩ := block
      rw [List.forall_mem_cons] at noProperties
      rw [List.foldl_cons, ih noProperties.2, noProperties.1,
        compact_insertWith]

end Blocks

namespace Pending

theorem compact_append {left right : Pending} (noVariable : right.isEmpty = true) :
    (left.append right).compact = left.compact := by
  obtain ⟨base, states, elements, containers⟩ := isEmpty_iff.mp noVariable
  simp only [compact, append, base, OrderedMap.merge_empty, Blocks.compact_append states,
    Blocks.compact_append elements, Blocks.compact_append containers]

end Pending

theorem Style.VariableFree.compact_append {fragment : Style} (free : fragment.VariableFree)
    (style : Style) : (style ++ fragment).compact = (style.merge fragment).compact := by
  apply Style.ext
  all_goals simp [compact, merge, shared, free.rootVariables, free.localVariables, free.hasRuntime]
  exact Pending.compact_append free.pending

/-! ## Saying it in a class or query -/

namespace Environment

variable {ω : Type} [EmptyCollection ω] [Append ω] {environment : Environment} {target : Target ω}
  {locals? : Option (LocalScope ω)} {context : Context} {statement : Text}
  {declaration : Declaration}

theorem refusesImportance_widen (wider : context = .rule ∨ context = .query) :
    { environment with context }.refusesImportance declaration = false := by
  rcases wider with rfl | rfl <;> simp [refusesImportance, Context.allowsImportance]

section

variable (isConstant : environment.context = .constant) (wider : context = .rule ∨ context = .query)

include isConstant wider

theorem resolveValue_widen (value : Text) :
    { environment with context }.resolveValue { target with locals? } statement value =
      environment.resolveValue target statement value := by
  rcases wider with rfl | rfl <;>
    simp [resolveValue, isConstant, Context.allowsLocalReferences]

theorem basic_widen :
    { environment with context }.basic { target with locals? } statement declaration =
      environment.basic target statement declaration := by
  have sameValue : ∀ value,
      { environment with context }.resolveValue { target with locals? } statement value =
        environment.resolveValue target statement value :=
    resolveValue_widen isConstant wider
  unfold basic
  split
  · simp only [custom, sameValue]
  · split
    · simp only [setProperties, sameValue]
      rfl
    · rfl

theorem usePreset_widen
    (succeeded : (environment.usePreset target statement declaration).result = .ok ()) :
    { environment with context }.usePreset { target with locals? } statement declaration =
      environment.usePreset target statement declaration := by
  unfold usePreset at succeeded ⊢
  cases isPreset : environment.theme.typography.value? (Text.trim declaration.value) with
  | none => simp [isPreset, Draft.fail] at succeeded
  | some preset =>
      simp only [isPreset] at succeeded ⊢
      apply Draft.andThen_congr_of_ok succeeded
      intro tokens _ ended
      apply Draft.forEach_congr_of_ok ended
      intro token _ ended
      apply Draft.andThen_congr_of_ok ended
      intro parsed _ ended
      split at ended
      · simp [Draft.fail] at ended
      · next supported =>
        rw [if_neg supported, if_neg supported]
        simp only at ended ⊢
        split at ended
        · simp [Draft.fail] at ended
        · next accepted =>
          rw [if_neg accepted, refusesImportance_widen wider, if_neg Bool.false_ne_true]
          exact basic_widen isConstant wider

theorem declare_widen (target : Target ω) (locals? : Option (LocalScope ω))
    (succeeded : (environment.declare target statement declaration).result = .ok ()) :
    { environment with context }.declare { target with locals? } statement declaration =
      environment.declare target statement declaration := by
  unfold declare at succeeded ⊢
  split at succeeded
  · simp [Draft.fail] at succeeded
  · next accepted =>
    rw [if_neg accepted, refusesImportance_widen wider, if_neg Bool.false_ne_true]
    split at succeeded
    · simp [declareLocal, isConstant, Context.allowsLocalDeclarations, Draft.fail] at succeeded
    · simp [declareRuntime, isConstant, Context.allowsRuntime, Draft.fail] at succeeded
    · exact basic_widen isConstant wider
    · split at succeeded
      · next isPreset =>
        rw [if_pos isPreset, if_pos isPreset]
        exact usePreset_widen isConstant wider succeeded
      · next isPreset =>
        rw [if_neg isPreset, if_neg isPreset]
        exact basic_widen isConstant wider

end

section

variable {isDeclared isDeclaredThere : Text → Bool} (isConstant : environment.context = .constant)
  (wider : context = .rule ∨ context = .query)

include isConstant wider

theorem blockBody_widen {target : Target Body} {inside : Text}
    (succeeded : (environment.blockBody target inside).result = .ok ()) :
    { environment with context }.blockBody target inside = environment.blockBody target inside := by
  apply Draft.andThen_congr_of_ok succeeded
  intro tokens _ ended
  apply Draft.forEach_congr_of_ok ended
  intro token _ ended
  unfold blockToken at ended ⊢
  split at ended
  · simp [Draft.fail] at ended
  · next notBlock =>
    rw [if_neg notBlock, if_neg notBlock]
    apply Draft.andThen_congr_of_ok ended
    intro declaration _ ended
    exact declare_widen isConstant wider target target.locals? ended

theorem flat_widen (succeeded : (environment.flat isDeclared statement).result = .ok ()) :
    { environment with context }.flat isDeclaredThere statement =
      environment.flat isDeclared statement := by
  apply Draft.andThen_congr_of_ok succeeded
  intro declaration _ ended
  exact declare_widen isConstant wider (.topLevel isDeclared)
    (Target.topLevel isDeclaredThere).locals? ended

theorem slotted_widen {slot : Slot} {inside : Text}
    (succeeded : (environment.slotted slot inside).result = .ok ()) :
    { environment with context }.slotted slot inside = environment.slotted slot inside := by
  simp only [slotted] at succeeded ⊢
  rw [blockBody_widen isConstant wider succeeded]

theorem conditional_widen {kind : Condition} {inside : Text}
    (succeeded : (environment.conditional kind statement inside).result = .ok ()) :
    { environment with context }.conditional kind statement inside =
      environment.conditional kind statement inside := by
  apply Draft.andThen_congr_of_ok succeeded
  rintro (_ | ⟨condition, body⟩) _ ended
  · simp [Draft.fail] at ended
  · apply Draft.andThen_congr_of_ok ended
    intro query _ ended
    simp only at ended ⊢
    split at ended
    · simp at ended
    · next read => rw [blockBody_widen isConstant wider read, read]

/-- What a statement of a constant contributes, it contributes to a class or query as well. -/
theorem contribution_widen
    (succeeded : (environment.contribution isDeclared statement).result = .ok ()) :
    { environment with context }.contribution isDeclaredThere statement =
      environment.contribution isDeclared statement := by
  have allowsBlocks : context.allowsBlocks = true := by
    rcases wider with rfl | rfl <;> rfl
  have allowedBlocks : environment.context.allowsBlocks = true := by
    rw [isConstant]
    rfl
  unfold contribution at succeeded ⊢
  split at succeeded
  · rfl
  · simp [Draft.fail] at succeeded
  · cases parts : blockParts? (Text.trim statement) with
    | none =>
        simp only [parts] at succeeded ⊢
        exact flat_widen isConstant wider succeeded
    | some block =>
        obtain ⟨head, inside⟩ := block
        simp only [parts, allowsBlocks, allowedBlocks, Bool.not_true, Bool.false_eq_true,
          if_false, block?] at succeeded ⊢
        cases isSlot : Slot.ofHead? head with
        | some slot =>
            simp only [isSlot, Option.getD_some] at succeeded ⊢
            exact slotted_widen isConstant wider succeeded
        | none =>
            cases isCondition : Condition.ofHead? head with
            | none =>
                simp only [isSlot, isCondition, Option.map_none, Option.getD_none] at succeeded ⊢
                exact flat_widen isConstant wider succeeded
            | some kind =>
                simp only [isSlot, isCondition, Option.map_some, Option.getD_some] at succeeded ⊢
                exact conditional_widen isConstant wider succeeded

end

end Environment

/-! ## Statements in the place of a constant -/

namespace Style

variable {environment : Environment} {context : Context} {statements : List Text}

/-- The statements of a constant add the same style wherever they are read, and no variable. -/
theorem exists_append_of_dispatchAll (isConstant : environment.context = .constant)
    (wider : context = .rule ∨ context = .query) {start fragment : Style}
    (compiles : start.dispatchAll environment statements = { state := fragment }) :
    ∃ added : Style, fragment = start ++ added ∧ added.VariableFree ∧
      ∀ style : Style,
        style.dispatchAll { environment with context } statements =
        { state := style ++ added } := by
  induction statements generalizing start with
  | nil =>
      refine ⟨∅, ?_, variableFree_empty, ?_⟩
      · rw [append_empty]
        simpa [dispatchAll, Attempt.forEach] using compiles.symm
      · intro style
        rw [append_empty]
        rfl
  | cons statement rest ih =>
      let draft := environment.contribution start.localVariables.contains statement
      have ended : draft.result = .ok () := result_of_dispatchAll_cons (by rw [compiles])
      have goesOn : ∀ {other : Environment} {style : Style},
          other.contribution style.localVariables.contains statement = draft →
          style.dispatchAll other (statement :: rest) =
            (style ++ draft.written).dispatchAll other rest := by
        intro other style same
        rw [dispatchAll_cons (same ▸ ended), same]
      rw [goesOn rfl] at compiles
      obtain ⟨added, isSum, free, adds⟩ := ih compiles
      refine ⟨draft.written ++ added, ?_, ?_, ?_⟩
      · rw [isSum, append_assoc]
      · have ofStatement : draft.written.VariableFree :=
          (Environment.contribution_of_statement _).variableFree (by rw [isConstant]; rfl)
            (by rw [isConstant]; rfl)
        exact ofStatement.append free
      · intro style
        rw [goesOn (Environment.contribution_widen isConstant wider ended), adds, append_assoc]

/-- Using a constant is writing its statements in its place: statements that make up a fragment when
they are compiled as a constant can be read by any class or query, and lead to the style that uses
the fragment, but for pending blocks that have no variable. -/
theorem dispatchAll_eq_merge {theme : Theme} {keyframes : OrderedMap Text Text} {fragment : Style}
    (compiles : (∅ : Style).dispatchAll { context := .constant, theme, keyframes } statements =
      { state := fragment })
    (inClassOrQuery : context = .rule ∨ context = .query) (style : Style) :
    (style.dispatchAll { context, theme, keyframes } statements).failure = none ∧
      (style.dispatchAll { context, theme, keyframes } statements).state.compact =
        (style.merge fragment).compact := by
  obtain ⟨added, isSum, free, adds⟩ := exists_append_of_dispatchAll rfl inClassOrQuery compiles
  rw [empty_append] at isSum
  subst isSum
  rw [adds style]
  exact ⟨rfl, free.compact_append style⟩

theorem dispatchAll_eq_merge_toned :
    let statements : List Text := ["bg[red]", "hover(c[--&tone])", "screen(min-w[40em], p[2px])"]
    let fragment : Style :=
      { base := .single "background-color" "red"
        states := .single "hover" (.single "color" (Reference.localVariable "tone").render)
        screens := [{ query := "(min-width:40em)", properties := .single "padding" "2px" }]
        usedLocals := .single "tone" ()
        pending := { states := .single "hover" ∅ } }
    let style : Style := { base := .single "background-color" "blue" }
    (∅ : Style).dispatchAll { context := .constant } statements = { state := fragment } ∧
      (style.dispatchAll { context := .rule } statements).failure = none ∧
      (style.dispatchAll { context := .rule } statements).state.compact =
        (style.merge fragment).compact := by
  intro statements fragment style
  have compiles : (∅ : Style).dispatchAll { context := .constant } statements =
      { state := fragment } := by
    decide +kernel
  exact ⟨compiles, dispatchAll_eq_merge compiles (Or.inl rfl) style⟩

end Style

end TerseStyle

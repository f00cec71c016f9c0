import TerseStyle.Proofs.Section

/-!
# Names of the runtime variables of a source

The final name of a runtime variable joins its abbreviation, the scope and its owner: a class, a
block of a class, or a step of a keyframe. An abbreviation contains no underscore, and one stands
after the scope, so abbreviation and owner can be read off the name again, whatever the scope is
(`Naming.ofOwner_eq_iff`). Hence two runtime variables of a source share a name exactly if they
share the abbreviation and their owners are written alike, as the block `hover` of a class `a` and
the class `a-hover` are (`Source.final_eq_iff_of_compile`).
-/

namespace TerseStyle

namespace Naming

variable {scope left right first second : Text}

/-- A text without underscores cannot be put before a scope and its underscore. -/
theorem scoped_ne_append {front : Text} (nonempty : front ≠ []) (noUnderscore : .char '_' ∉ front) :
    scope ++ .char '_' :: left ≠ front ++ (scope ++ .char '_' :: right) := by
  intro same
  -- The induction takes the front off the scope, as often as it fits.
  induction length : scope.length using Nat.strong_induction_on generalizing scope with
  | _ size ih =>
    rcases List.append_eq_append_iff.mp same with ⟨rest, isFront, isRest⟩ | ⟨rest, isScope, isRest⟩
    · rw [← List.append_assoc] at isRest
      cases isTurned : rest ++ scope with
      | nil =>
          rw [List.append_eq_nil_iff] at isTurned
          exact nonempty (by rw [isFront, isTurned.1, isTurned.2, List.append_nil])
      | cons c turned =>
          rw [isTurned, List.cons_append, List.cons.injEq] at isRest
          have inTurned : .char '_' ∈ rest ++ scope := by simp [isTurned, isRest.1]
          apply noUnderscore
          rw [isFront, List.mem_append, or_comm, ← List.mem_append]
          exact inTurned
    · have shorter : rest.length < size := by
        have positive := List.length_pos_of_ne_nil nonempty
        have parts := congrArg List.length isScope
        rw [List.length_append, length] at parts
        omega
      apply ih rest.length shorter _ rfl
      rw [← isRest, isScope, List.append_assoc]

/-- The name of a runtime variable with an abbreviation and an owner. -/
def ofOwner (abbreviation scope owner : Text) : Text :=
  "--" ++ abbreviation ++ "-" ++ (scope ++ "_" ++ owner)

theorem ofOwner_ne {rest : Text} (nonempty : rest ≠ []) (noUnderscore : CodePoint.char '_' ∉ rest) :
    ofOwner first scope left ≠ ofOwner (first ++ rest) scope right := by
  have underscore : ("_" : Text) = [.char '_'] := rfl
  have hyphen : ("-" : Text) = [.char '-'] := rfl
  intro same
  simp only [ofOwner, underscore, hyphen, List.append_assoc, List.append_cancel_left_eq,
    List.singleton_append] at same
  cases rest with
  | nil => exact nonempty rfl
  | cons c rest =>
      rw [List.cons_append, List.cons.injEq, List.append_cons rest] at same
      have noneBefore : CodePoint.char '_' ∉ rest ++ [CodePoint.char '-'] := by
        intro isChar
        rcases List.mem_append.mp isChar with inRest | isHyphen
        · exact noUnderscore (List.mem_cons_of_mem _ inRest)
        · exact absurd isHyphen (by decide)
      exact scoped_ne_append (by simp) noneBefore same.2

/-- Two texts that begin alike begin with the same word, if neither word goes on after the other. -/
theorem eq_of_append_eq (same : first ++ left = second ++ right)
    (notLonger : ∀ rest, second = first ++ rest → rest = [])
    (notShorter : ∀ rest, first = second ++ rest → rest = []) : first = second := by
  rcases List.append_eq_append_iff.mp same with ⟨rest, isLonger, _⟩ | ⟨rest, isLonger, _⟩
  · rw [isLonger, notLonger rest isLonger, List.append_nil]
  · rw [isLonger, notShorter rest isLonger, List.append_nil]

/-- Abbreviation and owner can be read off a name. -/
theorem ofOwner_eq_iff (isFirst : Vocabulary.isWord first = true)
    (isSecond : Vocabulary.isWord second = true) :
    ofOwner first scope left = ofOwner second scope right ↔ first = second ∧ left = right := by
  have noUnderscore : ∀ {word rest : Text}, Vocabulary.isWord (word ++ rest) = true →
      .char '_' ∉ rest := fun isWord isChar =>
    (Vocabulary.isNameChar_of_isWord isWord _ (List.mem_append_right _ isChar)).2 rfl
  constructor
  · intro same
    have sameRest := same
    simp only [ofOwner, List.append_assoc, List.append_cancel_left_eq] at sameRest
    have isSame : first = second := by
      apply eq_of_append_eq sameRest
      · rintro rest rfl
        by_contra longer
        exact ofOwner_ne longer (noUnderscore isSecond) same
      · rintro rest rfl
        by_contra longer
        exact ofOwner_ne longer (noUnderscore isFirst) same.symm
    subst isSame
    exact ⟨rfl, by simpa [ofOwner] using same⟩
  · rintro ⟨rfl, rfl⟩
    rfl

end Naming

/-! ## Variables and their owners -/

/-- A runtime variable of a source. -/
inductive RuntimeVariable where
  /-- The variable of an abbreviation in a block of a class; the class itself is the empty block. -/
  | ofClass (name block abbreviation : Text)
  /-- The variable of an abbreviation in a step of a keyframe. -/
  | ofStep (keyframe label abbreviation : Text)
  deriving DecidableEq

namespace RuntimeVariable

/-- The abbreviation of the variable. -/
def abbreviation : RuntimeVariable → Text
  | ofClass _ _ abbreviation => abbreviation
  | ofStep _ _ abbreviation => abbreviation

/-- The class, block or step that the variable belongs to, as names spell it. -/
def owner : RuntimeVariable → Text
  | ofClass name block _ => if block.isEmpty then name else name ++ "-" ++ block
  | ofStep keyframe label _ => keyframe ++ "-" ++ Keyframe.baseLabel label

/-- The custom property of the variable in a source with the given scope. -/
def final (scope : Text) : RuntimeVariable → Text
  | ofClass name block abbreviation =>
    Naming.runtime abbreviation (Naming.final scope name) block
  | ofStep keyframe label abbreviation =>
    Naming.runtime abbreviation (Keyframe.stepDisplay (Naming.final scope keyframe) label) []

theorem final_eq_ofOwner {scope : Text} (hasScope : scope ≠ Naming.noScope)
    (runtime : RuntimeVariable) :
    runtime.final scope = Naming.ofOwner runtime.abbreviation scope runtime.owner := by
  cases runtime with
  | ofClass name block abbreviation =>
      simp only [final, owner, RuntimeVariable.abbreviation, Naming.runtime, Naming.final,
        if_neg hasScope, Naming.ofOwner]
      split <;> simp [List.append_assoc]
  | ofStep keyframe label abbreviation =>
      simp [final, owner, RuntimeVariable.abbreviation, Naming.runtime, Naming.final, hasScope,
        Naming.ofOwner, Keyframe.stepDisplay, List.append_assoc]

end RuntimeVariable

theorem Naming.runtime_eq_iff {scope : Text} (hasScope : scope ≠ noScope)
    {owner first second left right : Text} (isFirst : Vocabulary.isWord first = true)
    (isSecond : Vocabulary.isWord second = true) :
    runtime first (final scope owner) left = runtime second (final scope owner) right ↔
      first = second ∧ left = right := by
  have sameOwner : (RuntimeVariable.ofClass owner left first).owner =
      (RuntimeVariable.ofClass owner right second).owner ↔ left = right := by
    simp only [RuntimeVariable.owner]
    cases left <;> cases right <;> simp
  change (RuntimeVariable.ofClass owner left first).final scope =
    (RuntimeVariable.ofClass owner right second).final scope ↔ _
  rw [RuntimeVariable.final_eq_ofOwner hasScope, RuntimeVariable.final_eq_ofOwner hasScope,
    ← sameOwner]
  exact ofOwner_eq_iff isFirst isSecond

/-! ## The variables of a style -/

/-- The style has runtime variables of known abbreviations only, and none of them has its final name
yet. -/
structure Style.Unnamed (style : Style) : Prop where
  isWord : ∀ {name block}, style.pending.declares name block = true →
    Vocabulary.isWord name = true
  rootVariables : style.rootVariables = ∅

namespace Style

theorem Unnamed.append {left right : Style} (ofLeft : left.Unnamed) (ofRight : right.Unnamed) :
    (left ++ right).Unnamed where
  isWord := by
    intro name block declared
    rw [pending_append, Pending.declares_append] at declared
    exact declared.elim ofLeft.isWord ofRight.isWord
  rootVariables := by
    rw [rootVariables_append, ofLeft.rootVariables, ofRight.rootVariables, OrderedMap.merge_empty]

theorem unnamed_of_noPending {style : Style} (noPending : style.pending = {})
    (noRoot : style.rootVariables = ∅) : style.Unnamed where
  isWord := by
    intro name block declared
    simp [noPending, Pending.declares_iff, Blocks.Has] at declared
  rootVariables := noRoot

theorem unnamed_empty : (∅ : Style).Unnamed := unnamed_of_noPending rfl rfl

/-- The style has no variables of blocks. -/
def HasFlatVariables (style : Style) : Prop :=
  ∀ name block, style.pending.declares name block = true → block = []

theorem HasFlatVariables.append {left right : Style} (ofLeft : left.HasFlatVariables)
    (ofRight : right.HasFlatVariables) : (left ++ right).HasFlatVariables := by
  intro name block declared
  rw [pending_append, Pending.declares_append] at declared
  exact declared.elim (ofLeft name block) (ofRight name block)

theorem hasFlatVariables_of_noPending {style : Style} (noPending : style.pending = {}) :
    style.HasFlatVariables := by
  intro name block declared
  simp [noPending, Pending.declares_iff, Blocks.Has] at declared

theorem declares_ofBody {body : Body} {name block : Text} :
    (ofBody body).pending.declares name block = true ↔ block = [] ∧ name ∈ body.defaults.keys := by
  simp [ofBody, Pending.declares_iff, Blocks.Has]

end Style

namespace Contributes

variable {environment : Environment}

theorem expand?_of_mem_defaults {label name : Text} {isElement takesRuntime : Bool} {body : Body}
    (contributes : Contributes environment (.insideBlock label name isElement takesRuntime) body) :
    ∀ abbreviation ∈ body.defaults.keys, (Abbreviation.expand? abbreviation).isSome := by
  induction contributes with
  | nothing => simp
  | both _ _ ofFirst ofSecond =>
      intro abbreviation isKey
      rw [Body.defaults_append, OrderedMap.mem_keys_merge] at isKey
      exact isKey.elim (ofFirst abbreviation) (ofSecond abbreviation)
  | properties => simp [Target.insideBlock, Body.ofProperties]
  | runtime _ _ expands => simp [Target.insideBlock, expands]
  | localVariable _ takesLocals => simp [Target.insideBlock] at takesLocals
  | fragment => simp [Target.insideBlock]

theorem isWord_of_mem_defaults {label name : Text} {isElement takesRuntime : Bool} {body : Body}
    (contributes : Contributes environment (.insideBlock label name isElement takesRuntime) body) :
    ∀ abbreviation ∈ body.defaults.keys, Vocabulary.isWord abbreviation = true := by
  intro abbreviation isKey
  obtain ⟨properties, expands⟩ :=
    Option.isSome_iff_exists.mp (contributes.expand?_of_mem_defaults abbreviation isKey)
  exact Abbreviation.isWord_of_expand? expands

/-- A flat declaration has variables of the element itself only. -/
theorem unnamed_topLevel {isDeclared : Text → Bool} {contribution : Style}
    (contributes : Contributes environment (.topLevel isDeclared) contribution) :
    contribution.Unnamed ∧ contribution.HasFlatVariables := by
  induction contributes with
  | nothing => exact ⟨Style.unnamed_empty, Style.hasFlatVariables_of_noPending rfl⟩
  | both _ _ ofFirst ofSecond => exact ⟨ofFirst.1.append ofSecond.1, ofFirst.2.append ofSecond.2⟩
  | properties =>
      exact ⟨Style.unnamed_of_noPending rfl rfl, Style.hasFlatVariables_of_noPending rfl⟩
  | @runtime name default properties important _ _ expands =>
      refine ⟨⟨?_, rfl⟩, ?_⟩
      · intro other block declared
        have isName : other = name := by simpa using (Style.declares_ofBody.mp declared).2
        rw [isName]
        exact Abbreviation.isWord_of_expand? expands
      · intro other block declared
        exact (Style.declares_ofBody.mp declared).1
  | localVariable _ takesLocals =>
      simp only [Target.topLevel, Option.some.injEq] at takesLocals
      rw [← takesLocals]
      exact ⟨Style.unnamed_of_noPending rfl rfl, Style.hasFlatVariables_of_noPending rfl⟩
  | @fragment _ _ fragment important _ _ =>
      cases important <;>
        exact ⟨Style.unnamed_of_noPending rfl rfl, Style.hasFlatVariables_of_noPending rfl⟩

end Contributes

theorem Contribution.unnamed {environment : Environment} {statement : Text} {contribution : Style}
    (contributes : Contribution environment statement contribution) : contribution.Unnamed := by
  cases contributes with
  | flat isDeclared contributes => exact contributes.unnamed_topLevel.1
  | @slotted head slot body isSlot contributes =>
      have areWords : ∀ name ∈ body.defaults.keys, Vocabulary.isWord name = true := by
        cases slot <;> exact contributes.isWord_of_mem_defaults
      refine ⟨?_, by cases slot <;> rfl⟩
      intro name block declared
      rcases List.any_eq_true.mp declared with ⟨⟨_, _, default⟩, isDefault, same⟩
      simp only [Bool.and_eq_true, beq_iff_eq] at same
      rw [← same.2]
      exact areWords _ (OrderedMap.mem_keys_of_mem (Slot.mem_defaults_place isDefault).2)
  | mentioned => exact Style.unnamed_of_noPending rfl rfl
  | @conditional kind =>
      cases kind <;> exact Style.unnamed_of_noPending rfl rfl

theorem Style.unnamed_dispatchLines (environment : Environment) (constants : Constants)
    (nested : Bool) (lines : List Text) :
    ((∅ : Style).dispatchLines environment constants nested lines).state.Unnamed := by
  apply dispatchLines_induction Unnamed
  · intro style fragment _ unnamed
    exact unnamed.append (unnamed_of_noPending rfl rfl)
  · intro style contribution statement _ unnamed contributes
    exact unnamed.append contributes.unnamed
  · exact unnamed_empty

namespace Environment

theorem contributes_of_noBlocks {environment : Environment}
    (noBlocks : environment.context.allowsBlocks = false) (isDeclared : Text → Bool)
    (statement : Text) :
    Contributes environment (.topLevel isDeclared)
      (environment.contribution isDeclared statement).written := by
  unfold contribution
  split
  · exact .nothing
  · exact .nothing
  · split
    · exact contributes_flat isDeclared _
    · rw [if_pos (by rw [noBlocks]; rfl)]
      exact .nothing

end Environment

theorem Style.unnamed_dispatchBody {environment : Environment}
    (noBlocks : environment.context.allowsBlocks = false) (body : Text) :
    ((∅ : Style).dispatchBody environment body).state.Unnamed ∧
      ((∅ : Style).dispatchBody environment body).state.HasFlatVariables := by
  have initial : (∅ : Style).Unnamed ∧ (∅ : Style).HasFlatVariables :=
    ⟨unnamed_empty, hasFlatVariables_of_noPending rfl⟩
  unfold dispatchBody
  split
  · exact initial
  · apply @Attempt.state_forEach _ _ (fun style : Style => style.Unnamed ∧ style.HasFlatVariables)
      _ _ _ _ initial
    intro statement _ style before
    have ofStatement := (Environment.contributes_of_noBlocks noBlocks
      style.localVariables.contains statement).unnamed_topLevel
    exact ⟨before.1.append ofStatement.1, before.2.append ofStatement.2⟩

/-! ## Naming the variables of a style -/

theorem Pending.declares_of_mem_defaults {pending : Pending} {name abbreviation default : Text}
    (isDefault : (name, abbreviation, default) ∈ pending.defaults) :
    pending.declares abbreviation name = true :=
  List.any_eq_true.mpr ⟨_, isDefault, by simp⟩

namespace Style

theorem rootVariables_changeValues (change : Text → Except Error Text) (style : Style) :
    (style.changeValues change).state.rootVariables = style.rootVariables := by
  have kept : ∀ {first : Attempt Style} {next : Style → Attempt Style},
      first.state.rootVariables = style.rootVariables →
      (∀ state, (next state).state.rootVariables = state.rootVariables) →
      (first.andThen next).state.rootVariables = style.rootVariables := by
    intro first next ofFirst ofNext
    unfold Attempt.andThen
    split
    · exact ofFirst
    · exact (ofNext _).trans ofFirst
  simp only [changeValues]
  iterate 6 refine kept ?_ fun _ => rfl
  rfl

theorem rootVariables_of_nameVariables {style named : Style} {display scope : Text}
    (noRoot : style.rootVariables = ∅)
    (names : style.nameVariables display scope = { state := named }) :
    named.rootVariables = style.pending.declarations display := by
  simp only [nameVariables] at names
  split at names
  · simp at names
  · split at names
    · rw [Attempt.mk.injEq] at names
      simp [← names.1, noRoot]
    · have kept := congrArg (fun attempt : Attempt Style => attempt.state.rootVariables) names
      simpa [rootVariables_changeValues, noRoot] using kept.symm

end Style

/-! ## The variables of a source -/

namespace Source

/-- The runtime variables of a class. -/
def classVariables (environment : Environment) (scope : Text) (constants : Constants)
    (block : ClassBlock) : Except Error (List RuntimeVariable) :=
  (readClass environment scope constants block).map fun read =>
    read.1.pending.defaults.map fun (name, abbreviation, _) =>
      .ofClass block.name name abbreviation

/-- The runtime variables of a step of a keyframe. -/
def stepVariables (environment : Environment) (keyframe statement : Text) :
    Except Error (List RuntimeVariable) :=
  (Keyframe.readStyle environment statement).map fun read =>
    read.2.pending.defaults.map fun (_, abbreviation, _) => .ofStep keyframe read.1 abbreviation

/-- The runtime variables of a keyframe. -/
def keyframeVariables (environment : Environment) (block : KeyframeBlock) :
    Except Error (List RuntimeVariable) := do
  let steps ← (← statements block.body).mapM (stepVariables environment block.name)
  return steps.flatten

/-- The runtime variables of a source. -/
def runtimeVariables (theme : Theme) (source : Source) : Except Error (List RuntimeVariable) := do
  let environment ← source.environment theme
  let constants ← compileConstants environment source.constants
  let ofClasses ← source.classes.mapM (classVariables environment source.scope constants)
  let ofKeyframes ← source.keyframes.mapM (keyframeVariables environment)
  return ofClasses.flatten ++ ofKeyframes.flatten

theorem unnamed_of_readClass {environment : Environment} {scope : Text} {constants : Constants}
    {block : ClassBlock} {style : Style} {queries : List QueryTree}
    (reads : readClass environment scope constants block = .ok (style, queries)) :
    style.Unnamed := by
  rw [readClass, bind_eq_ok] at reads
  rcases reads with ⟨⟨lines, forest⟩, _, reads⟩
  simp only [bind_eq_ok] at reads
  rcases reads with ⟨own, dispatches, _, _, _, _, same⟩
  rw [Attempt.toExcept_eq_ok] at dispatches
  simp only [pure, Except.pure, Except.ok.injEq, Prod.mk.injEq] at same
  have unnamed := Style.unnamed_dispatchLines environment constants false lines
  rwa [dispatches, same.1] at unnamed

theorem unnamed_of_readStyle {environment : Environment} {statement label : Text} {style : Style}
    (reads : Keyframe.readStyle environment statement = .ok (label, style)) :
    style.Unnamed ∧ style.HasFlatVariables := by
  rw [Keyframe.readStyle, bind_eq_ok] at reads
  rcases reads with ⟨⟨_, inside⟩, _, reads⟩
  simp only [bind_eq_ok] at reads
  rcases reads with ⟨own, dispatches, same⟩
  rw [Attempt.toExcept_eq_ok] at dispatches
  simp only [pure, Except.pure, Except.ok.injEq, Prod.mk.injEq] at same
  have noBlocks : Context.keyframe.allowsBlocks = false := rfl
  have unnamed := Style.unnamed_dispatchBody
    (show ({ environment with context := .keyframe } : Environment).context.allowsBlocks = false
      from noBlocks) inside
  rwa [dispatches, same.2] at unnamed

end Source

/-- The root element has the variable under its final name, in the section of its class or
keyframe. -/
def Compiled.Declares (compiled : Compiled) : RuntimeVariable → Prop
  | .ofClass name block abbreviation => ∃ item ∈ compiled.classes, item.name = name ∧
      (RuntimeVariable.ofClass name block abbreviation).final compiled.scope ∈
        item.style.rootVariables.keys
  | .ofStep name label abbreviation => ∃ keyframe ∈ compiled.keyframes, keyframe.name = name ∧
      (RuntimeVariable.ofStep name label abbreviation).final compiled.scope ∈
        keyframe.rootVariables.keys

namespace Source

variable {theme : Theme} {source : Source} {environment : Environment} {constants : Constants}
  {scope : Text}

theorem classVariables_of_compileClass {block : ClassBlock} {item : CompiledClass}
    (compiles : compileClass environment scope constants block = .ok item) :
    ∃ found, classVariables environment scope constants block = .ok found ∧
      ∀ runtime ∈ found, Vocabulary.isWord runtime.abbreviation = true ∧
        ∃ name abbreviation, runtime = .ofClass item.name name abbreviation ∧
          runtime.final scope ∈ item.style.rootVariables.keys := by
  rw [compileClass, bind_eq_ok] at compiles
  rcases compiles with ⟨⟨style, queries⟩, reads, compiles⟩
  simp only [bind_eq_ok, Attempt.toExcept_eq_ok, pure, Except.pure, Except.ok.injEq] at compiles
  rcases compiles with ⟨named, names, rfl⟩
  have unnamed := unnamed_of_readClass reads
  refine ⟨_, by rw [classVariables, reads]; rfl, ?_⟩
  intro runtime isVariable
  rcases List.mem_map.mp isVariable with ⟨⟨name, abbreviation, default⟩, isDefault, rfl⟩
  have declares := Pending.declares_of_mem_defaults isDefault
  refine ⟨unnamed.isWord declares, name, abbreviation, rfl, ?_⟩
  rw [Style.rootVariables_of_nameVariables unnamed.rootVariables names]
  exact Pending.mem_keys_declarations declares _

theorem scope_of_assemble {compiled : Compiled} (assembles : source.assemble theme = .ok compiled) :
    compiled.scope = source.scope := by
  rw [assemble] at assembles
  simp only [bind_eq_ok, pure, Except.pure, Except.ok.injEq] at assembles
  rcases assembles with ⟨_, _, _, _, _, _, _, _, _, _, _, _, rfl⟩
  rfl

theorem eq_final_of_finalNames {blocks : List KeyframeBlock} {names : OrderedMap Text Text}
    (makes : Keyframe.finalNames scope blocks = .ok names) {name final : Text}
    (found : names.get? name = some final) : final = Naming.final scope name := by
  rw [Keyframe.eq_ofList_of_finalNames makes, OrderedMap.get?_eq_some_iff] at found
  rcases List.mem_map.mp (OrderedMap.mem_entries_ofList found) with ⟨block, _, rfl, rfl⟩
  rfl

theorem final_of_compile (isEnvironment : source.environment theme = .ok environment)
    (name : Text) :
    (environment.keyframes.get? name).getD (Naming.final source.scope name) =
      Naming.final source.scope name := by
  rw [Source.environment, bind_eq_ok] at isEnvironment
  rcases isEnvironment with ⟨_, _, isEnvironment⟩
  rw [bind_eq_ok] at isEnvironment
  rcases isEnvironment with ⟨names, makes, isEnvironment⟩
  simp only [pure, Except.pure, Except.ok.injEq] at isEnvironment
  rw [← isEnvironment]
  cases found : names.get? name with
  | none => rfl
  | some final => simpa [found] using eq_final_of_finalNames makes found

theorem stepVariables_of_compileStep {keyframe statement : Text} {step : KeyframeStep}
    {root : Properties}
    (compiles : Keyframe.compileStep environment scope (Naming.final scope keyframe) statement =
      .ok (step, root)) :
    ∃ found, stepVariables environment keyframe statement = .ok found ∧
      ∀ runtime ∈ found, Vocabulary.isWord runtime.abbreviation = true ∧
        ∃ label abbreviation, runtime = .ofStep keyframe label abbreviation ∧
          runtime.final scope ∈ root.keys := by
  rw [Keyframe.compileStep, bind_eq_ok] at compiles
  rcases compiles with ⟨⟨label, style⟩, reads, compiles⟩
  simp only [bind_eq_ok, Attempt.toExcept_eq_ok, pure, Except.pure, Except.ok.injEq,
    Prod.mk.injEq] at compiles
  rcases compiles with ⟨named, names, _, rfl⟩
  rcases unnamed_of_readStyle reads with ⟨unnamed, isFlat⟩
  refine ⟨_, by rw [stepVariables, reads]; rfl, ?_⟩
  intro runtime isVariable
  rcases List.mem_map.mp isVariable with ⟨⟨name, abbreviation, default⟩, isDefault, rfl⟩
  have declares := Pending.declares_of_mem_defaults isDefault
  refine ⟨unnamed.isWord declares, label, abbreviation, rfl, ?_⟩
  rw [Style.rootVariables_of_nameVariables unnamed.rootVariables names]
  rw [isFlat abbreviation name declares] at declares
  exact Pending.mem_keys_declarations declares _

theorem keyframeVariables_of_compile (isEnvironment : source.environment theme = .ok environment)
    {block : KeyframeBlock} {keyframe : Keyframe}
    (compiles : Keyframe.compile environment source.scope block = .ok keyframe) :
    ∃ found, keyframeVariables environment block = .ok found ∧
      ∀ runtime ∈ found, Vocabulary.isWord runtime.abbreviation = true ∧
        ∃ label abbreviation, runtime = .ofStep keyframe.name label abbreviation ∧
          runtime.final source.scope ∈ keyframe.rootVariables.keys := by
  rw [Keyframe.compile] at compiles
  simp only [bind_eq_ok, final_of_compile isEnvironment, pure, Except.pure,
    Except.ok.injEq] at compiles
  rcases compiles with ⟨tokens, cut, steps, compilesSteps, rfl⟩
  have ofStep : ∀ statement ∈ tokens, ∃ found,
      stepVariables environment block.name statement = .ok found := by
    intro statement isStep
    rcases exists_mem_of_mapM compilesSteps isStep with ⟨⟨step, root⟩, _, compilesStep⟩
    rcases stepVariables_of_compileStep compilesStep with ⟨found, isFound, _⟩
    exact ⟨found, isFound⟩
  rcases exists_mapM_eq_ok ofStep with ⟨lists, areFound⟩
  refine ⟨lists.flatten, ?_, ?_⟩
  · rw [keyframeVariables]
    simp only [cut, areFound, bind, Except.bind, pure, Except.pure]
  · intro runtime isVariable
    rcases List.mem_flatten.mp isVariable with ⟨list, isList, inList⟩
    rcases exists_of_mem_mapM areFound isList with ⟨statement, isStep, isFound⟩
    rcases exists_mem_of_mapM compilesSteps isStep with ⟨⟨step, root⟩, isCompiled, compilesStep⟩
    rcases stepVariables_of_compileStep compilesStep with ⟨found, isOwn, ofFound⟩
    rw [isFound, Except.ok.injEq] at isOwn
    rcases ofFound runtime (isOwn ▸ inList) with ⟨isWord, label, abbreviation, same, isKey⟩
    refine ⟨isWord, label, abbreviation, same, ?_⟩
    exact (OrderedMap.mem_keys_foldl_merge Prod.snd _ ∅).mpr (Or.inr ⟨_, isCompiled, isKey⟩)

/-- A source that compiles has a list of runtime variables, all declared under their final names. -/
theorem runtimeVariables_of_assemble {compiled : Compiled}
    (assembles : source.assemble theme = .ok compiled) :
    ∃ found, source.runtimeVariables theme = .ok found ∧
      ∀ runtime ∈ found, Vocabulary.isWord runtime.abbreviation = true ∧
        compiled.Declares runtime := by
  have sameScope : compiled.scope = source.scope := scope_of_assemble assembles
  rcases assemble_eq_ok assembles with
    ⟨environment, _, isEnvironment, areConstants, compilesClasses, compilesKeyframes, _⟩
  have ofClass : ∀ block ∈ source.classes, ∃ found,
      classVariables environment source.scope compiled.constants block = .ok found := by
    intro block isClass
    rcases exists_mem_of_mapM compilesClasses isClass with ⟨item, _, compiles⟩
    rcases classVariables_of_compileClass compiles with ⟨found, isFound, _⟩
    exact ⟨found, isFound⟩
  have ofKeyframe : ∀ block ∈ source.keyframes, ∃ found,
      keyframeVariables environment block = .ok found := by
    intro block isKeyframe
    rcases exists_mem_of_mapM compilesKeyframes isKeyframe with ⟨keyframe, _, compiles⟩
    rcases keyframeVariables_of_compile isEnvironment compiles with ⟨found, isFound, _⟩
    exact ⟨found, isFound⟩
  rcases exists_mapM_eq_ok ofClass with ⟨ofClasses, areOfClasses⟩
  rcases exists_mapM_eq_ok ofKeyframe with ⟨ofKeyframes, areOfKeyframes⟩
  refine ⟨ofClasses.flatten ++ ofKeyframes.flatten, ?_, ?_⟩
  · rw [runtimeVariables]
    simp only [isEnvironment, areConstants, areOfClasses, areOfKeyframes, bind, Except.bind, pure,
      Except.pure]
  · intro runtime isVariable
    rcases List.mem_append.mp isVariable with inClass | inKeyframe
    · rcases List.mem_flatten.mp inClass with ⟨list, isList, inList⟩
      rcases exists_of_mem_mapM areOfClasses isList with ⟨block, isClass, isFound⟩
      rcases exists_mem_of_mapM compilesClasses isClass with ⟨item, isItem, compiles⟩
      rcases classVariables_of_compileClass compiles with ⟨found, isOwn, ofFound⟩
      rw [isFound, Except.ok.injEq] at isOwn
      rcases ofFound runtime (isOwn ▸ inList) with ⟨isWord, name, abbreviation, rfl, isKey⟩
      exact ⟨isWord, item, isItem, rfl, sameScope ▸ isKey⟩
    · rcases List.mem_flatten.mp inKeyframe with ⟨list, isList, inList⟩
      rcases exists_of_mem_mapM areOfKeyframes isList with ⟨block, isKeyframe, isFound⟩
      rcases exists_mem_of_mapM compilesKeyframes isKeyframe with ⟨keyframe, isCompiled, compiles⟩
      rcases keyframeVariables_of_compile isEnvironment compiles with ⟨found, isOwn, ofFound⟩
      rw [isFound, Except.ok.injEq] at isOwn
      rcases ofFound runtime (isOwn ▸ inList) with ⟨isWord, label, abbreviation, rfl, isKey⟩
      exact ⟨isWord, keyframe, isCompiled, rfl, sameScope ▸ isKey⟩

/-- Two runtime variables of a compiled source have the same final name exactly if they have the
same abbreviation and owners that are written alike. -/
theorem final_eq_iff_of_compile {compiled : Compiled}
    (compiles : source.compile theme = .ok compiled)
    (hasScope : source.scope ≠ Naming.noScope) :
    ∃ found, source.runtimeVariables theme = .ok found ∧
      (∀ runtime ∈ found, compiled.Declares runtime) ∧
      ∀ first ∈ found, ∀ second ∈ found,
        (first.final source.scope = second.final source.scope ↔
          first.abbreviation = second.abbreviation ∧ first.owner = second.owner) := by
  rw [Source.compile, bind_eq_ok] at compiles
  rcases compiles with ⟨assembled, assembles, passes⟩
  simp only [bind_eq_ok, pure, Except.pure, Except.ok.injEq] at passes
  rcases passes with ⟨_, _, rfl⟩
  rcases runtimeVariables_of_assemble assembles with ⟨found, isFound, ofFound⟩
  refine ⟨found, isFound, fun runtime isVariable => (ofFound runtime isVariable).2, ?_⟩
  intro first isFirst second isSecond
  rw [first.final_eq_ofOwner hasScope, second.final_eq_ofOwner hasScope]
  exact Naming.ofOwner_eq_iff (ofFound first isFirst).1 (ofFound second isSecond).1

set_option maxRecDepth 100000 in
theorem final_ne_of_block_and_step :
    ∃ source compiled, Source.parse
        "@scope s\n@keyframe a \x7b from($bg[red]) \x7d\n.a \x7b $bg[red] hover($bg[red]) \x7d" =
          .ok source ∧
      source.compile {} = .ok compiled ∧ source.scope ≠ Naming.noScope ∧
      compiled.Declares (.ofClass "a" "hover" "bg") ∧ compiled.Declares (.ofStep "a" "from" "bg") ∧
      RuntimeVariable.final source.scope (.ofClass "a" "hover" "bg") ≠
        RuntimeVariable.final source.scope (.ofStep "a" "from" "bg") := by
  have evaluates : (do
      let source ← Source.parse
        "@scope s\n@keyframe a \x7b from($bg[red]) \x7d\n.a \x7b $bg[red] hover($bg[red]) \x7d"
      let _ ← source.compile {}
      return (source.scope, ← source.runtimeVariables {})) =
      .ok (("s" : Text), [.ofClass "a" [] "bg", .ofClass "a" "hover" "bg",
        .ofStep "a" "from" "bg"]) := by
    repeat rw [Text.ofString_ofList]
    decide +kernel
  rcases bind_eq_ok.mp evaluates with ⟨source, parses, evaluates⟩
  rcases bind_eq_ok.mp evaluates with ⟨compiled, compiles, evaluates⟩
  rcases bind_eq_ok.mp evaluates with ⟨listed, isListed, isPair⟩
  simp only [pure, Except.pure, Except.ok.injEq, Prod.mk.injEq] at isPair
  rcases isPair with ⟨isScope, rfl⟩
  have hasScope : source.scope ≠ Naming.noScope := by rw [isScope]; decide
  rcases final_eq_iff_of_compile compiles hasScope with ⟨found, isFound, declares, finalNames⟩
  rw [isListed, Except.ok.injEq] at isFound
  subst isFound
  refine ⟨source, compiled, parses, compiles, hasScope, declares _ (by simp), declares _ (by simp),
    fun same => ?_⟩
  exact absurd ((finalNames _ (by simp) _ (by simp)).mp same).2 (by decide)

set_option maxRecDepth 100000 in
/-- The variable of a block of a class is overridden by one of a class whose name ends in the name
of the block. -/
theorem final_eq_of_block_and_class :
    ∃ source compiled, Source.parse
        "@scope s\n.a \x7b hover($bg[red]) \x7d\n.a-hover \x7b $bg[blue] \x7d" = .ok source ∧
      source.compile {} = .ok compiled ∧ source.scope ≠ Naming.noScope ∧
      source.runtimeVariables {} = .ok [.ofClass "a" "hover" "bg", .ofClass "a-hover" [] "bg"] ∧
      RuntimeVariable.final source.scope (.ofClass "a" "hover" "bg") =
        RuntimeVariable.final source.scope (.ofClass "a-hover" [] "bg") := by
  have evaluates : (do
      let source ← Source.parse
        "@scope s\n.a \x7b hover($bg[red]) \x7d\n.a-hover \x7b $bg[blue] \x7d"
      let _ ← source.compile {}
      return (source.scope, ← source.runtimeVariables {})) =
      .ok (("s" : Text), [.ofClass "a" "hover" "bg", .ofClass "a-hover" [] "bg"]) := by
    repeat rw [Text.ofString_ofList]
    decide +kernel
  rcases bind_eq_ok.mp evaluates with ⟨source, parses, evaluates⟩
  rcases bind_eq_ok.mp evaluates with ⟨compiled, compiles, evaluates⟩
  rcases bind_eq_ok.mp evaluates with ⟨listed, isListed, isPair⟩
  simp only [pure, Except.pure, Except.ok.injEq, Prod.mk.injEq] at isPair
  rcases isPair with ⟨isScope, rfl⟩
  refine ⟨source, compiled, parses, compiles, ?_, isListed, ?_⟩
  · rw [isScope]
    decide
  · rw [isScope]
    decide

end Source

end TerseStyle

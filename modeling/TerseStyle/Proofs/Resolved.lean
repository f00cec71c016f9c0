import TerseStyle.Proofs.Safety
import TerseStyle.Proofs.Section

/-!
# No reference is left

A style sheet has the reserved characters of its conditions and no others: every other part of a
section is unmarked once references have their final form. Whether something that looks like a
reference is left is therefore decided by the conditions alone, and a condition gets a reserved
character only from a fragment of the theme. Everything else that can go wrong is a mistake of the
text.
-/

namespace TerseStyle

open Reference (Unmarked Within rewrite)

/-! ## Reserved characters -/

namespace Reference

/-- The reserved characters of a text. -/
def markers (text : Text) : Text :=
  text.filter fun c => c == opening || c == closing

@[simp]
theorem markers_append (left right : Text) :
    markers (left ++ right) = markers left ++ markers right :=
  List.filter_append left right

theorem markers_flatMap {α : Type} (items : List α) (part : α → Text) :
    markers (items.flatMap part) = items.flatMap fun item => markers (part item) := by
  induction items with
  | nil => rfl
  | cons item rest ih =>
      rw [List.flatMap_cons, markers_append, ih, List.flatMap_cons]

theorem markers_flatten (texts : List Text) : markers texts.flatten = texts.flatMap markers := by
  rw [← List.flatMap_id, markers_flatMap]
  rfl

theorem markers_eq_nil_iff {text : Text} : markers text = [] ↔ Unmarked text := by
  simp [markers, Text.MadeOf]

theorem leftover?_eq_none_iff {text : Text} :
    leftover? text = none ↔ closing ∉ text.dropWhile (· ≠ opening) := by
  unfold leftover?
  split
  · next nothing =>
    rw [nothing]
    simp
  · next first rest found =>
    have isOpening : first = opening := by
      have notDropped := List.head?_dropWhile_not (· ≠ opening) text
      rw [found] at notDropped
      simpa using notDropped
    have notClosing : closing ≠ first := by
      rw [isOpening]
      decide
    rw [found]
    simp [notClosing]

theorem leftover?_of_unmarked {text : Text} (unmarked : Unmarked text) : leftover? text = none := by
  rw [leftover?_eq_none_iff]
  intro isChar
  exact (unmarked closing ((List.dropWhile_sublist _).mem isChar)).2 rfl

/-- Whether something is left depends on the reserved characters alone. -/
theorem leftover?_eq_none_congr {left right : Text} (same : markers left = markers right) :
    leftover? left = none ↔ leftover? right = none := by
  have notOpening : closing ≠ opening := by decide
  have ofMarkers : ∀ text : Text,
      closing ∈ text.dropWhile (· ≠ opening) ↔
      closing ∈ (markers text).dropWhile (· ≠ opening) := by
    intro text
    induction text with
    | nil => rfl
    | cons c rest ih =>
        unfold markers at ih ⊢
        by_cases isOpening : c = opening
        · simp [isOpening]
        · by_cases isClosing : c = closing
          · simpa [List.dropWhile_cons, isClosing, notOpening] using ih
          · simpa [List.dropWhile_cons, isOpening, isClosing] using ih
  rw [leftover?_eq_none_iff, leftover?_eq_none_iff, not_iff_not, ofMarkers left, ofMarkers right, same]

end Reference

variable {style : Style} {display statement : Text} {environment : Environment}

theorem Style.Sound.safe_nameVariables (sound : style.Sound) (display scope : Text) :
    (style.nameVariables display scope).Safe := by
  rw [nameVariables_of_sound sound]
  split
  · rintro error same
    rw [← Option.some.inj same]
    nofun
  · nofun

/-! ## Rules -/

namespace Rule

/-- The rule has no reserved characters outside its condition. -/
structure UnmarkedInside (rule : Rule) : Prop where
  selector : Unmarked rule.selector
  declarations : ∀ entry ∈ rule.declarations.entries, Unmarked entry.1 ∧ Unmarked entry.2

theorem markers_enclose (head body : Text) :
    Reference.markers (enclose head body) = Reference.markers head ++ Reference.markers body := by
  have opens : Reference.markers "\x7b" = [] := by decide
  have closes : Reference.markers "\x7d" = [] := by decide
  simp [enclose, opens, closes]

theorem UnmarkedInside.markers_render {rule : Rule} (unmarked : rule.UnmarkedInside) :
    Reference.markers rule.render = Reference.markers (rule.wrapper.getD []) := by
  have inside :
      Reference.markers (enclose rule.selector (renderDeclarations rule.declarations)) = [] := by
    rw [Reference.markers_eq_nil_iff]
    exact madeOf_enclose (by decide) unmarked.selector
      (madeOf_renderDeclarations (by decide) unmarked.declarations)
  unfold render
  cases rule.wrapper with
  | none => exact inside
  | some wrapper => rw [markers_enclose, inside, List.append_nil, Option.getD_some]

theorem markers_renderRules {rules : List Rule} (unmarked : ∀ rule ∈ rules, rule.UnmarkedInside) :
    Reference.markers (renderRules rules) =
      Reference.markers (rules.flatMap fun rule => rule.wrapper.getD []) := by
  rw [renderRules, Reference.markers_flatMap, Reference.markers_flatMap]
  exact List.flatMap_congr fun rule isRule => (unmarked rule isRule).markers_render

end Rule

/-! ## Conditions -/

/-- The conditions of a style under which a rule is written. -/
def Style.conditions (style : Style) : List Text :=
  ((style.screens ++ style.containers).filter fun block => !block.properties.isEmpty).map
    Conditional.query

/-- The conditions of a class and of its queries. -/
def CompiledClass.conditions (item : CompiledClass) : List Text :=
  item.style.conditions ++ (QueryTree.preorder item.queries).flatMap fun query =>
    query.style.conditions

/-- The conditions of a style sheet as one text. -/
def Compiled.conditions (compiled : Compiled) : Text :=
  (compiled.classes.flatMap CompiledClass.conditions).flatten

namespace Style

theorem conditions_named (display : Text) (style : Style) :
    (style.named display).conditions = style.conditions := by
  simp [conditions, named, mapValues, List.filter_map, Function.comp_def, OrderedMap.isEmpty_map]

theorem markers_writtenRules (style : Style) (selector : Text) (own : Properties) :
    Reference.markers ((style.writtenRules selector own).flatMap fun rule => rule.wrapper.getD []) =
      Reference.markers style.conditions.flatten := by
  have plain : ∀ rules : List Rule, (∀ rule ∈ rules, rule.wrapper = none) →
      Reference.markers ((rules.filter fun rule => !rule.declarations.isEmpty).flatMap fun rule =>
        rule.wrapper.getD []) = [] := by
    intro rules noWrapper
    rw [Reference.markers_flatMap, List.flatMap_eq_nil_iff]
    intro rule isRule
    rw [noWrapper rule (List.mem_of_mem_filter isRule)]
    rfl
  have conditional : ∀ (head : Text) (blocks : List Conditional), Reference.markers head = [] →
      Reference.markers (((blocks.map fun block =>
        { wrapper := some (head ++ block.query), selector,
          declarations := block.properties : Rule }).filter
            fun rule => !rule.declarations.isEmpty).flatMap fun rule => rule.wrapper.getD []) =
      Reference.markers ((blocks.filter fun block => !block.properties.isEmpty).flatMap
        Conditional.query) := by
    intro head blocks unmarkedHead
    simp [List.filter_map, Function.comp_def, List.flatMap_map, Reference.markers_flatMap,
      unmarkedHead]
  simp only [writtenRules, placeRules, List.filter_append, List.flatMap_append,
    Reference.markers_append]
  rw [plain [_] (List.forall_mem_singleton.mpr rfl),
    plain (style.states.entries.map _) (List.forall_mem_map.mpr fun _ _ => rfl),
    plain (style.pluginStates.entries.map _) (List.forall_mem_map.mpr fun _ _ => rfl),
    plain (style.pluginContainers.entries.map _) (List.forall_mem_map.mpr fun _ _ => rfl),
    plain (style.elements.entries.map _) (List.forall_mem_map.mpr fun _ _ => rfl),
    conditional _ _ (by decide), conditional _ _ (by decide)]
  simp [conditions, List.flatMap_def]

end Style

/-! ## Sections -/

theorem Reference.Within.unmarked_rewrite_final {allowed : Reference → Prop} {text : Text}
    (within : Within allowed text) (noScope : ∀ name, ¬allowed (.scope name))
    (unmarkedDisplay : Unmarked display) :
    Unmarked (Reference.rewrite (Reference.final display) text) := by
  apply Within.unmarked
  apply within.rewrite
  intro reference isAllowed wellNamed
  apply Within.of_unmarked
  apply Reference.unmarked_final unmarkedDisplay wellNamed
  rintro name rfl
  exact noScope name isAllowed

theorem Style.Sound.unmarkedInside (sound : style.Sound) (unmarkedDisplay : Unmarked display)
    {selector : Text} (unmarkedSelector : Unmarked selector) {own : Properties}
    (ofOwn : ∀ entry ∈ own.entries, Unmarked entry.1 ∧ Within style.Covers entry.2) {rule : Rule}
    (isRule : rule ∈ style.writtenRules selector own) :
    (rule.mapValues (rewrite (Reference.final display))).UnmarkedInside where
  selector := (mem_writtenRules isRule).2.unmarked unmarkedSelector sound.labels
  declarations := by
    intro entry isEntry
    simp only [Rule.mapValues, OrderedMap.entries_map, List.mem_map] at isEntry
    obtain ⟨⟨name, value⟩, isWritten, rfl⟩ := isEntry
    have ofEntry : Unmarked name ∧ Within style.Covers value :=
      ((mem_writtenRules isRule).1 isWritten).elim (ofOwn _) sound.values
    exact ⟨ofEntry.1, ofEntry.2.unmarked_rewrite_final (fun _ => id) unmarkedDisplay⟩

theorem Style.Sound.unmarkedInside_pendingRules (sound : style.Sound)
    (unmarkedDisplay : Unmarked display) :
    ∀ rule ∈ style.pendingRules display, rule.UnmarkedInside := by
  intro rule isRule
  rw [pendingRules, rootRules] at isRule
  split at isRule
  · simp at isRule
  · have root : Unmarked (":root" : Text) := by decide
    rw [List.mem_singleton.mp isRule]
    exact ⟨root, fun entry => Pending.unmarked_declarations sound unmarkedDisplay⟩

namespace Source.WellRead

variable {style : Style} {queries : List QueryTree}

theorem unmarkedInside (wellRead : WellRead style queries) {display : Text}
    (unmarkedDisplay : Unmarked display) {selectors : List Text}
    (unmarkedSelectors : ∀ selector ∈ selectors, Unmarked selector) :
    ∀ rule ∈ (style.sectionRules display selectors queries).map
      (Rule.mapValues (rewrite (Reference.final display))), rule.UnmarkedInside := by
  rw [List.forall_mem_map]
  intro rule isRule
  rcases List.mem_append.mp isRule with isOwn | isPlaced
  · apply wellRead.sound.unmarkedInside unmarkedDisplay _ _ isOwn
    · exact Text.madeOf_append.mpr ⟨by decide, unmarkedDisplay⟩
    · intro entry isEntry
      exact (wellRead.sound.ownProperties isEntry).imp_left fun ofDisplay =>
        ofDisplay unmarkedDisplay
  · obtain ⟨⟨selector, query⟩, isPair, isQueryRule⟩ := List.mem_flatMap.mp isPlaced
    have settled := wellRead.settled query (List.of_mem_zip isPair).2
    apply settled.sound.unmarkedInside unmarkedDisplay _ _ isQueryRule
    · exact unmarkedSelectors selector (List.of_mem_zip isPair).1
    · exact fun entry isEntry => settled.sound.values (.base isEntry)

theorem markers_section (wellRead : WellRead style queries) {display : Text}
    (unmarkedDisplay : Unmarked display) {selectors : List Text}
    (unmarkedSelectors : ∀ selector ∈ selectors, Unmarked selector)
    (sameLength : selectors.length = (QueryTree.preorder queries).length) :
    Reference.markers (renderRules (style.pendingRules display ++
        (style.sectionRules display selectors queries).map
          (Rule.mapValues (rewrite (Reference.final display))))) =
      Reference.markers (style.conditions ++ (QueryTree.preorder queries).flatMap fun query =>
        query.style.conditions).flatten := by
  have noWrapper : (style.pendingRules display).flatMap (fun rule =>
      rule.wrapper.getD []) = [] := by
    unfold Style.pendingRules Style.rootRules
    split <;> rfl
  have ofQueries : Reference.markers ((QueryTree.placedRules selectors queries).flatMap fun rule =>
        rule.wrapper.getD []) =
      Reference.markers ((QueryTree.preorder queries).flatMap fun query =>
        query.style.conditions).flatten := by
    have areQueries : (selectors.zip (QueryTree.preorder queries)).map Prod.snd =
        QueryTree.preorder queries :=
      List.map_snd_zip (Nat.le_of_eq sameLength.symm)
    conv_rhs => rw [← areQueries, Reference.markers_flatten, List.flatMap_map, List.flatMap_assoc]
    rw [QueryTree.placedRules, List.flatMap_assoc, Reference.markers_flatMap]
    apply List.flatMap_congr
    rintro ⟨selector, query⟩ _
    rw [Style.markers_writtenRules, Reference.markers_flatten]
  rw [Rule.markers_renderRules, List.flatMap_append, noWrapper, List.nil_append, List.flatMap_map]
  · have sameWrappers : ((style.sectionRules display selectors queries).flatMap fun rule =>
        (Rule.mapValues (rewrite (Reference.final display)) rule).wrapper.getD []) =
        (style.sectionRules display selectors queries).flatMap fun rule =>
          rule.wrapper.getD [] := rfl
    rw [sameWrappers, Style.sectionRules, List.flatMap_append, Reference.markers_append,
      Style.markers_writtenRules, ofQueries, List.flatten_append, Reference.markers_append]
  · exact List.forall_mem_append.mpr ⟨wellRead.sound.unmarkedInside_pendingRules unmarkedDisplay,
      wellRead.unmarkedInside unmarkedDisplay unmarkedSelectors⟩

end Source.WellRead

/-! ## Keyframes -/

namespace Keyframe

theorem mem_of_readStyle {environment : Environment} {statement label : Text} {style : Style}
    (reads : readStyle environment statement = .ok (label, style)) :
    ∀ c ∈ label, c ∈ statement := by
  rw [readStyle] at reads
  simp only [bind_eq_ok, Prod.exists, pure, Except.pure, Except.ok.injEq, Prod.mk.injEq] at reads
  obtain ⟨_, inside, parsed, _, _, rfl, rfl⟩ := reads
  unfold parseStep at parsed
  split at parsed
  · simp at parsed
  · next isStep =>
    split at parsed
    · simp at parsed
    · split at parsed
      · simp at parsed
      · split at parsed
        · simp at parsed
        · cases parsed
          rw [readStep?_eq_some isStep]
          exact fun c => List.mem_append_left _

theorem unmarked_stepDisplay {final label : Text} (unmarkedFinal : Unmarked final)
    (unmarkedLabel : Unmarked label) : Unmarked (stepDisplay final label) := by
  have unmarkedBase : Unmarked (baseLabel label) :=
    unmarkedLabel.of_subset fun c => List.mem_of_mem_filter
  exact Style.unmarked_join unmarkedFinal (by decide) unmarkedBase

theorem mem_entries_foldl_merge {steps : List (KeyframeStep × Properties)} {declared : Properties}
    {entry : Text × Text}
    (isEntry : entry ∈ (steps.foldl (fun declared step =>
      declared.merge step.2) declared).entries) :
    entry ∈ declared.entries ∨ ∃ step ∈ steps, entry ∈ step.2.entries := by
  induction steps generalizing declared with
  | nil => exact Or.inl isEntry
  | cons step rest ih =>
      rcases ih isEntry with isMerged | ⟨later, isLater, inLater⟩
      · rcases OrderedMap.mem_entries_merge isMerged with isDeclared | inStep
        · exact Or.inl isDeclared
        · exact Or.inr ⟨step, List.mem_cons_self, inStep⟩
      · exact Or.inr ⟨later, List.mem_cons_of_mem _ isLater, inLater⟩

/-- A compiled keyframe is written without reserved characters. -/
theorem unmarked_render {environment : Environment} (soundTheme : environment.theme.Sound)
    (unmarkedNames : ∀ name ∈ environment.keyframes.values, Unmarked name) {scope : Text}
    (unmarkedScope : Unmarked scope) {block : KeyframeBlock}
    (unmarkedBlock : Unmarked block.name ∧ Unmarked block.body) {keyframe : Keyframe}
    (compiles : Keyframe.compile environment scope block = .ok keyframe) :
    Unmarked keyframe.render := by
  rw [Keyframe.compile] at compiles
  simp only [bind_eq_ok, pure, Except.pure, Except.ok.injEq] at compiles
  obtain ⟨tokens, scanned, steps, compilesSteps, rfl⟩ := compiles
  have unmarkedFinal :
      Unmarked ((environment.keyframes.get? block.name).getD (Naming.final scope block.name)) := by
    cases found : environment.keyframes.get? block.name with
    | none => exact Naming.madeOf_final (by decide) unmarkedScope unmarkedBlock.1
    | some final =>
        exact unmarkedNames final (List.mem_map_of_mem (OrderedMap.get?_eq_some_iff.mp found))
  -- Every step is unmarked, in its label, in its properties and in its variables.
  have ofStep : ∀ step ∈ steps, Unmarked step.1.label ∧
      (∀ entry ∈ step.1.properties.entries, Unmarked entry.1 ∧ Unmarked entry.2) ∧
      ∀ entry ∈ step.2.entries, Unmarked entry.1 ∧ Unmarked entry.2 := by
    rintro ⟨step, root⟩ isStep
    obtain ⟨token, isToken, compilesStep⟩ := exists_of_mem_mapM compilesSteps isStep
    obtain ⟨label, style, reads, wellRead, rfl, rfl⟩ :=
      exists_style_of_compileStep soundTheme compilesStep
    have unmarkedLabel : Unmarked label := by
      have withSpace : Unmarked (.char ' ' :: block.body) :=
        Text.madeOf_cons.mpr ⟨by decide, unmarkedBlock.2⟩
      apply withSpace.of_subset
      intro c isChar
      have inStatement := mem_of_mem_statements scanned isToken (mem_of_readStyle reads c isChar)
      simpa [or_comm] using inStatement
    have unmarkedDisplay := unmarked_stepDisplay unmarkedFinal unmarkedLabel
    refine ⟨unmarkedLabel, ?_, fun entry =>
      Pending.unmarked_declarations wellRead.sound unmarkedDisplay⟩
    intro entry isEntry
    simp only [OrderedMap.entries_map, List.mem_map] at isEntry
    obtain ⟨⟨name, value⟩, isWritten, rfl⟩ := isEntry
    obtain ⟨unmarkedName, within⟩ := wellRead.sound.values (.base isWritten)
    exact ⟨unmarkedName, within.unmarked_rewrite_final (fun _ => id) unmarkedDisplay⟩
  have unmarkedHead : Unmarked ("@keyframes " ++
      (environment.keyframes.get? block.name).getD (Naming.final scope block.name)) :=
    Text.madeOf_append.mpr ⟨by decide, unmarkedFinal⟩
  rw [render]
  simp only [Text.madeOf_append]
  constructor
  · split
    · exact Text.madeOf_nil
    · refine Rule.madeOf_enclose (by decide) (by decide) ?_
      refine Rule.madeOf_renderDeclarations (by decide) ?_
      intro entry isEntry
      rcases mem_entries_foldl_merge isEntry with inNothing | ⟨step, isStep, inStep⟩
      · simp at inNothing
      · exact (ofStep step isStep).2.2 entry inStep
  · refine Rule.madeOf_enclose (by decide) unmarkedHead ?_
    apply Text.MadeOf.flatMap
    intro step isStep
    obtain ⟨compiled, isCompiled, rfl⟩ := List.mem_map.mp isStep
    have ofCompiled := ofStep compiled isCompiled
    exact Rule.madeOf_enclose (by decide) ofCompiled.1
      (Rule.madeOf_renderDeclarations (by decide) ofCompiled.2.1)

end Keyframe

/-! ## The style sheet -/

namespace Source

variable {theme : Theme} {source : Source}

theorem unmarked_keyframes (markerFree : source.MarkerFree) {environment : Environment}
    (isEnvironment : source.environment theme = .ok environment) :
    ∀ name ∈ environment.keyframes.values, Unmarked name := by
  rw [Source.environment] at isEnvironment
  simp only [bind_eq_ok, pure, Except.pure, Except.ok.injEq] at isEnvironment
  obtain ⟨_, _, keyframes, areNames, rfl⟩ := isEnvironment
  have ofBlocks : ∀ block ∈ source.keyframes, Unmarked (Naming.final source.scope block.name) :=
    fun block isBlock =>
      Naming.madeOf_final (by decide) markerFree.scope (markerFree.keyframes block isBlock).1
  intro name isName
  obtain ⟨entry, isEntry, rfl⟩ := List.mem_map.mp isName
  rw [Keyframe.eq_ofList_of_finalNames areNames] at isEntry
  obtain ⟨block, isBlock, rfl⟩ := List.mem_map.mp (OrderedMap.mem_entries_ofList isEntry)
  exact ofBlocks block isBlock

/-- A style sheet has the reserved characters of its conditions and no others. -/
theorem markers_css (soundTheme : theme.Sound) (markerFree : source.MarkerFree)
    {compiled : Compiled} (assembles : source.assemble theme = .ok compiled) :
    Reference.markers compiled.css = Reference.markers compiled.conditions := by
  obtain ⟨environment, sections, isEnvironment, compilesConstants, compilesClasses,
    compilesKeyframes, makesSections, isCss⟩ := assemble_eq_ok assembles
  rw [← theme_of_environment isEnvironment] at soundTheme
  have soundConstants := sound_of_compileConstants soundTheme compilesConstants
  have ofKeyframes : Reference.markers (compiled.keyframes.flatMap Keyframe.render) = [] := by
    rw [Reference.markers_flatMap, List.flatMap_eq_nil_iff]
    intro keyframe isKeyframe
    obtain ⟨block, isBlock, compilesKeyframe⟩ := exists_of_mem_mapM compilesKeyframes isKeyframe
    rw [Reference.markers_eq_nil_iff]
    exact Keyframe.unmarked_render soundTheme (unmarked_keyframes markerFree isEnvironment)
      markerFree.scope (markerFree.keyframes block isBlock) compilesKeyframe
  have ofSections : List.Forall₂ (fun item rules =>
      (CompiledClass.conditions item).flatMap Reference.markers =
        Reference.markers (renderRules rules))
      compiled.classes sections := by
    apply forall₂_of_steps (List.forall₂_same.mpr fun item _ => rfl)
      (forall₂_of_mapM_eq_ok makesSections)
    rintro item isItem _ rules rfl makesRules
    obtain ⟨block, isBlock, compilesClass⟩ := exists_of_mem_mapM compilesClasses isItem
    have unmarkedBlock := markerFree.classes block isBlock
    have unmarkedDisplay := Naming.madeOf_final (by decide) markerFree.scope unmarkedBlock.1
    obtain ⟨style, queries, _, wellRead, rfl⟩ :=
      exists_style_of_compileClass soundTheme soundConstants unmarkedBlock.2 compilesClass
    obtain ⟨selectors, sameLength, unmarkedSelectors, isSection⟩ :=
      exists_selectors_of_classRules wellRead unmarkedDisplay
        (unmarked_classNames markerFree compilesClasses) makesRules
    rw [isSection, wellRead.markers_section unmarkedDisplay unmarkedSelectors sameLength,
      Reference.markers_flatten, CompiledClass.conditions, Style.conditions_named]
  rw [isCss, Reference.markers_append, ofKeyframes, List.nil_append, Reference.markers_flatMap,
    Compiled.conditions, Reference.markers_flatten, List.flatMap_assoc]
  clear makesSections isCss
  generalize compiled.classes = classes at ofSections ⊢
  induction ofSections with
  | nil => rfl
  | cons ofFirst _ ih =>
      rw [List.flatMap_cons, List.flatMap_cons, ofFirst, ih]

/-! ## Failures -/

theorem safe_compileClass {environment : Environment} (soundTheme : environment.theme.Sound)
    (textual : environment.theme.Textual) {constants : Constants} (soundConstants : constants.Sound)
    (scope : Text) {block : ClassBlock} (unmarkedBody : Unmarked block.body) :
    Safe (compileClass environment scope constants block) := by
  apply (safe_readClass textual scope constants block).bind
  rintro ⟨style, queries⟩ reads
  have wellRead := wellRead_of_readClass soundTheme soundConstants unmarkedBody reads
  exact (wellRead.sound.safe_nameVariables _ scope).toExcept.bind fun named _ => .ok _

/-- Assembling a source without reserved characters fails for a mistake of the text only. -/
theorem safe_assemble (soundTheme : theme.Sound) (textual : theme.Textual)
    (markerFree : source.MarkerFree) : Safe (source.assemble theme) := by
  apply (source.safe_environment theme).bind
  intro environment isEnvironment
  rw [← theme_of_environment isEnvironment] at soundTheme textual
  apply (safe_compileConstants textual source.constants).bind
  intro constants compilesConstants
  have soundConstants := sound_of_compileConstants soundTheme compilesConstants
  apply Safe.bind
  · apply Safe.mapM
    intro block isBlock
    exact safe_compileClass soundTheme textual soundConstants source.scope
      (markerFree.classes block isBlock).2
  intro classes _
  apply (safe_checkBindings _ _ _).bind
  intro _ _
  apply Safe.bind
  · apply Safe.mapM
    intro block _
    apply (safe_statements block.body).bind
    intro tokens _
    apply Safe.bind
    · apply Safe.mapM
      intro token _
      apply (Keyframe.safe_readStyle textual token).bind
      rintro ⟨label, style⟩ reads
      have wellRead := Keyframe.wellRead_of_readStyle soundTheme reads
      exact (wellRead.sound.safe_nameVariables _ source.scope).toExcept.bind fun named _ => .ok _
    · exact fun steps _ => .ok _
  intro keyframes _
  apply Safe.bind
  · apply Safe.mapM
    intro item _
    exact (QueryTree.safe_rules _ _ _).map
  · exact fun sections _ => .ok _

end Source

/-! ## Conditions without reserved characters -/

/-- The conditions of the style are unmarked. -/
def Style.HasPlainConditions (style : Style) : Prop :=
  ∀ block ∈ style.screens ++ style.containers, Unmarked block.query

/-- The conditions that a theme can bring into a style are unmarked. -/
structure Theme.HasPlainConditions (theme : Theme) : Prop where
  breakpoints : ∀ {name text}, theme.breakpoints.value? name = some (.string text) → Unmarked text
  fragments : ∀ {group variant fragment}, theme.fragment? group variant = some fragment →
    fragment.HasPlainConditions

namespace Style.HasPlainConditions

theorem append {left right : Style} (ofLeft : left.HasPlainConditions)
    (ofRight : right.HasPlainConditions) : (left ++ right).HasPlainConditions := by
  intro block isBlock
  exact (mem_conditionals_append isBlock).elim (ofLeft block) (ofRight block)

theorem of_noConditions {style : Style} (noScreens : style.screens = [])
    (noContainers : style.containers = []) : style.HasPlainConditions := by
  simp [HasPlainConditions, noScreens, noContainers]

theorem conditions {style : Style} (plain : style.HasPlainConditions) :
    ∀ condition ∈ style.conditions, Unmarked condition := by
  intro condition isCondition
  obtain ⟨block, isBlock, rfl⟩ := List.mem_map.mp isCondition
  exact plain block (List.mem_of_mem_filter isBlock)

end Style.HasPlainConditions

/-- A condition is made of a property and of characters of the text or of a breakpoint. -/
theorem Environment.unmarked_conditionQuery (plainTheme : environment.theme.HasPlainConditions)
    {kind : Condition} {written query : Text} (unmarked : Unmarked written)
    (isQuery : environment.conditionQuery kind statement written = .ok query) : Unmarked query := by
  unfold conditionQuery at isQuery
  simp only at isQuery
  split at isQuery
  · simp at isQuery
  · next condition isCondition =>
    have unmarkedCondition : Unmarked condition := by
      split at isCondition
      · simp only [Option.some.injEq, JsonValue.string, JsonValue.scalar.injEq,
          JsonScalar.string.injEq] at isCondition
        rw [← isCondition]
        exact unmarked.of_subset fun c => Text.mem_of_mem_trim
      · exact plainTheme.breakpoints isCondition
    split at isQuery
    · simp at isQuery
    · next declaration isDeclaration =>
      split at isQuery
      · next property _ expands _ =>
        rw [Except.ok.injEq] at isQuery
        have unmarkedProperty := Abbreviation.unmarked_of_expand? expands property
          List.mem_cons_self
        have unmarkedValue : Unmarked (Text.trim declaration.value) := by
          apply unmarkedCondition.of_subset
          intro c isChar
          exact Declaration.mem_of_read? isDeclaration c (Text.mem_of_mem_trim isChar)
        have separators : Unmarked ("(" : Text) ∧ Unmarked (":" : Text) ∧
            Unmarked (")" : Text) := by
          decide
        simp [← isQuery, separators, unmarkedProperty, unmarkedValue]
      · simp at isQuery
  · simp at isQuery

theorem Contributes.hasPlainConditions (plainTheme : environment.theme.HasPlainConditions)
    {isDeclared : Text → Bool} {contribution : Style}
    (contributes : Contributes environment (.topLevel isDeclared) contribution) :
    contribution.HasPlainConditions := by
  induction contributes with
  | nothing => exact .of_noConditions rfl rfl
  | both _ _ ofFirst ofSecond => exact ofFirst.append ofSecond
  | properties => exact .of_noConditions rfl rfl
  | runtime => exact .of_noConditions rfl rfl
  | localVariable _ takesLocals =>
      cases takesLocals
      exact .of_noConditions rfl rfl
  | @fragment _ _ fragment important _ isFragment =>
      have ofShared : fragment.shared.HasPlainConditions :=
        fun block isBlock => plainTheme.fragments isFragment block isBlock
      cases important with
      | false => exact ofShared
      | true => exact ofShared.append (.of_noConditions rfl rfl)

theorem Contribution.hasPlainConditions {contribution : Style}
    (contributes : Contribution environment statement contribution)
    (plainTheme : environment.theme.HasPlainConditions) (unmarked : Unmarked statement) :
    contribution.HasPlainConditions := by
  cases contributes with
  | flat _ contributes => exact contributes.hasPlainConditions plainTheme
  | @slotted _ slot _ _ _ => cases slot <;> exact .of_noConditions rfl rfl
  | mentioned _ => exact .of_noConditions rfl rfl
  | @conditional kind written query body _ fromStatement isQuery =>
      have unmarkedQuery : Unmarked query :=
        Environment.unmarked_conditionQuery plainTheme (unmarked.of_subset fromStatement) isQuery
      apply Style.HasPlainConditions.append (.of_noConditions rfl rfl)
      cases kind <;> simp [Condition.place, Style.HasPlainConditions, unmarkedQuery]

theorem Reference.unmarked_of_trim_statement {text : Text} (unmarked : Unmarked text)
    (fromText : ∀ c ∈ statement, c ∈ text ∨ c = .char ' ') : Unmarked (Text.trim statement) := by
  have withSpace : Unmarked (.char ' ' :: text) := Text.madeOf_cons.mpr ⟨by decide, unmarked⟩
  apply withSpace.of_subset
  intro c isChar
  rcases fromText c (Text.mem_of_mem_trim isChar) with inText | isSpace
  · exact List.mem_cons_of_mem _ inText
  · rw [isSpace]
    exact List.mem_cons_self

/-- A theme of unmarked conditions and unmarked fragments brings in unmarked conditions. -/
theorem Theme.hasPlainConditions_of_ofTexts {texts : Theme.Texts} {theme : Theme}
    (built : Theme.ofTexts texts = .ok theme)
    (unmarkedBreakpoints : ∀ entry ∈ texts.breakpoints, Unmarked entry.2)
    (unmarkedDefines : ∀ group ∈ texts.defines, ∀ entry ∈ group.2, Unmarked entry.2) :
    theme.HasPlainConditions := by
  have ofBreakpoints : ∀ {name text},
      texts.tables.breakpoints.value? name = some (.string text) → Unmarked text := by
    intro name text found
    obtain ⟨other, isEntry, same⟩ := Table.isText_of_ofTexts found
    simp only [JsonValue.string, JsonValue.scalar.injEq, JsonScalar.string.injEq] at same
    rw [same]
    exact unmarkedBreakpoints _ isEntry
  constructor
  case breakpoints =>
    rw [ofTexts, withGroups, bind_eq_ok] at built
    obtain ⟨_, _, isTheme⟩ := built
    simp only [pure, Except.pure, Except.ok.injEq] at isTheme
    rw [← isTheme]
    exact ofBreakpoints
  case fragments =>
    intro group variant fragment isFragment
    obtain ⟨fragments, isGroup, text, isText, compiles⟩ := exists_text_of_fragment? built isFragment
    have unmarkedText : Unmarked text := unmarkedDefines _ isGroup _ isText
    have plainTheme : ({ texts.tables with defines := ∅ } : Theme).HasPlainConditions :=
      ⟨ofBreakpoints, by simp [fragment?]⟩
    rw [Fragment.compileText, Attempt.toExcept_eq_ok] at compiles
    have isState : fragment = (Style.dispatchBody
        { context := .theme, theme := { texts.tables with defines := ∅ } } text ∅).state := by
      rw [compiles]
    rw [isState]
    apply Style.dispatchBody_induction Style.HasPlainConditions
    · intro style contribution statement fromText plain contributes
      exact plain.append (contributes.hasPlainConditions plainTheme
        (Reference.unmarked_of_trim_statement unmarkedText fromText))
    · exact .of_noConditions rfl rfl

/-- The conditions that constants bring into a style are unmarked. -/
def Constants.HavePlainConditions (constants : Constants) : Prop :=
  ∀ fragment ∈ constants.values, fragment.HasPlainConditions

namespace Style.HasPlainConditions

variable {environment : Environment} {constants : Constants}

theorem dispatchLines (plainTheme : environment.theme.HasPlainConditions)
    (plainConstants : constants.HavePlainConditions) {style : Style}
    (plain : style.HasPlainConditions)
    (nested : Bool) {lines : List Text} (unmarkedLines : ∀ line ∈ lines, Unmarked line) :
    (style.dispatchLines environment constants nested lines).state.HasPlainConditions := by
  apply dispatchLines_induction HasPlainConditions _ _ plain
  · intro style fragment isConstant plain
    exact plain.append fun block isBlock => plainConstants fragment isConstant block isBlock
  · intro style contribution statement fromLines plain contributes
    apply plain.append
    apply contributes.hasPlainConditions plainTheme
    have unmarked : Unmarked (.char '\n' :: lines.flatten) := by
      simp only [Text.madeOf_cons]
      refine ⟨by decide, ?_⟩
      intro c isChar
      obtain ⟨line, isLine, inLine⟩ := List.mem_flatten.mp isChar
      exact unmarkedLines line isLine c inLine
    apply Reference.unmarked_of_trim_statement unmarked
    intro c isChar
    exact (List.mem_cons.mp (fromLines c isChar)).symm

end Style.HasPlainConditions

namespace Source

theorem havePlainConditions_of_compileConstants {environment : Environment}
    (plainTheme : environment.theme.HasPlainConditions) {blocks : List ConstantBlock}
    (unmarkedBlocks : ∀ block ∈ blocks, ∀ statement ∈ block.statements, Unmarked statement)
    {constants : Constants} (compiles : compileConstants environment blocks = .ok constants) :
    constants.HavePlainConditions := by
  intro fragment isFragment
  obtain ⟨block, isBlock, isState⟩ := exists_block_of_compileConstants compiles isFragment
  rw [isState]
  apply Style.dispatchAll_induction Style.HasPlainConditions
  · intro style contribution statement isStatement plain contributes
    have unmarked : Unmarked (Text.trim statement) :=
      (unmarkedBlocks block isBlock statement isStatement).of_subset fun c => Text.mem_of_mem_trim
    exact plain.append (contributes.hasPlainConditions plainTheme unmarked)
  · exact .of_noConditions rfl rfl

/-- The conditions of a class and its queries are unmarked. -/
theorem hasPlainConditions_of_readClass {environment : Environment}
    (plainTheme : environment.theme.HasPlainConditions) {constants : Constants}
    (plainConstants : constants.HavePlainConditions) {scope : Text} {block : ClassBlock}
    (unmarkedBody : Unmarked block.body) {style : Style} {queries : List QueryTree}
    (reads : readClass environment scope constants block = .ok (style, queries)) :
    style.HasPlainConditions ∧
      QueryTree.Every (fun query => query.style.HasPlainConditions) queries := by
  rw [readClass] at reads
  simp only [bind_eq_ok, Prod.exists, Attempt.toExcept_eq_ok, pure, Except.pure, Except.ok.injEq,
    Prod.mk.injEq] at reads
  obtain ⟨lines, forest, parsed, own, dispatches, compiled, compiles, _, _, rfl, rfl⟩ := reads
  obtain ⟨unmarkedLines, fresh⟩ := QueryTree.fresh_of_parse unmarkedBody parsed
  have nothing : (∅ : Style).HasPlainConditions := .of_noConditions rfl rfl
  constructor
  · have plain := nothing.dispatchLines plainTheme plainConstants false unmarkedLines
    rwa [dispatches] at plain
  · have step : QueryTree.LinesLead environment constants QueryTree.Fresh
        fun _ style => style.HasPlainConditions := by
      intro selector lines style children ofQuery
      have isEmpty : style = ∅ := ofQuery.style
      have plainQueryTheme : { environment with context := .query }.theme.HasPlainConditions :=
        plainTheme
      rw [isEmpty]
      exact nothing.dispatchLines plainQueryTheme plainConstants true ofQuery.lines
    have everyPlain := QueryTree.every_compileForest step forest fresh (by rw [compiles])
    rwa [compiles] at everyPlain

/-- Under a theme of unmarked conditions the conditions of a style sheet are unmarked. -/
theorem unmarked_conditions {theme : Theme} (soundTheme : theme.Sound)
    (plainTheme : theme.HasPlainConditions) {source : Source} (markerFree : source.MarkerFree)
    {compiled : Compiled} (assembles : source.assemble theme = .ok compiled) :
    Unmarked compiled.conditions := by
  obtain ⟨environment, _, isEnvironment, compilesConstants, compilesClasses, _⟩ :=
    assemble_eq_ok assembles
  rw [← theme_of_environment isEnvironment] at soundTheme plainTheme
  have soundConstants := sound_of_compileConstants soundTheme compilesConstants
  have plainConstants :=
    havePlainConditions_of_compileConstants plainTheme
      (fun block isBlock => (markerFree.constants block isBlock).2) compilesConstants
  intro c isChar
  obtain ⟨condition, isCondition, inCondition⟩ := List.mem_flatten.mp isChar
  obtain ⟨item, isItem, ofItem⟩ := List.mem_flatMap.mp isCondition
  obtain ⟨block, isBlock, compilesClass⟩ := exists_of_mem_mapM compilesClasses isItem
  have unmarkedBody := (markerFree.classes block isBlock).2
  obtain ⟨style, queries, reads, _, rfl⟩ :=
    exists_style_of_compileClass soundTheme soundConstants unmarkedBody compilesClass
  obtain ⟨plain, everyPlain⟩ :=
    hasPlainConditions_of_readClass plainTheme plainConstants unmarkedBody reads
  rw [CompiledClass.conditions, Style.conditions_named] at ofItem
  rcases List.mem_append.mp ofItem with isOwn | isQuery
  · exact plain.conditions condition isOwn c inCondition
  · obtain ⟨query, inWalk, ofQuery⟩ := List.mem_flatMap.mp isQuery
    exact (everyPlain query inWalk).conditions condition ofQuery c inCondition

end Source

/-! ## Outcomes of a compilation -/

theorem Theme.textual_of_ofTexts {texts : Theme.Texts} {theme : Theme}
    (built : Theme.ofTexts texts = .ok theme) : theme.Textual := by
  rw [ofTexts, withGroups, bind_eq_ok] at built
  obtain ⟨_, _, isTheme⟩ := built
  simp only [pure, Except.pure, Except.ok.injEq] at isTheme
  have ofTable : ∀ {entries : List (Text × Text)} {name : Text} {value : JsonValue},
      (Table.ofTexts entries).value? name = some value → ∃ text, value = .string text := by
    intro entries name value found
    obtain ⟨text, _, isText⟩ := Table.isText_of_ofTexts found
    exact ⟨text, isText⟩
  rw [← isTheme]
  exact ⟨ofTable, ofTable, ofTable⟩

/-- The outcome is a style sheet in which no reference is left, or an error that reports a mistake
of the text. -/
def Resolved : Except Error Text → Prop
  | .ok css => Reference.leftover? css = none
  | .error error => error.kind ≠ .internal

theorem checkResolved_eq (css : Text) :
    (Reference.leftover? css = none ∧ Source.checkResolved css = .ok ()) ∨
      ∃ reference, Reference.leftover? css = some reference ∧
        Source.checkResolved css = .error (Cause.unresolvedReference reference : Cause) := by
  unfold Source.checkResolved
  cases Reference.leftover? css with
  | none => exact Or.inl ⟨rfl, rfl⟩
  | some reference => exact Or.inr ⟨reference, rfl, rfl⟩

theorem compile_eq (theme : Theme) (text : Text) :
    compile theme text = (Source.parse text >>= Source.assemble theme) >>= fun compiled =>
      (Source.checkResolved compiled.css).map fun _ => compiled.css := by
  rw [compile]
  cases Source.parse text with
  | error error => rfl
  | ok source =>
      simp only [Source.compile, bind, Except.bind]
      cases source.assemble theme with
      | error error => rfl
      | ok compiled =>
          simp only
          cases Source.checkResolved compiled.css <;> rfl

/-- Under a theme of texts whose breakpoints are unmarked, a compilation leaves no reference and
does not fail for a reason of the compiler itself, unless the conditions that it writes spell
something like a reference; and they do not if the fragments of the theme are unmarked. No runtime
variable is ever without a declaration. -/
theorem resolved_compile_iff {texts : Theme.Texts} {theme : Theme}
    (built : Theme.ofTexts texts = .ok theme)
    (unmarkedBreakpoints : ∀ entry ∈ texts.breakpoints, Unmarked entry.2) (text : Text) :
    (Resolved (compile theme text) ↔
      ∀ compiled, (Source.parse text >>= Source.assemble theme) = .ok compiled →
        Reference.leftover? compiled.conditions = none) ∧
    (∀ error, compile theme text = .error error → error.kind = .internal →
      ∃ reference, error = (Cause.unresolvedReference reference : Cause)) ∧
    ((∀ group ∈ texts.defines, ∀ entry ∈ group.2, Unmarked entry.2) →
      Resolved (compile theme text)) := by
  have soundTheme : theme.Sound := Theme.sound_of_ofTexts built
  have textual := Theme.textual_of_ofTexts built
  have safe : Safe (Source.parse text >>= Source.assemble theme) :=
    (Source.safe_parse text).bind fun source parsed =>
      Source.safe_assemble soundTheme textual (Source.markerFree_of_parse parsed)
  rw [compile_eq]
  cases assembled : (Source.parse text >>= Source.assemble theme) with
  | error error =>
      have reported : error.kind ≠ .internal := safe error assembled
      refine ⟨⟨by simp, fun _ => reported⟩, ?_, fun _ => reported⟩
      rintro other same isInternal
      cases same
      exact absurd isInternal reported
  | ok compiled =>
      obtain ⟨source, parsed, assembles⟩ := bind_eq_ok.mp assembled
      have markerFree := Source.markerFree_of_parse parsed
      have sameLeftover := Reference.leftover?_eq_none_congr
        (Source.markers_css soundTheme markerFree assembles)
      simp only [bind, Except.bind, Except.ok.injEq, forall_eq']
      rcases checkResolved_eq compiled.css with ⟨nothing, passes⟩ | ⟨reference, found, refused⟩
      · rw [passes]
        refine ⟨⟨fun _ => sameLeftover.mp nothing, fun _ => nothing⟩, ?_, fun _ => nothing⟩
        rintro error ⟨⟩
      · have isLeft : ¬Reference.leftover? compiled.conditions = none := by
          rw [← sameLeftover, found]
          simp
        rw [refused]
        refine ⟨⟨fun reported => absurd rfl reported, fun nothing => absurd nothing isLeft⟩, ?_, ?_⟩
        · rintro error ⟨⟩ _
          exact ⟨reference, rfl⟩
        · intro unmarkedDefines
          have plainTheme :=
            Theme.hasPlainConditions_of_ofTexts built unmarkedBreakpoints unmarkedDefines
          have unmarked := Source.unmarked_conditions soundTheme plainTheme markerFree assembles
          exact absurd (Reference.leftover?_of_unmarked unmarked) isLeft

set_option maxRecDepth 100000 in
theorem resolved_compile_breakpoint :
    let texts : Theme.Texts :=
      { breakpoints := [("m", "min-w[1px]")], defines := [("card", [("x", "screen(m, w[2px])")])] }
    ∃ theme, Theme.ofTexts texts = .ok theme ∧ compile theme ".b \x7b card[x] \x7d" =
      .ok "@media only screen and (min-width:1px)\x7b.b\x7bwidth:2px;\x7d\x7d" ∧
      Resolved (compile theme ".b \x7b card[x] \x7d") := by
  intro texts
  have evaluates : (Theme.ofTexts texts >>= fun theme => compile theme ".b \x7b card[x] \x7d") =
      .ok "@media only screen and (min-width:1px)\x7b.b\x7bwidth:2px;\x7d\x7d" := by
    repeat rw [Text.ofString_ofList]
    decide +kernel
  obtain ⟨theme, built, compiles⟩ := bind_eq_ok.mp evaluates
  exact ⟨theme, built, compiles, (resolved_compile_iff built (by decide) _).2.2 (by decide)⟩

set_option maxRecDepth 100000 in
/-- The condition of a fragment is not looked at, neither when the theme is built nor when the
fragment is used. -/
theorem not_resolved_compile_fragment :
    let texts : Theme.Texts := { defines := [("card", [("x", "screen(min-w[⟦a⟧], w[2px])")])] }
    ∃ theme, Theme.ofTexts texts = .ok theme ∧
      compile theme ".b \x7b card[x] \x7d" = .error (Cause.unresolvedReference "⟦a⟧" : Cause) ∧
      ¬Resolved (compile theme ".b \x7b card[x] \x7d") := by
  intro texts
  have evaluates : (Theme.ofTexts texts >>= fun theme =>
      (pure (compile theme ".b \x7b card[x] \x7d") : Except Error (Except Error Text))) =
      .ok (.error (Cause.unresolvedReference "⟦a⟧" : Cause)) := by
    decide +kernel
  obtain ⟨theme, built, outcome⟩ := bind_eq_ok.mp evaluates
  have fails : compile theme ".b \x7b card[x] \x7d" =
      .error (Cause.unresolvedReference "⟦a⟧" : Cause) := Except.ok.inj outcome
  refine ⟨theme, built, fails, ?_⟩
  rw [fails]
  exact fun reported => reported rfl

end TerseStyle

import TerseStyle.Proofs.Source

/-!
# Sections of a style sheet

A style sheet has a section for every keyframe and then one for every class. The section of a class
is the rule of its root variables followed by rules that are known before any variable has its final
name: those of the class, and those of its queries in the order of a walk, each query under a
selector of its own. In the values of these rules every reference is written in its final form, and
the variable that it names is declared in the same section: a runtime variable in the rule of the
root element, which comes first, and a local variable in the rule of the class itself. The condition
of a rule is copied as it is, so this is true of a condition only if it names no variable.
-/

namespace TerseStyle

open Reference (Unmarked Within rewrite)

namespace Pending

theorem mem_keys_declarations {pending : Pending} {name block : Text}
    (declared : pending.declares name block = true) (display : Text) :
    Naming.runtime name display block ∈ (pending.declarations display).keys := by
  obtain ⟨⟨ownBlock, ownName, default⟩, isDefault, isOwn⟩ := List.any_eq_true.mp declared
  simp only [Bool.and_eq_true, beq_iff_eq] at isOwn
  rw [declarations, OrderedMap.mem_keys_ofList, List.map_map, List.mem_map]
  exact ⟨_, isDefault, by simp [isOwn.1, isOwn.2]⟩

theorem unmarked_declarations {style : Style} (sound : style.Sound) {display : Text}
    (unmarkedDisplay : Unmarked display) {entry : Text × Text}
    (isEntry : entry ∈ (style.pending.declarations display).entries) :
    Unmarked entry.1 ∧ Unmarked entry.2 := by
  obtain ⟨⟨block, name, default⟩, isDefault, rfl⟩ :=
    List.mem_map.mp (OrderedMap.mem_entries_ofList isEntry)
  obtain ⟨areBlockChars, isWord, unmarkedDefault⟩ := sound.defaults isDefault
  have unmarkedName : Unmarked name := by
    apply Reference.unmarked_of_isNameChar
    exact (Vocabulary.isName_of_isWord isWord).2
  have unmarkedBlock : Unmarked block :=
    Reference.unmarked_of_isNameChar fun c isChar => (areBlockChars c isChar).1
  exact ⟨Naming.unmarked_runtime unmarkedName unmarkedDisplay unmarkedBlock, unmarkedDefault⟩

end Pending

namespace Style

variable {style : Style}

theorem mem_keys_ownProperties {name : Text} (declared : name ∈ style.localVariables.keys)
    (display : Text) : Naming.localVariable name display ∈ (style.ownProperties display).keys := by
  obtain ⟨⟨ownName, value⟩, isEntry, rfl⟩ := List.mem_map.mp declared
  rw [ownProperties, OrderedMap.mem_keys_merge, OrderedMap.mem_keys_ofList, List.map_map]
  exact Or.inl (List.mem_map.mpr ⟨_, isEntry, rfl⟩)

theorem writtenRules_eq_cons (style : Style) {own : Properties} (notEmpty : own.isEmpty = false)
    (selector : Text) :
    ∃ rest, style.writtenRules selector own = { selector, declarations := own } :: rest := by
  simp [writtenRules, placeRules, notEmpty]

/-- The rules of a sound style without runtime variables are its rules as they are written, with
every reference in its final form. -/
theorem Sound.rules_of_variableFree (sound : style.Sound) (free : style.VariableFree)
    (owner selector : Text) :
    style.rules owner selector style.base =
      (style.writtenRules selector style.base).map
        (Rule.mapValues (rewrite (Reference.final owner))) := by
  rw [rules]
  apply List.map_congr_left
  intro rule isRule
  simp only [Rule.mapValues, resolveLocals]
  congr 1
  apply OrderedMap.map_congr
  intro value isValue
  obtain ⟨⟨name, value⟩, isEntry, rfl⟩ := List.mem_map.mp isValue
  have sets : style.Sets name value := (mem_writtenRules isRule).1 isEntry |>.elim .base id
  apply (sound.values sets).2.rewrite_congr
  intro reference covers _
  cases reference with
  | runtime name block =>
      simp [Covers, Pending.isEmpty_iff_not_declares.mp free.pending] at covers
  | localVariable name => rfl
  | scope name => rfl

end Style

/-! ## Queries -/

namespace QueryTree

/-- The rules of queries in the order of a walk, each under a selector of its own. -/
def placedRules (selectors : List Text) (queries : List QueryTree) : List Rule :=
  (selectors.zip (preorder queries)).flatMap fun (selector, query) =>
    query.style.writtenRules selector query.style.base

/-- The rules of a compiled forest are those of its queries, each under an unmarked selector. -/
theorem exists_selectors_of_rules {names : OrderedMap Text Text} {owner : Text}
    (unmarkedNames : ∀ name ∈ names.values, Unmarked name) {queries : List (Text × QueryTree)}
    (unmarkedParents : ∀ query ∈ queries, Unmarked query.1)
    (settled : Every (fun query => Settled query.selector query.style) (queries.map Prod.snd))
    {made : List Rule} (makes : rules names owner queries = .ok made) :
    ∃ selectors, selectors.length = (preorder (queries.map Prod.snd)).length ∧
      (∀ selector ∈ selectors, Unmarked selector) ∧
      made = (placedRules selectors (queries.map Prod.snd)).map
        (Rule.mapValues (rewrite (Reference.final owner))) := by
  fun_induction rules names owner queries generalizing made with
  | case1 =>
      rw [Except.ok.injEq] at makes
      rw [← makes]
      exact ⟨[], by simp [preorder_nil], by simp, by simp [placedRules]⟩
  | case2 parent written lines style children rest ih =>
      rw [bind_eq_ok] at makes
      obtain ⟨selector, isNested, makesMore⟩ := makes
      rw [bind_eq_ok] at makesMore
      obtain ⟨more, makesRest, same⟩ := makesMore
      simp only [pure, Except.pure, Except.ok.injEq] at same
      rw [List.map_cons] at settled
      obtain ⟨ofQuery, ofChildren, ofRest⟩ := every_cons.mp settled
      rw [List.forall_mem_cons] at unmarkedParents
      have unmarkedSelector : Unmarked selector :=
        Selector.unmarked_nest unmarkedNames unmarkedParents.1 ofQuery.selector isNested
      have unmarkedMore : ∀ query ∈ under selector children ++ rest, Unmarked query.1 := by
        rw [List.forall_mem_append]
        refine ⟨?_, unmarkedParents.2⟩
        intro query isChild
        obtain ⟨child, _, rfl⟩ := List.mem_map.mp isChild
        exact unmarkedSelector
      have settledMore : Every (fun query => Settled query.selector query.style)
          ((under selector children ++ rest).map Prod.snd) := by
        rw [List.map_append, map_snd_under]
        intro query isQuery
        rw [preorder_append, List.mem_append] at isQuery
        exact isQuery.elim (ofChildren query) (ofRest query)
      obtain ⟨selectors, sameLength, unmarkedSelectors, isMore⟩ :=
        ih selector unmarkedMore settledMore makesRest
      rw [List.map_append, map_snd_under] at sameLength isMore
      have isOwn : style.rules owner selector style.base =
          (style.writtenRules selector style.base).map
            (Rule.mapValues (rewrite (Reference.final owner))) :=
        ofQuery.sound.rules_of_variableFree ofQuery.free owner selector
      refine ⟨selector :: selectors, ?_, ?_, ?_⟩
      · rw [List.map_cons, preorder]
        simp [sameLength]
      · exact List.forall_mem_cons.mpr ⟨unmarkedSelector, unmarkedSelectors⟩
      · rw [← same, isMore, isOwn, placedRules, placedRules, List.map_cons, preorder,
          List.zip_cons_cons, List.flatMap_cons, List.map_append]
        rfl

end QueryTree

/-! ## Classes -/

namespace Source

variable {style : Style} {queries : List QueryTree} {environment : Environment}
  {constants : Constants}

theorem mem_keys_usedLocals {name : Text} :
    name ∈ (usedLocals style queries).keys ↔ name ∈ style.usedLocals.keys ∨
      ∃ query ∈ QueryTree.preorder queries, name ∈ query.style.usedLocals.keys :=
  OrderedMap.mem_keys_foldl_merge _ _ _

/-- A class that passes the check declares every local variable that it or a query mentions. -/
theorem mem_localVariables_of_checkLocals {scope name : Text}
    (passes : checkLocals scope name style queries = .ok ()) {used : Text}
    (isUsed : used ∈ (usedLocals style queries).keys) : used ∈ style.localVariables.keys := by
  unfold checkLocals at passes
  simp only at passes
  split at passes
  · next noneFound =>
    rw [List.find?_eq_none] at noneFound
    have declared := noneFound used (List.mem_mergeSort.mpr isUsed)
    simpa [OrderedMap.contains_iff] using declared
  · simp at passes

theorem checkLocals_eq_ok_iff (scope name : Text) (style : Style)
    (queries : List QueryTree) :
    checkLocals scope name style queries = .ok () ↔
      ∀ used ∈ (usedLocals style queries).keys, used ∈ style.localVariables.keys := by
  constructor
  · intro passes used isUsed
    exact mem_localVariables_of_checkLocals passes isUsed
  · intro declared
    have noneFound : (Text.sort (usedLocals style queries).keys).find?
        (fun used => !style.localVariables.contains used) = none := by
      rw [List.find?_eq_none]
      intro used isUsed
      simpa [OrderedMap.contains_iff] using declared used (List.mem_mergeSort.mp isUsed)
    simp only [checkLocals, noneFound]

theorem exists_block_of_compileConstants {blocks : List ConstantBlock}
    (compiles : compileConstants environment blocks = .ok constants) {fragment : Style}
    (isFragment : fragment ∈ constants.values) :
    ∃ block ∈ blocks, fragment = (Style.dispatchAll { environment with context := .constant }
      block.statements ∅).state := by
  rw [compileConstants] at compiles
  simp only [bind_eq_ok, pure, Except.pure, Except.ok.injEq] at compiles
  obtain ⟨compiled, compilesAll, rfl⟩ := compiles
  obtain ⟨entry, isEntry, rfl⟩ := List.mem_map.mp isFragment
  obtain ⟨block, isBlock, compilesBlock⟩ :=
    exists_of_mem_mapM compilesAll (OrderedMap.mem_entries_ofList isEntry)
  simp only [bind_eq_ok, Except.ok.injEq] at compilesBlock
  obtain ⟨style, succeeds, rfl⟩ := compilesBlock
  rw [Attempt.toExcept_eq_ok] at succeeds
  exact ⟨block, isBlock, by rw [succeeds]⟩

theorem sound_of_compileConstants (soundTheme : environment.theme.Sound)
    {blocks : List ConstantBlock} (compiles : compileConstants environment blocks = .ok constants) :
    constants.Sound := by
  intro fragment isFragment
  obtain ⟨block, _, isState⟩ := exists_block_of_compileConstants compiles isFragment
  rw [isState]
  apply Style.dispatchAll_induction fun style => style.Sound ∧ style.VariableFree
  · rintro style contribution _ _ ⟨sound, free⟩ contributes
    exact ⟨sound.append (contributes.sound soundTheme),
      free.append (contributes.variableFree rfl rfl)⟩
  · exact ⟨Style.sound_empty, Style.variableFree_empty⟩

/-- What the style and the queries of a class have in common with those of every class. -/
structure WellRead (style : Style) (queries : List QueryTree) : Prop where
  sound : style.Sound
  settled : QueryTree.Every (fun query => QueryTree.Settled query.selector query.style) queries
  locals : ∀ used ∈ (usedLocals style queries).keys, used ∈ style.localVariables.keys

theorem wellRead_of_readClass (soundTheme : environment.theme.Sound)
    (soundConstants : constants.Sound) {scope : Text} {block : ClassBlock}
    (unmarkedBody : Unmarked block.body)
    (reads : readClass environment scope constants block = .ok (style, queries)) :
    WellRead style queries := by
  rw [readClass] at reads
  simp only [bind_eq_ok, Prod.exists, Attempt.toExcept_eq_ok, pure, Except.pure, Except.ok.injEq,
    Prod.mk.injEq] at reads
  obtain ⟨lines, forest, parsed, own, dispatches, compiled, compiles, _, passes, rfl, rfl⟩ := reads
  obtain ⟨_, fresh⟩ := QueryTree.fresh_of_parse unmarkedBody parsed
  refine ⟨?_, QueryTree.settled_of_compileForest soundTheme soundConstants fresh compiles,
    fun used => mem_localVariables_of_checkLocals passes⟩
  have sound := Style.sound_empty.dispatchLines soundTheme soundConstants false lines
  rwa [dispatches] at sound

end Source

/-- The rules of a class before any variable has its final name. -/
def Style.sectionRules (display : Text) (style : Style) (selectors : List Text)
    (queries : List QueryTree) : List Rule :=
  style.writtenRules ("." ++ display) (style.ownProperties display) ++
    QueryTree.placedRules selectors queries

/-- The rule of the root variables of a class. -/
def Style.pendingRules (display : Text) (style : Style) : List Rule :=
  rootRules { rootVariables := style.pending.declarations display }

namespace Source

/-- A compiled class was read first, and its runtime variables are named. -/
theorem exists_style_of_compileClass {environment : Environment}
    (soundTheme : environment.theme.Sound) {constants : Constants}
    (soundConstants : constants.Sound) {scope : Text} {block : ClassBlock}
    (unmarkedBody : Unmarked block.body) {item : CompiledClass}
    (compiles : compileClass environment scope constants block = .ok item) :
    ∃ style queries, readClass environment scope constants block = .ok (style, queries) ∧
      WellRead style queries ∧
      item = { name := block.name, display := Naming.final scope block.name,
               style := style.named (Naming.final scope block.name), queries } := by
  rw [compileClass] at compiles
  simp only [bind_eq_ok, Prod.exists, Attempt.toExcept_eq_ok, pure, Except.pure, Except.ok.injEq]
    at compiles
  obtain ⟨style, queries, reads, named, isNamed, rfl⟩ := compiles
  have wellRead := wellRead_of_readClass soundTheme soundConstants unmarkedBody reads
  refine ⟨style, queries, reads, wellRead, ?_⟩
  rw [Style.nameVariables_of_sound wellRead.sound] at isNamed
  split at isNamed
  · simp at isNamed
  · rw [← (Attempt.mk.inj isNamed).1]

/-- The queries of a class are those of its body, each compiled for itself. Neither the constants
that the class uses, nor its statements, nor the naming of its variables change them. -/
theorem exists_forest_of_compileClass {environment : Environment} {constants : Constants}
    {scope : Text} {block : ClassBlock} {item : CompiledClass}
    (compiles : compileClass environment scope constants block = .ok item) :
    ∃ lines forest, QueryTree.parse block.body = .ok (lines, forest) ∧
      QueryTree.compileForest environment constants forest = { state := item.queries } := by
  rw [compileClass, readClass] at compiles
  simp only [bind_eq_ok, Prod.exists, Attempt.toExcept_eq_ok, pure, Except.pure, Except.ok.injEq,
    Prod.mk.injEq] at compiles
  obtain ⟨_, _, ⟨lines, forest, parsed, _, _, _, isCompiled, _, _, rfl, rfl⟩, _, _, rfl⟩ := compiles
  exact ⟨lines, forest, parsed, isCompiled⟩

/-- The rules of a class that was read are its section. -/
theorem exists_selectors_of_classRules {style : Style} {queries : List QueryTree}
    (wellRead : WellRead style queries) {display : Text} (unmarkedDisplay : Unmarked display)
    {names : OrderedMap Text Text} (unmarkedNames : ∀ name ∈ names.values, Unmarked name)
    {made : List Rule} (makes : classRules names display (style.named display) queries = .ok made) :
    ∃ selectors, selectors.length = (QueryTree.preorder queries).length ∧
      (∀ selector ∈ selectors, Unmarked selector) ∧
      made = style.pendingRules display ++ (style.sectionRules display selectors queries).map
        (Rule.mapValues (rewrite (Reference.final display))) := by
  have unmarkedSelector : Unmarked ("." ++ display) :=
    Text.madeOf_append.mpr ⟨by decide, unmarkedDisplay⟩
  rw [classRules, map_eq_ok] at makes
  obtain ⟨nested, makesNested, same⟩ := makes
  obtain ⟨selectors, sameLength, unmarkedSelectors, isNested⟩ :=
    QueryTree.exists_selectors_of_rules unmarkedNames
      (by simp [QueryTree.under, unmarkedSelector]) (by simpa using wellRead.settled) makesNested
  rw [QueryTree.map_snd_under] at sameLength isNested
  refine ⟨selectors, sameLength, unmarkedSelectors, ?_⟩
  rw [← same, isNested, Style.rules_named wellRead.sound unmarkedDisplay, Style.sectionRules,
    List.map_append, List.append_assoc]
  rfl

end Source

/-! ## Keyframes -/

namespace Keyframe

/-- The style of a step: it is sound and refers to runtime variables only. -/
structure WellRead (style : Style) : Prop where
  sound : style.Sound
  usedLocals : style.usedLocals = ∅

theorem wellRead_of_readStyle {environment : Environment} (soundTheme : environment.theme.Sound)
    {statement label : Text} {style : Style}
    (reads : readStyle environment statement = .ok (label, style)) : WellRead style := by
  rw [readStyle] at reads
  simp only [bind_eq_ok, Prod.exists, Attempt.toExcept_eq_ok, pure, Except.pure, Except.ok.injEq,
    Prod.mk.injEq] at reads
  obtain ⟨_, inside, _, own, dispatches, _, rfl⟩ := reads
  have isState :
      own = (Style.dispatchBody { environment with context := .keyframe } inside ∅).state := by
    rw [dispatches]
  rw [isState]
  apply Style.dispatchBody_induction WellRead
  · rintro style contribution _ _ ⟨sound, noneUsed⟩ contributes
    refine ⟨sound.append (contributes.sound soundTheme), ?_⟩
    rw [Style.usedLocals_append, noneUsed, contributes.usedLocals rfl soundTheme,
      OrderedMap.merge_empty]
  · exact ⟨Style.sound_empty, rfl⟩

theorem WellRead.covers {style : Style} (wellRead : WellRead style) {reference : Reference}
    (covers : style.Covers reference) :
    ∃ name block, reference = .runtime name block ∧ style.pending.declares name block = true := by
  cases reference with
  | runtime name block => exact ⟨name, block, rfl, covers⟩
  | localVariable name => simp [Style.Covers, wellRead.usedLocals] at covers
  | scope name => exact covers.elim

/-- A compiled step was read first; its properties are those that were read, with every reference in
its final form. -/
theorem exists_style_of_compileStep {environment : Environment}
    (soundTheme : environment.theme.Sound) {scope final statement : Text} {step : KeyframeStep}
    {root : Properties}
    (compiles : compileStep environment scope final statement = .ok (step, root)) :
    ∃ label style, readStyle environment statement = .ok (label, style) ∧ WellRead style ∧
      step = { label, properties :=
        style.base.map (rewrite (Reference.final (stepDisplay final label))) } ∧
      root = style.pending.declarations (stepDisplay final label) := by
  rw [compileStep] at compiles
  simp only [bind_eq_ok, Prod.exists, Attempt.toExcept_eq_ok, pure, Except.pure, Except.ok.injEq,
    Prod.mk.injEq] at compiles
  obtain ⟨label, style, reads, named, isNamed, rfl, rfl⟩ := compiles
  have wellRead := wellRead_of_readStyle soundTheme reads
  refine ⟨label, style, reads, wellRead, ?_⟩
  rw [Style.nameVariables_of_sound wellRead.sound] at isNamed
  split at isNamed
  · simp at isNamed
  · rw [Attempt.mk.injEq] at isNamed
    rw [← isNamed.1]
    refine ⟨?_, rfl⟩
    simp only [Style.named, Style.mapValues, KeyframeStep.mk.injEq, true_and]
    apply OrderedMap.map_congr
    intro value isValue
    obtain ⟨⟨name, value⟩, isEntry, rfl⟩ := List.mem_map.mp isValue
    apply (wellRead.sound.values (.base isEntry)).2.rewrite_congr
    intro reference covers _
    obtain ⟨name, block, rfl, _⟩ := wellRead.covers covers
    rfl

/-- The final names belong to the keyframes in order. -/
theorem eq_ofList_of_finalNames {scope : Text} {blocks : List KeyframeBlock}
    {names : OrderedMap Text Text} (makes : finalNames scope blocks = .ok names) :
    names = .ofList (blocks.map fun block => (block.name, Naming.final scope block.name)) := by
  rw [finalNames] at makes
  rw [OrderedMap.ofList, List.foldl_map]
  generalize (∅ : OrderedMap Text Text) = start at makes ⊢
  induction blocks generalizing start with
  | nil =>
      rw [List.foldlM_nil] at makes
      exact (Except.ok.inj makes).symm
  | cons block rest ih =>
      rw [List.foldlM_cons, bind_eq_ok] at makes
      obtain ⟨next, steps, makesRest⟩ := makes
      split at steps
      · simp at steps
      · rw [List.foldl_cons, Except.ok.inj steps]
        exact ih next makesRest

end Keyframe

/-! ## The style sheet -/

/-- The variable that a reference names for a class is declared in the rules of the class. -/
def Reference.DeclaredIn (display : Text) (rules : List Rule) : Reference → Prop
  | .runtime name block => ∃ root rest, rules = root :: rest ∧ root.wrapper = none ∧
      root.selector = ":root" ∧ Naming.runtime name display block ∈ root.declarations.keys
  | .localVariable name => ∃ own ∈ rules, own.wrapper = none ∧ own.selector = "." ++ display ∧
      Naming.localVariable name display ∈ own.declarations.keys
  | .scope _ => False

theorem Style.pendingRules_eq_cons {style : Style} {name block : Text}
    (declared : style.pending.declares name block = true) (display : Text) :
    style.pendingRules display =
      [{ selector := ":root", declarations := style.pending.declarations display }] := by
  have isKey := Pending.mem_keys_declarations declared display
  rw [pendingRules, rootRules, if_neg]
  intro isEmpty
  have nothing : style.pending.declarations display = ∅ := OrderedMap.isEmpty_iff.mp isEmpty
  simp [nothing] at isKey

namespace Source.WellRead

variable {style : Style} {queries : List QueryTree}

theorem declaredIn_of_declares {name block : Text}
    (declared : style.pending.declares name block = true) (display : Text) (rules : List Rule) :
    (Reference.runtime name block).DeclaredIn display (style.pendingRules display ++ rules) := by
  rw [Style.pendingRules_eq_cons declared]
  exact ⟨_, rules, rfl, rfl, rfl, Pending.mem_keys_declarations declared display⟩

theorem declaredIn_of_mem_localVariables {name : Text} (declared : name ∈ style.localVariables.keys)
    (display : Text) (selectors : List Text) (change : Text → Text) :
    (Reference.localVariable name).DeclaredIn display (style.pendingRules display ++
      (style.sectionRules display selectors queries).map (Rule.mapValues change)) := by
  have isKey := Style.mem_keys_ownProperties declared display
  have notEmpty : (style.ownProperties display).isEmpty = false := by
    by_contra isEmpty
    simp [OrderedMap.isEmpty_iff.mp (Bool.of_not_eq_false isEmpty)] at isKey
  let own : Rule := { selector := "." ++ display, declarations := style.ownProperties display }
  obtain ⟨rest, isFirst⟩ := style.writtenRules_eq_cons notEmpty ("." ++ display)
  refine ⟨own.mapValues change, ?_, rfl, rfl, ?_⟩
  · apply List.mem_append_right
    apply List.mem_map_of_mem
    rw [Style.sectionRules, isFirst]
    exact List.mem_append_left _ List.mem_cons_self
  · simpa [own, Rule.mapValues] using isKey

/-- Every reference in the rules of a class that was read is declared in its section. -/
theorem declared (wellRead : WellRead style queries) (display : Text) (selectors : List Text)
    {rule : Rule} (isRule : rule ∈ style.sectionRules display selectors queries)
    {entry : Text × Text} (isEntry : entry ∈ rule.declarations.entries) {reference : Reference}
    (isReference : reference ∈ Reference.all entry.2) :
    reference.DeclaredIn display (style.pendingRules display ++
      (style.sectionRules display selectors queries).map
        (Rule.mapValues (rewrite (Reference.final display)))) := by
  have ofLocal : ∀ name ∈ (usedLocals style queries).keys,
      (Reference.localVariable name).DeclaredIn display (style.pendingRules display ++
        (style.sectionRules display selectors queries).map
          (Rule.mapValues (rewrite (Reference.final display)))) :=
    fun name isUsed => declaredIn_of_mem_localVariables (wellRead.locals name isUsed) display _ _
  rcases List.mem_append.mp isRule with isOwn | isPlaced
  · have covers : style.Covers reference := by
      rcases (Style.mem_writtenRules isOwn).1 isEntry with isOwnEntry | sets
      · exact ((wellRead.sound.ownProperties isOwnEntry).2.mem_all isReference).1
      · exact ((wellRead.sound.values sets).2.mem_all isReference).1
    cases reference with
    | runtime name block => exact declaredIn_of_declares covers display _
    | localVariable name => exact ofLocal name (mem_keys_usedLocals.mpr (Or.inl covers))
    | scope name => exact covers.elim
  · obtain ⟨⟨selector, query⟩, isPair, isQueryRule⟩ := List.mem_flatMap.mp isPlaced
    have isQuery := (List.of_mem_zip isPair).2
    have settled := wellRead.settled query isQuery
    have sets : query.style.Sets entry.1 entry.2 :=
      (Style.mem_writtenRules isQueryRule).1 isEntry |>.elim .base id
    have covers := ((settled.sound.values sets).2.mem_all isReference).1
    cases reference with
    | runtime name block =>
        simp [Style.Covers, Pending.isEmpty_iff_not_declares.mp settled.free.pending] at covers
    | localVariable name =>
        exact ofLocal name (mem_keys_usedLocals.mpr (Or.inr ⟨query, isQuery, covers⟩))
    | scope name => exact covers.elim

end Source.WellRead

/-! ## Conditions -/

namespace Value

theorem length_add_localNames_le (value : Text) :
    value.length + (localNames value).length ≤ (referLocals value).length := by
  have longer : value.length + ((localNames value).map fun _ => 1).sum ≤
      (referLocals value).length := by
    apply Text.length_add_weights_le fun _ => 1
    intro text name width found
    unfold recogniseLocal at found
    split at found
    · simp only [Option.ite_none_left_eq_some, Option.some.injEq, Prod.mk.injEq] at found
      obtain ⟨_, rfl, rfl⟩ := found
      simp [Reference.render, Text.ofString, Text.ofChars]
    · simp at found
  simpa using longer

end Value

/-- How much longer a reference gets in its final form, at least. -/
def Reference.growth : Reference → Nat
  | runtime _ _ => 1
  | localVariable _ => 1
  | scope _ => 0

theorem Reference.length_lt_rewrite_final {text : Text} {reference : Reference}
    (isReference : reference ∈ all text) (isVariable : ∀ name, reference ≠ .scope name)
    (display : Text) : text.length < (rewrite (final display) text).length := by
  have longer : text.length + ((all text).map growth).sum ≤
      (rewrite (final display) text).length := by
    apply Text.length_add_weights_le growth
    intro text reference width found
    obtain ⟨_, _, isFound⟩ := Option.map_eq_some_iff.mp found
    cases isFound
    cases reference with
    | runtime name block =>
        simp only [growth, final, Naming.use, Naming.runtime, render, Text.ofString, Text.ofChars]
        split
        · simp_all
        · simp
          omega
    | localVariable name =>
        simp [growth, final, Naming.use, Naming.localVariable, render, Text.ofString, Text.ofChars]
        omega
    | scope name => simp [growth, final, render, Text.ofString, Text.ofChars]
  have isCounted := List.single_le_sum (fun _ _ => Nat.zero_le _) _
    (List.mem_map_of_mem (f := growth) isReference)
  have grows : reference.growth = 1 := by
    cases reference with
    | scope name => exact absurd rfl (isVariable name)
    | _ => rfl
  omega

namespace Rule

/-- A condition with the variables in it in their final form. -/
def resolveCondition (display condition : Text) : Text :=
  Reference.rewrite (Reference.final display) (Value.referLocals condition)

/-- A rule as its section should have it: with every variable of its condition and of its values in
its final form and declared in the section. -/
def IsResolved (display : Text) (rules : List Rule) (rule emitted : Rule) : Prop :=
  emitted = { rule.mapValues (Reference.rewrite (Reference.final display)) with
    wrapper := rule.wrapper.map (resolveCondition display) } ∧
    (∀ condition ∈ rule.wrapper, ∀ reference ∈ Reference.all (Value.referLocals condition),
      reference.DeclaredIn display rules) ∧
    ∀ entry ∈ rule.declarations.entries, ∀ reference ∈ Reference.all entry.2,
      reference.DeclaredIn display rules

theorem resolveCondition_eq_self {condition : Text} (noLocals : Value.localNames condition = [])
    (noReferences : Reference.all condition = []) (display : Text) :
    Reference.all (Value.referLocals condition) = [] ∧
      resolveCondition display condition = condition := by
  rw [resolveCondition, Value.referLocals, Text.replaceItems_of_items_eq_nil noLocals]
  exact ⟨noReferences, Text.replaceItems_of_items_eq_nil noReferences⟩

/-- The conditions of a section are not looked at: a rule is resolved exactly if its condition names
no variable. -/
theorem isResolved_mapValues_iff {display : Text} {rules : List Rule} {rule : Rule}
    (declared : ∀ entry ∈ rule.declarations.entries, ∀ reference ∈ Reference.all entry.2,
      reference.DeclaredIn display rules) :
    rule.IsResolved display rules (rule.mapValues (Reference.rewrite (Reference.final display))) ↔
      ∀ condition ∈ rule.wrapper,
        Value.localNames condition = [] ∧ Reference.all condition = [] := by
  constructor
  · rintro ⟨same, declaredConditions, _⟩ condition isCondition
    have unchanged : resolveCondition display condition = condition := by
      have sameWrapper := congrArg Rule.wrapper same
      rw [mapValues, Option.mem_def.mp isCondition] at sameWrapper
      simpa using sameWrapper.symm
    have ofLocals := Value.length_add_localNames_le condition
    have noReferences : Reference.all (Value.referLocals condition) = [] := by
      by_contra some
      obtain ⟨reference, isReference⟩ := List.exists_mem_of_ne_nil _ some
      have isLonger := Reference.length_lt_rewrite_final isReference ?_ display
      · rw [← resolveCondition, unchanged] at isLonger
        omega
      · rintro name rfl
        exact declaredConditions condition isCondition _ isReference
    have noLocals : Value.localNames condition = [] := by
      rw [← List.length_eq_zero_iff]
      have sameLength : (Value.referLocals condition).length = condition.length := by
        rw [← congrArg List.length unchanged, resolveCondition, Reference.rewrite,
          Text.replaceItems_of_items_eq_nil noReferences]
      omega
    refine ⟨noLocals, ?_⟩
    rwa [Value.referLocals, Text.replaceItems_of_items_eq_nil noLocals] at noReferences
  · intro plain
    refine ⟨?_, ?_, declared⟩
    · have unchanged : rule.wrapper.map (resolveCondition display) = rule.wrapper := by
        cases isWrapper : rule.wrapper with
        | none => rfl
        | some condition =>
            obtain ⟨noLocals, noReferences⟩ := plain condition isWrapper
            rw [Option.map_some, (resolveCondition_eq_self noLocals noReferences display).2]
      rw [unchanged]
      rfl
    · intro condition isCondition reference isReference
      obtain ⟨noLocals, noReferences⟩ := plain condition isCondition
      rw [(resolveCondition_eq_self noLocals noReferences display).1] at isReference
      cases isReference

end Rule

/-- The section of a class: what was read of it, with every reference of its values in its final
form and declared in the section. The conditions of its rules stay as they were read. -/
def Source.IsClassSection (environment : Environment) (scope : Text) (constants : Constants)
    (block : ClassBlock) (rules : List Rule) : Prop :=
  let display := Naming.final scope block.name
  ∃ style queries selectors, readClass environment scope constants block = .ok (style, queries) ∧
    selectors.length = (QueryTree.preorder queries).length ∧
    rules = style.pendingRules display ++ (style.sectionRules display selectors queries).map
      (Rule.mapValues (rewrite (Reference.final display))) ∧
    ∀ rule ∈ style.sectionRules display selectors queries,
      (∀ entry ∈ rule.declarations.entries, ∀ reference ∈ Reference.all entry.2,
        reference.DeclaredIn display rules) ∧
      (rule.IsResolved display rules (rule.mapValues (rewrite (Reference.final display))) ↔
        ∀ condition ∈ rule.wrapper,
          Value.localNames condition = [] ∧ Reference.all condition = [])

/-- The step of a keyframe: what was read of it, with every reference in its final form and declared
for the root element at the beginning of the keyframe. -/
def Keyframe.IsStep (environment : Environment) (keyframe : Keyframe) (statement : Text)
    (step : KeyframeStep) : Prop :=
  ∃ style, readStyle environment statement = .ok (step.label, style) ∧
    let display := stepDisplay keyframe.final step.label
    step.properties = style.base.map (rewrite (Reference.final display)) ∧
    ∀ entry ∈ style.base.entries, ∀ reference ∈ Reference.all entry.2,
      ∃ name block, reference = .runtime name block ∧
        Naming.runtime name display block ∈ keyframe.rootVariables.keys ∧
        ∃ rest, keyframe.render =
          Rule.enclose ":root" (Rule.renderDeclarations keyframe.rootVariables) ++ rest

/-- The section of a keyframe: a step for every statement of its body. -/
def Keyframe.IsSection (environment : Environment) (block : KeyframeBlock) (keyframe : Keyframe) :
    Prop :=
  ∃ tokens, statements block.body = .ok tokens ∧
    List.Forall₂ (keyframe.IsStep environment) tokens keyframe.steps

theorem Keyframe.render_eq_append {keyframe : Keyframe} {name : Text}
    (declared : name ∈ keyframe.rootVariables.keys) :
    ∃ rest, keyframe.render =
      Rule.enclose ":root" (Rule.renderDeclarations keyframe.rootVariables) ++ rest := by
  have notEmpty : ¬keyframe.rootVariables.isEmpty = true := by
    intro isEmpty
    simp [OrderedMap.isEmpty_iff.mp isEmpty] at declared
  exact ⟨_, by rw [render, if_neg notEmpty]⟩

theorem Keyframe.isSection_of_compile {environment : Environment}
    (soundTheme : environment.theme.Sound) {scope : Text} {block : KeyframeBlock}
    {keyframe : Keyframe}
    (compiles : Keyframe.compile environment scope block = .ok keyframe) :
    keyframe.IsSection environment block := by
  rw [Keyframe.compile] at compiles
  simp only [bind_eq_ok, pure, Except.pure, Except.ok.injEq] at compiles
  obtain ⟨tokens, scanned, steps, compilesSteps, rfl⟩ := compiles
  refine ⟨tokens, scanned, ?_⟩
  have ofKeyframe : List.Forall₂ (fun compiled step => compiled ∈ steps ∧ step = compiled.1) steps
      (steps.map Prod.fst) :=
    List.forall₂_map_right_iff.mpr (List.forall₂_same.mpr fun compiled isStep => ⟨isStep, rfl⟩)
  apply forall₂_of_steps (forall₂_of_mapM_eq_ok compilesSteps) ofKeyframe
  rintro token _ ⟨step, root⟩ _ compilesStep ⟨isStep, rfl⟩
  obtain ⟨label, style, reads, wellRead, rfl, rfl⟩ :=
    exists_style_of_compileStep soundTheme compilesStep
  refine ⟨style, reads, rfl, ?_⟩
  intro entry isEntry reference isReference
  have covers := ((wellRead.sound.values (.base isEntry)).2.mem_all isReference).1
  obtain ⟨name, block, rfl, declared⟩ := wellRead.covers covers
  have isKey := (OrderedMap.mem_keys_foldl_merge Prod.snd _ ∅).mpr
    (Or.inr ⟨_, isStep, Pending.mem_keys_declarations declared _⟩)
  exact ⟨name, block, rfl, isKey, render_eq_append isKey⟩

namespace Source

variable {source : Source} {environment : Environment}

theorem assemble_eq_ok {theme : Theme} {compiled : Compiled}
    (assembles : source.assemble theme = .ok compiled) :
    ∃ environment sections, source.environment theme = .ok environment ∧
      compileConstants environment source.constants = .ok compiled.constants ∧
      source.classes.mapM (compileClass environment source.scope compiled.constants) =
        .ok compiled.classes ∧
      source.keyframes.mapM (Keyframe.compile environment source.scope) = .ok compiled.keyframes ∧
      compiled.classes.mapM (fun item =>
        classRules (.ofList (compiled.classes.map fun item => (item.name, item.display)))
          item.display item.style item.queries) = .ok sections ∧
      compiled.css = compiled.keyframes.flatMap Keyframe.render ++ sections.flatMap
        renderRules := by
  rw [assemble] at assembles
  simp only [bind_eq_ok, pure, Except.pure, Except.ok.injEq] at assembles
  obtain ⟨environment, isEnvironment, constants, compilesConstants, classes, compilesClasses, _, _,
    keyframes, compilesKeyframes, sections, makesSections, rfl⟩ := assembles
  exact ⟨environment, sections, isEnvironment, compilesConstants, compilesClasses,
    compilesKeyframes,
    makesSections, rfl⟩

theorem theme_of_environment {theme : Theme}
    (isEnvironment : source.environment theme = .ok environment) : environment.theme = theme := by
  rw [Source.environment] at isEnvironment
  simp only [bind_eq_ok, pure, Except.pure, Except.ok.injEq] at isEnvironment
  obtain ⟨_, _, keyframes, _, rfl⟩ := isEnvironment
  rfl

theorem unmarked_classNames (markerFree : source.MarkerFree) {constants : Constants}
    {classes : List CompiledClass}
    (compiles : source.classes.mapM (compileClass environment source.scope constants) =
      .ok classes) :
    ∀ name ∈ (OrderedMap.ofList (classes.map fun item => (item.name, item.display))).values,
      Unmarked name := by
  intro name isName
  obtain ⟨entry, isEntry, rfl⟩ := List.mem_map.mp isName
  obtain ⟨item, isItem, rfl⟩ := List.mem_map.mp (OrderedMap.mem_entries_ofList isEntry)
  obtain ⟨block, isBlock, compilesClass⟩ := exists_of_mem_mapM compiles isItem
  rw [compileClass] at compilesClass
  simp only [bind_eq_ok, Prod.exists, pure, Except.pure, Except.ok.injEq] at compilesClass
  obtain ⟨_, _, _, _, _, rfl⟩ := compilesClass
  exact Naming.madeOf_final (by decide) markerFree.scope (markerFree.classes block isBlock).1

theorem isClassSection_of_assemble (soundTheme : environment.theme.Sound)
    (markerFree : source.MarkerFree) {constants : Constants} (soundConstants : constants.Sound)
    {classes : List CompiledClass}
    (compiles : source.classes.mapM (compileClass environment source.scope constants) = .ok classes)
    {sections : List (List Rule)}
    (makes : classes.mapM (fun item =>
      classRules (.ofList (classes.map fun item => (item.name, item.display)))
        item.display item.style item.queries) = .ok sections) :
    List.Forall₂ (IsClassSection environment source.scope constants) source.classes sections := by
  apply forall₂_of_steps (forall₂_of_mapM_eq_ok compiles) (forall₂_of_mapM_eq_ok makes)
  intro block isBlock item rules compilesClass makesRules
  have unmarkedBlock := markerFree.classes block isBlock
  obtain ⟨style, queries, reads, wellRead, rfl⟩ :=
    exists_style_of_compileClass soundTheme soundConstants unmarkedBlock.2 compilesClass
  obtain ⟨selectors, sameLength, _, isSection⟩ := exists_selectors_of_classRules wellRead
    (Naming.madeOf_final (by decide) markerFree.scope unmarkedBlock.1)
    (unmarked_classNames markerFree compiles)
    makesRules
  refine ⟨style, queries, selectors, reads, sameLength, isSection, ?_⟩
  rw [isSection]
  intro rule isRule
  have declared : ∀ entry ∈ rule.declarations.entries, ∀ reference ∈ Reference.all entry.2, _ :=
    fun _ isEntry _ isReference => wellRead.declared _ selectors isRule isEntry isReference
  exact ⟨declared, Rule.isResolved_mapValues_iff declared⟩

end Source

/-- The style sheet of a text: a section for every keyframe and then one for every class. -/
def Sectioned (theme : Theme) (text css : Text) : Prop :=
  ∃ source environment constants keyframes sections, Source.parse text = .ok source ∧
    source.environment theme = .ok environment ∧
    Source.compileConstants environment source.constants = .ok constants ∧
    List.Forall₂ (fun block keyframe => keyframe.IsSection environment block) source.keyframes
      keyframes ∧
    List.Forall₂ (Source.IsClassSection environment source.scope constants) source.classes sections ∧
    css = keyframes.flatMap Keyframe.render ++ sections.flatMap renderRules

/-- Every variable that a value of a style sheet refers to is declared in the section that refers to
it, under the name by which it is referred to; a variable in the condition of a rule is not. -/
theorem sectioned_of_compile {texts : Theme.Texts} {theme : Theme}
    (built : Theme.ofTexts texts = .ok theme) {text css : Text}
    (compiles : compile theme text = .ok css) : Sectioned theme text css := by
  rw [compile] at compiles
  simp only [Source.compile, bind_eq_ok, pure, Except.pure, Except.ok.injEq] at compiles
  obtain ⟨source, parsed, _, ⟨compiled, assembles, _, _, rfl⟩, rfl⟩ := compiles
  obtain ⟨environment, sections, isEnvironment, compilesConstants, compilesClasses,
    compilesKeyframes, makesSections, isCss⟩ := Source.assemble_eq_ok assembles
  have soundTheme : environment.theme.Sound := by
    rw [Source.theme_of_environment isEnvironment]
    exact Theme.sound_of_ofTexts built
  refine ⟨source, environment, compiled.constants, compiled.keyframes, sections, parsed,
    isEnvironment, compilesConstants, ?_, ?_, isCss⟩
  · exact (forall₂_of_mapM_eq_ok compilesKeyframes).imp fun _ _ compilesKeyframe =>
      Keyframe.isSection_of_compile soundTheme compilesKeyframe
  · exact Source.isClassSection_of_assemble soundTheme (Source.markerFree_of_parse parsed)
      (Source.sound_of_compileConstants soundTheme compilesConstants) compilesClasses makesSections

set_option maxRecDepth 100000 in
theorem sectioned_of_compile_preset :
    let texts : Theme.Texts := { typography := [("h", "fs[--&x]")] }
    let text : Text := "@scope s\n.b \x7b\n--&x[2px]\nhover($c[red])\n@query i \x7b\nty[h]\n\x7d\n\x7d"
    let css : Text := ":root\x7b--c-s_b-hover:red;\x7d.s_b\x7b--x-s_b:2px;\x7d" ++
      ".s_b:hover\x7bcolor:var(--c-s_b-hover);\x7d.s_b i\x7bfont-size:var(--x-s_b);\x7d"
    ∃ theme, Theme.ofTexts texts = .ok theme ∧ compile theme text = .ok css ∧
      Sectioned theme text css := by
  intro texts text css
  have evaluates : (Theme.ofTexts texts >>= fun theme => compile theme text) = .ok css := by
    unfold text css
    repeat rw [Text.ofString_ofList]
    decide +kernel
  obtain ⟨theme, built, compiles⟩ := bind_eq_ok.mp evaluates
  exact ⟨theme, built, compiles, sectioned_of_compile built compiles⟩

/-- A local variable in a condition gets to the style sheet as it is, declared or not. -/
theorem compile_local_in_condition :
    let css : Text := "@media only screen and (min-width:--&x)\x7b.a\x7bwidth:2px;\x7d\x7d"
    compile {} ".a \x7b screen(min-w[--&x], w[2px]) \x7d" = .ok css ∧
      Value.localNames css = ["x"] := by
  intro css
  unfold css
  repeat rw [Text.ofString_ofList]
  decide +kernel

end TerseStyle

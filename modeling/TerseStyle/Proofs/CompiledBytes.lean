import TerseStyle.Proofs.Safety
import TerseStyle.Proofs.Source
import TerseStyle.Proofs.StatementBytes

/-!
# Style sheets that have bytes

A source that has bytes is cut into parts that have bytes, and the style sheet that is written from
them has bytes, under a theme whose texts have bytes. The same holds of the message of the error if
the source is refused.
-/

namespace TerseStyle

open Text (HasBytes)

attribute [local simp] Reports Error.MadeOf Cause.describe

/-! ## Queries -/

namespace Selector

theorem hasBytes_read {written : Text} (hasBytes : HasBytes written) : HasBytes (read written) := by
  have withStates : HasBytes (Text.replaceItems recogniseState writeState written) :=
    madeOf_replaceStates (by simp) Vocabulary.hasBytes_of_pluginStateSelector? hasBytes
  refine Text.MadeOf.collapse ?_ (by simp)
  apply withStates.replaceItems
  intro suffix name width ofSuffix found
  have ofName : (Reference.scope name).HasBytes := by
    unfold recogniseScope at found
    split at found
    · simp at found
    · next begins =>
      rw [Text.dropBeginning?_eq_some begins] at ofSuffix
      simp only [Text.madeOf_append] at ofSuffix
      simp only at found
      split at found
      · simp at found
      · cases found
        exact ofSuffix.2.of_subset fun c => (List.takeWhile_sublist _).mem
  exact Reference.hasBytes_render_iff.mpr ofName

theorem yields_nest {names : OrderedMap Text Text} (ofNames : Properties.HasBytes names)
    {parent selector : Text} (ofParent : HasBytes parent) (ofSelector : HasBytes selector) :
    Yields HasBytes (nest names parent selector) := by
  have resolved : Yields HasBytes (Reference.resolveScope (ofClass names)
      (Text.trim selector)) := by
    apply ofSelector.trim.replaceItemsM
    intro suffix reference width ofSuffix found
    have ofReference := Reference.hasBytes_of_recognise ofSuffix found
    cases reference with
    | runtime abbreviation block => exact Reference.hasBytes_render_iff.mpr ofReference
    | localVariable name => exact Reference.hasBytes_render_iff.mpr ofReference
    | scope name =>
        have ofName : HasBytes name := ofReference
        simp only [ofClass]
        split
        · next display isClass =>
          have ofDisplay : HasBytes display := ofNames.of_get? isClass
          exact Reports.ok (by simp [ofDisplay])
        · simp [ofName]
  apply resolved.map
  intro resolved ofResolved
  split
  · exact ofParent.replaceChar ofResolved
  · simp [ofParent, ofResolved]

end Selector

namespace QueryTree

/-- A query as it is read from a body that has bytes. -/
abbrev IsWritten : QueryTree → Prop :=
  ReadFrom Text.IsCharacter Text.HasBytes

variable {environment : Environment} {constants : Constants}

theorem yields_queryLines (hasBytes : environment.HasBytes) (ofConstants : constants.HaveBytes)
    {lines : List Text} (ofLines : ∀ line ∈ lines, Text.HasBytes line) {style : Style}
    (isEmpty : style = ∅) :
    (style.dispatchLines { environment with context := .query } constants true lines).Yields
      Style.HasBytes := by
  have queryHasBytes : { environment with context := .query }.HasBytes :=
    ⟨hasBytes.theme, hasBytes.keyframes⟩
  rw [isEmpty]
  exact Style.yields_dispatchLines queryHasBytes ofConstants true ofLines Style.hasBytes_empty

theorem hasBytes_of_compileForest_failure (hasBytes : environment.HasBytes)
    (ofConstants : constants.HaveBytes) (forest : List QueryTree)
    (ofForest : Every IsWritten forest) (error : Error)
    (failed : (compileForest environment constants forest).failure = some error) :
    error.HasBytes := by
  induction forest using forest_induction with
  | nil => simp [compileForest] at failed
  | cons selector lines style children rest inner onwards =>
      rcases every_cons.mp ofForest with ⟨ofNode, ofChildren, ofRest⟩
      rcases failure_compileForest_cons failed with failedLines | failedChildren | failedRest
      · exact (yields_queryLines hasBytes ofConstants ofNode.lines ofNode.style).failure _ failedLines
      · exact inner ofChildren failedChildren
      · exact onwards ofRest failedRest

/-- The selector and the style of a query have bytes. -/
structure Written (selector : Text) (style : Style) : Prop where
  selector : Text.HasBytes selector
  style : style.HasBytes

theorem yields_compileForest (hasBytes : environment.HasBytes) (ofConstants : constants.HaveBytes)
    {forest : List QueryTree} (ofForest : Every IsWritten forest) :
    Yields (Every fun query => Written query.selector query.style)
      (compileForest environment constants forest).toExcept := by
  have step : LinesLead environment constants IsWritten Written := by
    intro selector lines style children ofQuery
    exact ⟨ofQuery.selector,
      (yields_queryLines hasBytes ofConstants ofQuery.lines ofQuery.style).state⟩
  unfold Attempt.toExcept
  split
  · next error failed =>
    exact hasBytes_of_compileForest_failure hasBytes ofConstants forest ofForest error failed
  · next succeeded => exact every_compileForest step forest ofForest succeeded

end QueryTree

/-! ## Rules -/

/-- The condition, the selector and the declarations of the rule have bytes. -/
structure Rule.HasBytes (rule : Rule) : Prop where
  wrapper : ∀ wrapper, rule.wrapper = some wrapper → Text.HasBytes wrapper
  selector : Text.HasBytes rule.selector
  declarations : Properties.HasBytes rule.declarations

theorem Rule.hasBytes_render {rule : Rule} (hasBytes : rule.HasBytes) :
    Text.HasBytes rule.render := by
  have inner := madeOf_enclose (by simp) hasBytes.selector
    (madeOf_renderDeclarations (by simp) hasBytes.declarations)
  unfold render
  simp only
  split
  · exact inner
  · next wrapper isWrapper =>
    exact madeOf_enclose (by simp) (hasBytes.wrapper wrapper isWrapper) inner

theorem hasBytes_renderRules {rules : List Rule} (hasBytes : ∀ rule ∈ rules, rule.HasBytes) :
    HasBytes (renderRules rules) :=
  .flatMap fun rule isRule => Rule.hasBytes_render (hasBytes rule isRule)

namespace Style

variable {style : Style}

theorem hasBytes_resolveLocals {owner : Text} (ofOwner : Text.HasBytes owner)
    {properties : Properties} (hasBytes : properties.HasBytes) :
    Properties.HasBytes (resolveLocals owner properties) := by
  apply hasBytes.map
  intro value ofValue
  apply ofValue.replaceItems
  intro suffix reference width ofSuffix found
  have ofReference := Reference.hasBytes_of_recognise ofSuffix found
  cases reference with
  | runtime abbreviation block => exact Reference.hasBytes_render_iff.mpr ofReference
  | scope name => exact Reference.hasBytes_render_iff.mpr ofReference
  | localVariable name =>
      have ofName : Text.HasBytes name := ofReference
      simp [Naming.use, Naming.localVariable, ofName, ofOwner]

theorem HasBytes.placeRules (hasBytes : style.HasBytes) {selector : Text}
    (ofSelector : Text.HasBytes selector) {own : Properties} (ofOwn : own.HasBytes) :
    ∀ rule ∈ style.placeRules selector own, rule.HasBytes := by
  have unwrapped : ∀ {selector : Text} {declarations : Properties}, Text.HasBytes selector →
      declarations.HasBytes → Rule.HasBytes { selector, declarations } :=
    fun ofSelector ofDeclarations => ⟨nofun, ofSelector, ofDeclarations⟩
  have wrapped : ∀ {wrapper selector : Text} {declarations : Properties}, Text.HasBytes wrapper →
      Text.HasBytes selector → declarations.HasBytes →
      Rule.HasBytes { wrapper := some wrapper, selector, declarations } := by
    intro wrapper selector declarations ofWrapper ofSelector ofDeclarations
    refine ⟨?_, ofSelector, ofDeclarations⟩
    rintro _ ⟨⟩
    exact ofWrapper
  intro rule isRule
  simp only [Style.placeRules, List.mem_append, List.mem_singleton, List.mem_map, Prod.exists]
    at isRule
  rcases isRule with (((((rfl | ⟨name, properties, isBlock, rfl⟩) | ⟨name, state, isState, rfl⟩) |
    ⟨block, isBlock, rfl⟩) | ⟨block, isBlock, rfl⟩) | ⟨name, properties, isBlock, rfl⟩) |
    ⟨name, properties, isBlock, rfl⟩
  · exact unwrapped ofSelector ofOwn
  · rcases hasBytes.states _ isBlock with ⟨ofName, ofProperties⟩
    exact unwrapped (by simp_all) ofProperties
  · rcases hasBytes.pluginStates _ isState with ⟨_, ofState, ofProperties⟩
    exact unwrapped (by simp_all) ofProperties
  · rcases hasBytes.screens _ isBlock with ⟨ofQuery, ofProperties⟩
    exact wrapped (by simp_all) ofSelector ofProperties
  · rcases hasBytes.containers _ isBlock with ⟨ofQuery, ofProperties⟩
    exact wrapped (by simp_all) ofSelector ofProperties
  · rcases hasBytes.pluginContainers _ isBlock with ⟨ofName, ofProperties⟩
    exact unwrapped (by simp_all) ofProperties
  · rcases hasBytes.elements _ isBlock with ⟨ofName, ofProperties⟩
    exact unwrapped (by simp_all) ofProperties

theorem HasBytes.rules (hasBytes : style.HasBytes) {owner selector : Text}
    (ofOwner : Text.HasBytes owner) (ofSelector : Text.HasBytes selector) {own : Properties}
    (ofOwn : own.HasBytes) : ∀ rule ∈ style.rules owner selector own, rule.HasBytes := by
  intro rule isRule
  rcases List.mem_map.mp isRule with ⟨written, isWritten, rfl⟩
  have ofWritten := hasBytes.placeRules ofSelector ofOwn written (List.mem_of_mem_filter isWritten)
  exact ⟨ofWritten.wrapper, ofWritten.selector,
    hasBytes_resolveLocals ofOwner ofWritten.declarations⟩

theorem HasBytes.ownProperties (hasBytes : style.HasBytes) {display : Text}
    (ofDisplay : Text.HasBytes display) : Properties.HasBytes (style.ownProperties display) := by
  apply OrderedMap.Every.merge _ hasBytes.base
  apply OrderedMap.every_ofList
  intro entry isEntry
  rcases List.mem_map.mp isEntry with ⟨own, isOwn, rfl⟩
  rcases hasBytes.localVariables own isOwn with ⟨ofName, ofValue⟩
  exact ⟨by simp [Naming.localVariable, ofName, ofDisplay], ofValue⟩

theorem HasBytes.rootRules (hasBytes : style.HasBytes) :
    ∀ rule ∈ style.rootRules, rule.HasBytes := by
  intro rule isRule
  unfold Style.rootRules at isRule
  split at isRule
  · simp at isRule
  · rw [List.mem_singleton.mp isRule]
    exact ⟨nofun, by simp, hasBytes.rootVariables⟩

end Style

theorem QueryTree.every_of_mem {Good : QueryTree → Prop} {forest : List QueryTree}
    (every : Every Good forest) {tree : QueryTree} (isTree : tree ∈ forest) :
    Every Good [tree] := by
  rcases List.append_of_mem isTree with ⟨before, after, rfl⟩
  intro query isQuery
  apply every
  rw [preorder_append, ← List.singleton_append, preorder_append]
  exact List.mem_append_right _ (List.mem_append_left _ isQuery)

theorem QueryTree.yields_rules {names : OrderedMap Text Text} (ofNames : Properties.HasBytes names)
    {owner : Text} (ofOwner : Text.HasBytes owner) (queries : List (Text × QueryTree))
    (ofQueries : ∀ query ∈ queries, Text.HasBytes query.1 ∧
      Every (fun query => Written query.selector query.style) [query.2]) :
    Yields (fun rules => ∀ rule ∈ rules, rule.HasBytes) (rules names owner queries) := by
  fun_induction rules names owner queries with
  | case1 => exact Reports.ok (by simp)
  | case2 parent written lines style children rest ih =>
      rw [List.forall_mem_cons] at ofQueries
      rcases ofQueries with ⟨⟨ofParent, ofNode⟩, ofRest⟩
      rcases every_cons.mp ofNode with ⟨ofQuery, ofChildren, _⟩
      apply (Selector.yields_nest ofNames ofParent ofQuery.selector).bind
      intro selector ofSelector
      have ofMore := ih selector (by
        rw [List.forall_mem_append]
        refine ⟨?_, ofRest⟩
        intro query isQuery
        rcases List.mem_map.mp isQuery with ⟨child, isChild, rfl⟩
        exact ⟨ofSelector, every_of_mem ofChildren isChild⟩)
      apply ofMore.bind
      intro more ofMore
      exact List.forall_mem_append.mpr
        ⟨ofQuery.style.rules ofOwner ofSelector ofQuery.style.base, ofMore⟩

theorem yields_classRules {names : OrderedMap Text Text} (ofNames : Properties.HasBytes names)
    {display : Text} (ofDisplay : HasBytes display) {style : Style} (ofStyle : style.HasBytes)
    {queries : List QueryTree}
    (ofQueries : QueryTree.Every (fun query =>
      QueryTree.Written query.selector query.style) queries) :
    Yields (fun rules => ∀ rule ∈ rules, rule.HasBytes)
      (classRules names display style queries) := by
  have ofSelector : HasBytes ("." ++ display) := by simp [ofDisplay]
  have ofNested := QueryTree.yields_rules ofNames ofDisplay
    (QueryTree.under ("." ++ display) queries) (by
      intro query isQuery
      rcases List.mem_map.mp isQuery with ⟨tree, isTree, rfl⟩
      exact ⟨ofSelector, QueryTree.every_of_mem ofQueries isTree⟩)
  apply ofNested.map
  intro nested ofNested
  rw [List.forall_mem_append, List.forall_mem_append]
  exact ⟨⟨ofStyle.rootRules, ofStyle.rules ofDisplay ofSelector (ofStyle.ownProperties ofDisplay)⟩,
    ofNested⟩

/-! ## Naming runtime variables -/

namespace Attempt.Yields

variable {κ σ : Type} {Key : κ → Prop} {Kept : σ → Prop}

theorem mapList {change : σ → Attempt σ} (ofChange : ∀ item, Kept item → (change item).Yields Kept)
    {items : List σ} (ofItems : ∀ item ∈ items, Kept item) :
    (mapList change items).Yields fun items => ∀ item ∈ items, Kept item := by
  induction items with
  | nil => exact done (by simp)
  | cons item rest ih =>
      rw [List.forall_mem_cons] at ofItems
      have ofFirst := ofChange item ofItems.1
      rw [Attempt.mapList]
      split
      · next error isFailure =>
        exact failed (List.forall_mem_cons.mpr ⟨ofFirst.state, ofItems.2⟩)
          (ofFirst.failure error isFailure)
      · exact (ih ofItems.2).map fun ofRest =>
          List.forall_mem_cons.mpr ⟨ofFirst.state, ofRest⟩

theorem mapValues {change : σ → Attempt σ}
    (ofChange : ∀ value, Kept value → (change value).Yields Kept) {source : OrderedMap κ σ}
    (ofSource : source.Every Key Kept) : (mapValues change source).Yields (·.Every Key Kept) := by
  have ofEntries : (mapEntries change source.entries).Yields fun entries =>
      ∀ entry ∈ entries, Key entry.1 ∧ Kept entry.2 := by
    apply mapList _ ofSource
    intro entry ofEntry
    exact (ofChange entry.2 ofEntry.2).map fun ofValue => ⟨ofEntry.1, ofValue⟩
  exact ⟨ofEntries.state, ofEntries.failure⟩

end Attempt.Yields

theorem Properties.yields_changeValues {change : Text → Except Error Text}
    (ofChange : ∀ value, Text.HasBytes value → Yields Text.HasBytes (change value))
    {properties : Properties} (hasBytes : properties.HasBytes) :
    (properties.changeValues change).Yields HasBytes := by
  apply Attempt.Yields.mapValues _ hasBytes
  intro value ofValue
  have yields := ofChange value ofValue
  cases changed : change value with
  | error error => exact .failed ofValue (yields.of_error changed)
  | ok result => exact .done (yields.of_ok changed)

namespace Style

theorem yields_changeValues {change : Text → Except Error Text}
    (ofChange : ∀ value, Text.HasBytes value → Yields Text.HasBytes (change value)) {style : Style}
    (hasBytes : style.HasBytes) : (style.changeValues change).Yields HasBytes := by
  have inProperties : ∀ properties : Properties, properties.HasBytes →
      (properties.changeValues change).Yields Properties.HasBytes :=
    fun _ => Properties.yields_changeValues ofChange
  have inConditional : ∀ block : Conditional, block.HasBytes →
      ((block.properties.changeValues change).map fun properties =>
        { block with properties }).Yields Conditional.HasBytes := by
    intro block ofBlock
    exact (inProperties _ ofBlock.2).map fun ofProperties => ⟨ofBlock.1, ofProperties⟩
  have inPluginState : ∀ state : PluginState, state.HasBytes →
      ((state.properties.changeValues change).map fun properties =>
        { state with properties }).Yields PluginState.HasBytes := by
    intro state ofState
    exact (inProperties _ ofState.2).map fun ofProperties => ⟨ofState.1, ofProperties⟩
  unfold changeValues
  refine Attempt.Yields.andThen (Attempt.Yields.andThen (Attempt.Yields.andThen
    (Attempt.Yields.andThen (Attempt.Yields.andThen (Attempt.Yields.andThen
      (Attempt.Yields.map (inProperties _ hasBytes.base) fun base =>
        { hasBytes with base }) ?_) ?_) ?_) ?_) ?_) ?_
  · intro style ofStyle
    exact (Attempt.Yields.mapValues inProperties ofStyle.states).map fun states =>
      { ofStyle with states }
  · intro style ofStyle
    exact (Attempt.Yields.mapValues inPluginState ofStyle.pluginStates).map fun pluginStates =>
      { ofStyle with pluginStates }
  · intro style ofStyle
    exact (Attempt.Yields.mapList inConditional ofStyle.screens).map fun screens =>
      { ofStyle with screens }
  · intro style ofStyle
    exact (Attempt.Yields.mapList inConditional ofStyle.containers).map fun containers =>
      { ofStyle with containers }
  · intro style ofStyle
    exact (Attempt.Yields.mapValues inProperties ofStyle.pluginContainers).map
      fun pluginContainers => { ofStyle with pluginContainers }
  · intro style ofStyle
    exact (Attempt.Yields.mapValues inProperties ofStyle.elements).map fun elements =>
      { ofStyle with elements }

end Style

theorem Pending.HasBytes.declarations {pending : Pending} (hasBytes : pending.HasBytes)
    {display : Text} (ofDisplay : Text.HasBytes display) :
    Properties.HasBytes (pending.declarations display) := by
  have ofBlocks : ∀ block ∈ pending.blocks, Text.HasBytes block.1 ∧
      Properties.HasBytes block.2 := by
    simp only [blocks, List.cons_append, List.forall_mem_cons, List.forall_mem_append]
    exact ⟨⟨Text.madeOf_nil, hasBytes.base⟩, ⟨hasBytes.states, hasBytes.elements⟩,
      hasBytes.containers⟩
  apply OrderedMap.every_ofList
  intro entry isEntry
  rcases List.mem_map.mp isEntry with ⟨⟨block, name, default⟩, isDefault, rfl⟩
  rcases mem_defaults_iff.mp isDefault with ⟨properties, isBlock, isVariable⟩
  rcases ofBlocks _ isBlock with ⟨ofBlock, ofProperties⟩
  rcases ofProperties _ isVariable with ⟨ofName, ofDefault⟩
  refine ⟨?_, ofDefault⟩
  simp only [Naming.runtime]
  split
  · simp_all
  · simp_all

theorem Pending.HasBytes.drained {pending : Pending} (hasBytes : pending.HasBytes) :
    pending.drained.HasBytes where
  base := OrderedMap.every_empty
  states := hasBytes.states.map fun _ _ => OrderedMap.every_empty
  elements := hasBytes.elements.map fun _ _ => OrderedMap.every_empty
  containers := hasBytes.containers.map fun _ _ => OrderedMap.every_empty

theorem Style.yields_nameVariables {style : Style} (hasBytes : style.HasBytes) {display : Text}
    (ofDisplay : Text.HasBytes display) (scope : Text) :
    (style.nameVariables display scope).Yields HasBytes := by
  have declared : { style with
      rootVariables := style.rootVariables.merge (style.pending.declarations display)
      pending := style.pending.drained }.HasBytes :=
    { hasBytes with
      rootVariables := hasBytes.rootVariables.merge (hasBytes.pending.declarations ofDisplay)
      pending := hasBytes.pending.drained }
  unfold nameVariables
  simp only
  split
  · exact .failed hasBytes (by simp [ofDisplay])
  · split
    · exact .done declared
    · apply yields_changeValues _ declared
      intro value ofValue
      apply ofValue.replaceItemsM
      intro suffix reference width ofSuffix found
      have ofReference := Reference.hasBytes_of_recognise ofSuffix found
      cases reference with
      | localVariable name => exact Reference.hasBytes_render_iff.mpr ofReference
      | scope name => exact Reference.hasBytes_render_iff.mpr ofReference
      | runtime abbreviation block =>
          rcases ofReference with ⟨ofName, ofBlock⟩
          simp only [useRuntime]
          split
          · apply Reports.ok
            simp only [Naming.use, Naming.runtime]
            split <;> simp_all
          · simp [ofName, ofDisplay]

/-! ## Sources -/

/-- The final name, the style and the queries of the class have bytes. -/
structure CompiledClass.HasBytes (compiled : CompiledClass) : Prop where
  name : Text.HasBytes compiled.name
  display : Text.HasBytes compiled.display
  style : compiled.style.HasBytes
  queries : QueryTree.Every (fun query => QueryTree.Written query.selector query.style)
    compiled.queries

namespace Source

/-- The names and bodies of the parts of the source have bytes. -/
abbrev HasBytes : Source → Prop :=
  MadeOf Text.IsCharacter

theorem HasBytes.scope {source : Source} (hasBytes : source.HasBytes) :
    Text.HasBytes source.scope :=
  Directive.madeOf_scope (by simp [Naming.noScope]) hasBytes.directives

theorem yields_environment {theme : Theme} (ofTheme : theme.HasBytes) {source : Source}
    (hasBytes : source.HasBytes) :
    Yields Environment.HasBytes (source.environment theme) := by
  have ofScope := hasBytes.scope
  have ofDirectives : ∀ directives : List Directive,
      (∀ directive ∈ directives, directive.MadeOf Text.IsCharacter) →
      Yields (fun _ => True) (checkDirectives directives) := by
    intro directives ofDirectives
    fun_induction checkDirectives directives with
    | case1 => exact trivial
    | case2 _ _ _ ih =>
        exact ih (List.forall_mem_cons.mp ofDirectives).2
    | case3 directive _ _ =>
        have ofName := (List.forall_mem_cons.mp ofDirectives).1.1
        simp [ofName]
  have ofNames : ∀ (blocks : List KeyframeBlock), (∀ block ∈ blocks, Text.HasBytes block.name) →
      ∀ names : OrderedMap Text Text, Properties.HasBytes names →
      Yields Properties.HasBytes (blocks.foldlM (fun names block =>
        if names.contains block.name then
          .error (Cause.duplicateBlock "keyframe" block.name : Cause)
        else .ok (names.insert block.name (Naming.final source.scope block.name))) names) := by
    intro blocks
    induction blocks with
    | nil => exact fun _ names namesHaveBytes => namesHaveBytes
    | cons block rest ih =>
        intro ofBlocks names namesHaveBytes
        rw [List.forall_mem_cons] at ofBlocks
        rw [List.foldlM_cons]
        apply Reports.bind _ (ih ofBlocks.2)
        split
        · simp [ofBlocks.1]
        · intro entry isEntry
          rcases OrderedMap.mem_entries_insert isEntry with isOld | rfl
          · exact namesHaveBytes entry isOld
          · exact ⟨ofBlocks.1, Naming.madeOf_final (by simp) ofScope ofBlocks.1⟩
  apply (ofDirectives _ hasBytes.directives).bind
  intro _ _
  apply (ofNames _ (fun block isBlock => (hasBytes.keyframes block isBlock).1) ∅
    OrderedMap.every_empty).bind
  intro keyframes ofKeyframes
  exact ⟨ofTheme, ofKeyframes⟩

theorem yields_compileConstants {environment : Environment} (hasBytes : environment.HasBytes)
    {blocks : List ConstantBlock}
    (ofBlocks : ∀ block ∈ blocks, ∀ statement ∈ block.statements, Text.HasBytes statement) :
    Yields Constants.HaveBytes (compileConstants environment blocks) := by
  have constantHasBytes : { environment with context := .constant }.HasBytes :=
    ⟨hasBytes.theme, hasBytes.keyframes⟩
  have compiled : Yields (fun compiled => ∀ entry ∈ compiled, Style.HasBytes entry.2)
      (blocks.mapM fun block => do
        let attempt := (∅ : Style).dispatchAll { environment with context := .constant }
          block.statements
        return (block.name, ← attempt.toExcept)) := by
    apply Reports.mapM
    intro block isBlock
    apply (Style.yields_dispatchAll constantHasBytes (ofBlocks block isBlock)
      Style.hasBytes_empty).toExcept.bind
    exact fun style ofStyle => ofStyle
  apply compiled.bind
  intro compiled ofCompiled name fragment found
  exact ofCompiled _ (OrderedMap.mem_entries_ofList (OrderedMap.get?_eq_some_iff.mp found))

theorem yields_checkLocals {scope name : Text} (ofScope : Text.HasBytes scope)
    (ofName : Text.HasBytes name) {style : Style} (ofStyle : style.HasBytes)
    {queries : List QueryTree}
    (ofQueries : QueryTree.Every (fun query =>
      QueryTree.Written query.selector query.style) queries) :
    Yields (fun _ => True) (checkLocals scope name style queries) := by
  have ofUsed : Names.HasBytes (usedLocals style queries) := by
    apply List.foldlRecOn _ _ ofStyle.usedLocals
    intro names ofNames query isQuery
    exact ofNames.merge (ofQueries query isQuery).style.usedLocals
  unfold checkLocals
  simp only
  split
  · exact trivial
  · next undeclared found =>
    have isUsed : undeclared ∈ (usedLocals style queries).keys :=
      List.mem_mergeSort.mp (List.mem_of_find?_eq_some found)
    rcases List.mem_map.mp isUsed with ⟨entry, isEntry, rfl⟩
    have ofUndeclared := (ofUsed entry isEntry).1
    simp [ofUndeclared, ofName, ofScope]

theorem yields_compileClass {environment : Environment} (hasBytes : environment.HasBytes)
    {scope : Text} (ofScope : Text.HasBytes scope) {constants : Constants}
    (ofConstants : constants.HaveBytes) {block : ClassBlock} (ofName : Text.HasBytes block.name)
    (ofBody : Text.HasBytes block.body) :
    Yields CompiledClass.HasBytes (compileClass environment scope constants block) := by
  have ofDisplay := Naming.madeOf_final (by simp) ofScope ofName
  have reads : Yields (fun read => read.1.HasBytes ∧
      QueryTree.Every (fun query => QueryTree.Written query.selector query.style) read.2)
      (readClass environment scope constants block) := by
    apply (QueryTree.reports_parse (fun _ => Selector.hasBytes_read) ofBody).bind
    intro parsed ofParsed
    apply (Style.yields_dispatchLines hasBytes ofConstants false ofParsed.1
      Style.hasBytes_empty).toExcept.bind
    intro style ofStyle
    apply (QueryTree.yields_compileForest hasBytes ofConstants ofParsed.2).bind
    intro queries ofQueries
    apply (yields_checkLocals ofScope ofName ofStyle ofQueries).bind
    exact fun _ _ => ⟨ofStyle, ofQueries⟩
  apply reads.bind
  intro read ofRead
  apply (Style.yields_nameVariables ofRead.1 ofDisplay scope).toExcept.bind
  intro style ofStyle
  exact ⟨ofName, ofDisplay, ofStyle, ofRead.2⟩

theorem yields_checkBindings {names : OrderedMap Text Text} (keys : List Text)
    {directives : List Directive}
    (ofDirectives : ∀ directive ∈ directives, directive.MadeOf Text.IsCharacter) :
    Yields (fun _ => True) (checkBindings names keys directives) := by
  have ofClasses : ∀ references : List Text, (∀ reference ∈ references, Text.HasBytes reference) →
      Yields (fun _ => True) (checkBoundClasses names references) := by
    intro references ofReferences
    fun_induction checkBoundClasses names references with
    | case1 => exact trivial
    | case2 _ _ _ ih =>
        exact ih (List.forall_mem_cons.mp ofReferences).2
    | case3 rest name _ =>
        have ofName := (Text.madeOf_cons.mp (List.forall_mem_cons.mp ofReferences).1).2
        simp [ofName]
    | case4 reference _ _ =>
        have ofReference := (List.forall_mem_cons.mp ofReferences).1
        simp [ofReference]
  fun_induction checkBindings names keys directives with
  | case1 => exact trivial
  | case2 _ _ _ _ ih =>
      exact ih (List.forall_mem_cons.mp ofDirectives).2
  | case3 keys directive rest _ key reference references isWords _
  | case4 keys directive rest _ key reference references isWords _ _ =>
      have ofKey : Text.HasBytes key :=
        (List.forall_mem_cons.mp ofDirectives).1.2.of_mem_words (isWords ▸ List.mem_cons_self)
      simp [ofKey]
  | case5 keys directive rest _ key reference references isWords _ _ error refused =>
      have ofReferences : ∀ word ∈ reference :: references, Text.HasBytes word := fun word isWord =>
        (List.forall_mem_cons.mp ofDirectives).1.2.of_mem_words
          (isWords ▸ List.mem_cons_of_mem _ isWord)
      exact (ofClasses _ ofReferences).of_error refused
  | case6 _ _ _ _ _ _ _ _ _ _ _ ih =>
      exact ih (List.forall_mem_cons.mp ofDirectives).2
  | case7 keys directive rest _ _ =>
      have ofValue := (List.forall_mem_cons.mp ofDirectives).1.2
      simp [ofValue]

end Source

/-! ## Keyframes -/

namespace Keyframe

/-- The final name, the steps and the variables of the keyframe have bytes. -/
structure HasBytes (keyframe : Keyframe) : Prop where
  final : Text.HasBytes keyframe.final
  steps : ∀ step ∈ keyframe.steps, Text.HasBytes step.label ∧ Properties.HasBytes step.properties
  rootVariables : Properties.HasBytes keyframe.rootVariables

theorem hasBytes_of_readStep? {statement label inside : Text} (hasBytes : Text.HasBytes statement)
    (found : readStep? statement = some (label, inside)) :
    Text.HasBytes label ∧ Text.HasBytes inside := by
  rw [readStep?_eq_some found] at hasBytes
  simp only [Text.madeOf_append, Text.madeOf_cons] at hasBytes
  exact ⟨hasBytes.1, hasBytes.2.2.1⟩

theorem yields_compileStep {environment : Environment} (hasBytes : environment.HasBytes)
    (scope : Text) {final statement : Text} (ofFinal : Text.HasBytes final)
    (ofStatement : Text.HasBytes statement) :
    Yields (fun step => (Text.HasBytes step.1.label ∧ Properties.HasBytes step.1.properties) ∧
      Properties.HasBytes step.2) (compileStep environment scope final statement) := by
  have parsed : Yields (fun parts => Text.HasBytes parts.1 ∧ Text.HasBytes parts.2)
      (parseStep statement) := by
    unfold parseStep
    split
    · simp [ofStatement]
    · next label inside isStep =>
      rcases hasBytes_of_readStep? ofStatement isStep with ⟨ofLabel, ofInside⟩
      split
      · simp [ofLabel, ofStatement]
      · split
        · simp [ofStatement]
        · split
          · simp [ofStatement]
          · exact ⟨ofLabel, ofInside⟩
  have keyframeHasBytes : { environment with context := .keyframe }.HasBytes :=
    ⟨hasBytes.theme, hasBytes.keyframes⟩
  have reads : Yields (fun read => Text.HasBytes read.1 ∧ read.2.HasBytes)
      (readStyle environment statement) := by
    apply parsed.bind
    intro parts ofParts
    apply (Style.yields_dispatchBody keyframeHasBytes ofParts.2 Style.hasBytes_empty).toExcept.bind
    exact fun style ofStyle => ⟨ofParts.1, ofStyle⟩
  apply reads.bind
  intro read ofRead
  have ofDisplay : Text.HasBytes (stepDisplay final read.1) := by
    have ofBase : Text.HasBytes (baseLabel read.1) :=
      ofRead.1.of_subset fun c isChar => List.mem_of_mem_filter isChar
    simp [stepDisplay, ofFinal, ofBase]
  apply (Style.yields_nameVariables ofRead.2 ofDisplay scope).toExcept.bind
  intro style ofStyle
  exact ⟨⟨ofRead.1, ofStyle.base⟩, ofStyle.rootVariables⟩

theorem yields_compile {environment : Environment} (hasBytes : environment.HasBytes) {scope : Text}
    (ofScope : Text.HasBytes scope) {block : KeyframeBlock} (ofName : Text.HasBytes block.name)
    (ofBody : Text.HasBytes block.body) : Yields HasBytes (compile environment scope block) := by
  have ofFinal : Text.HasBytes
      ((environment.keyframes.get? block.name).getD (Naming.final scope block.name)) := by
    cases found : environment.keyframes.get? block.name with
    | none => exact Naming.madeOf_final (by simp) ofScope ofName
    | some final => exact hasBytes.keyframes.of_get? found
  apply (reports_statements (by simp) ofBody).bind
  intro statements ofStatements
  apply (Reports.mapM fun statement isStatement =>
    yields_compileStep hasBytes scope ofFinal (ofStatements statement isStatement)).bind
  intro steps ofSteps
  refine ⟨ofFinal, ?_, ?_⟩
  · intro step isStep
    rcases List.mem_map.mp isStep with ⟨compiled, isCompiled, rfl⟩
    exact (ofSteps compiled isCompiled).1
  · apply List.foldlRecOn _ _ OrderedMap.every_empty
    intro declared ofDeclared step isStep
    exact ofDeclared.merge (ofSteps step isStep).2

theorem hasBytes_render {keyframe : Keyframe} (hasBytes : keyframe.HasBytes) :
    Text.HasBytes keyframe.render := by
  have ofSteps : Text.HasBytes (keyframe.steps.flatMap fun step =>
      Rule.enclose step.label (Rule.renderDeclarations step.properties)) := by
    apply Text.MadeOf.flatMap
    intro step isStep
    rcases hasBytes.steps step isStep with ⟨ofLabel, ofProperties⟩
    exact Rule.madeOf_enclose (by simp) ofLabel
      (Rule.madeOf_renderDeclarations (by simp) ofProperties)
  have ofHead : Text.HasBytes ("@keyframes " ++ keyframe.final) := by simp [hasBytes.final]
  rw [render]
  simp only [Text.madeOf_append]
  refine ⟨?_, Rule.madeOf_enclose (by simp) ofHead ofSteps⟩
  split
  · exact Text.madeOf_nil
  · exact Rule.madeOf_enclose (by simp) (by simp)
      (Rule.madeOf_renderDeclarations (by simp) hasBytes.rootVariables)

end Keyframe

/-! ## Style sheets -/

theorem Source.yields_assemble {theme : Theme} (ofTheme : theme.HasBytes) {source : Source}
    (hasBytes : source.HasBytes) :
    Yields (fun compiled => Text.HasBytes compiled.css) (source.assemble theme) := by
  have ofScope := hasBytes.scope
  apply (yields_environment ofTheme hasBytes).bind
  intro environment environmentHasBytes
  apply (yields_compileConstants environmentHasBytes fun block isBlock =>
    (hasBytes.constants block isBlock).2).bind
  intro constants ofConstants
  apply (Reports.mapM fun block isBlock =>
    yields_compileClass environmentHasBytes ofScope ofConstants (hasBytes.classes block isBlock).1
      (hasBytes.classes block isBlock).2).bind
  intro classes ofClasses
  have ofNames : Properties.HasBytes
      (.ofList (classes.map fun item => (item.name, item.display))) := by
    apply OrderedMap.every_ofList
    intro entry isEntry
    rcases List.mem_map.mp isEntry with ⟨item, isItem, rfl⟩
    exact ⟨(ofClasses item isItem).name, (ofClasses item isItem).display⟩
  apply (yields_checkBindings [] hasBytes.directives).bind
  intro _ _
  apply (Reports.mapM fun block isBlock => Keyframe.yields_compile environmentHasBytes ofScope
    (hasBytes.keyframes block isBlock).1 (hasBytes.keyframes block isBlock).2).bind
  intro keyframes ofKeyframes
  apply (Reports.mapM fun item isItem => yields_classRules ofNames (ofClasses item isItem).display
    (ofClasses item isItem).style (ofClasses item isItem).queries).bind
  intro rules ofRules
  apply Reports.ok
  simp only [Text.madeOf_append]
  exact ⟨.flatMap fun keyframe isKeyframe => Keyframe.hasBytes_render (ofKeyframes _ isKeyframe),
    .flatMap fun ofClass isOfClass => hasBytes_renderRules (ofRules _ isOfClass)⟩

theorem Reference.hasBytes_of_leftover? {text reference : Text} (hasBytes : Text.HasBytes text)
    (isLeft : leftover? text = some reference) : Text.HasBytes reference := by
  unfold leftover? at isLeft
  split at isLeft
  · simp at isLeft
  · next first rest isRest =>
    split at isLeft
    · cases isLeft
      have ofRest : Text.HasBytes (first :: rest) := by
        rw [← isRest]
        exact hasBytes.of_subset fun c => (List.dropWhile_sublist _).mem
      rcases Text.madeOf_cons.mp ofRest with ⟨isChar, ofMore⟩
      have ofName : Text.HasBytes (rest.takeWhile (· ≠ closing)) :=
        ofMore.of_subset fun c => (List.takeWhile_sublist _).mem
      exact Text.madeOf_append.mpr ⟨Text.madeOf_cons.mpr ⟨isChar, ofName⟩, by simp [closing]⟩
    · simp at isLeft

/-- The style sheet of a source that has bytes has bytes, and so has the message of the error that
it is refused with. -/
theorem yields_compile {theme : Theme} (ofTheme : theme.HasBytes) {text : Text}
    (hasBytes : HasBytes text) : Yields HasBytes (compile theme text) := by
  apply (Source.reports_parse (by simp) (by simp) hasBytes).bind
  intro source ofSource
  have compiled : Yields (fun compiled => Text.HasBytes compiled.css) (source.compile theme) := by
    apply (Source.yields_assemble ofTheme ofSource).bind
    intro compiled ofCompiled
    have resolved : Yields (fun _ => True) (Source.checkResolved compiled.css) := by
      unfold Source.checkResolved
      split
      · exact trivial
      · next reference isLeft =>
        have ofReference := Reference.hasBytes_of_leftover? ofCompiled isLeft
        simp [ofReference]
    exact resolved.bind fun _ _ => ofCompiled
  exact compiled.bind fun compiled ofCompiled => ofCompiled

end TerseStyle

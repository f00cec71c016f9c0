import TerseStyle.Proofs.ClassText
import TerseStyle.Proofs.PlainBody
import TerseStyle.Proofs.Site

/-!
# What decides on a property

A block keeps for each property what the last of its declarations wrote for it, and so does a body
with its statements. The rules of a class are those of styles that gather what the bodies of the
class and of its queries say (`Source.gathersClass_of_compileClass`). So what a declaration wrote
can be followed into the style sheet if nothing that comes later decides on its property.
-/

namespace TerseStyle

/-! ## Statements -/

theorem Body.get?_ofProperties (property value : Text) :
    (ofProperties [property] value).properties.get? property = some value := by
  have isSingle : (ofProperties [property] value).properties = .single property value := rfl
  rw [isSingle, OrderedMap.get?_single, if_pos rfl]

/-- In the order of a draft, what an item writes for a property counts until a later item writes
the property again. -/
theorem Draft.get?_forEach {α : Type} {item : α → Draft Body Unit} {before after : List α}
    {token : α} {property value : Text}
    (ended : (forEach item (before ++ token :: after)).result = .ok ())
    (found : (item token).written.properties.get? property = some value)
    (last : ∀ later ∈ after, property ∉ (item later).written.properties.keys) :
    (forEach item (before ++ token :: after)).written.properties.get? property = some value := by
  induction before with
  | nil =>
      rw [List.nil_append, forEach] at ended ⊢
      rcases result_andThen_eq_ok.mp ended with ⟨_, isDone, _⟩
      have absent : (forEach item after).written.properties.get? property = none := by
        rw [OrderedMap.get?_eq_none_iff]
        apply @written_forEach Body α _ _ (fun body => property ∉ body.properties.keys) (by simp) _
          item after last
        intro left right ofLeft ofRight isKey
        rcases OrderedMap.mem_keys_merge.mp isKey with inLeft | inRight
        · exact ofLeft inLeft
        · exact ofRight inRight
      rw [andThen_of_ok isDone]
      simp [OrderedMap.merge, found, absent]
  | cons first before ih =>
      rw [List.cons_append, forEach] at ended ⊢
      rcases result_andThen_eq_ok.mp ended with ⟨_, isDone, ended⟩
      have later := ih ended
      rw [andThen_of_ok isDone]
      simp only [Body.properties_append, OrderedMap.merge, OrderedMap.get?_mergeWith, later]
      cases (item first).written.properties.get? property <;> rfl

theorem Slot.gives_place (slot : Slot) {body : Body} {property value : Text}
    (found : body.properties.get? property = some value) :
    (slot.place body).Gives property value (.inPlace slot.toPlace) := by
  cases slot <;>
    simpa [place, toPlace, Style.Gives, Style.propertiesAt, Blocks.propertiesAt] using found

theorem Condition.gives_place (kind : Condition) (query : Text) {properties : Properties}
    {property value : Text} (found : properties.get? property = some value) :
    (kind.place query properties).Gives property value (.under kind query) := by
  refine ⟨{ query, properties }, ?_, rfl, found⟩
  cases kind <;> exact List.mem_singleton_self _

theorem Condition.ofHead?_eq_none (kind : Condition) {head : Text}
    (isCondition : ofHead? head = some kind) : Slot.ofHead? head = none := by
  have areNone : Slot.ofHead? screen.head = none ∧ Slot.ofHead? container.head = none := by
    unfold Slot.ofHead? Vocabulary.pluginContainerClass? Vocabulary.pseudoClasses
      Vocabulary.pseudoElements Vocabulary.pluginContainers
    repeat rw [Text.ofString_ofList]
    decide +kernel
  rw [ofHead?] at isCondition
  split at isCondition
  · next isScreen => rw [isScreen, areNone.1]
  · split at isCondition
    · next isContainer => rw [isContainer, areNone.2]
    · simp at isCondition

namespace Environment

variable {environment : Environment} {isDeclared : Text → Bool} {statement property : Text}
  {declaration : Declaration}

theorem contribution_of_read? (reads : Declaration.read? (Text.trim statement) = some declaration) :
    environment.contribution isDeclared statement =
      environment.declare (.topLevel isDeclared) (Text.trim statement) declaration := by
  unfold contribution
  split
  · next isEmpty =>
    rw [isEmpty] at reads
    simp [Declaration.read?, Sigil.read, Declaration.readIdentifier?] at reads
  · next rest isDirective =>
    have noDeclaration : Declaration.read? (.char '@' :: rest) = none := rfl
    rw [isDirective, noDeclaration] at reads
    simp at reads
  · rw [blockParts?_of_read? (by simp [reads]), flat, Declaration.parse, reads,
      Draft.lift_ok_andThen]

/-- A block is read as such: it does not begin like a directive, and the context takes blocks. -/
def TakesBlock (environment : Environment) (statement : Text) : Prop :=
  (Text.trim statement).head? ≠ some (CodePoint.char '@') ∧
    environment.context.allowsBlocks = true

theorem takesBlock_of_noDirective
    (noDirective : ∀ rest, Text.trim statement = CodePoint.char '@' :: rest → False)
    (allowed : ¬(!environment.context.allowsBlocks) = true) : environment.TakesBlock statement := by
  refine ⟨?_, by simpa using allowed⟩
  intro begins
  rcases List.head?_eq_some_iff.mp begins with ⟨rest, isDirective⟩
  exact noDirective rest isDirective

variable {head inside : Text}

theorem takesBlock_of_ok (parts : blockParts? (Text.trim statement) = some (head, inside))
    (ended : (environment.contribution isDeclared statement).result = .ok ()) :
    environment.TakesBlock statement := by
  unfold contribution at ended
  split at ended
  · next isEmpty =>
    rw [isEmpty] at parts
    simp [blockParts?] at parts
  · simp [Draft.fail] at ended
  · next noDirective =>
    simp only [parts] at ended
    split at ended
    · simp [Draft.fail] at ended
    · next allowed => exact takesBlock_of_noDirective noDirective allowed

theorem contribution_of_blockParts?
    (parts : blockParts? (Text.trim statement) = some (head, inside))
    (takes : environment.TakesBlock statement) :
    environment.contribution isDeclared statement =
      (environment.block? head (Text.trim statement) inside).getD
        (environment.flat isDeclared (Text.trim statement)) := by
  unfold contribution
  split
  · next isEmpty =>
    rw [isEmpty] at parts
    simp [blockParts?] at parts
  · next rest isDirective => exact absurd (by rw [isDirective]; rfl) takes.1
  · simp [parts, takes.2]

theorem exists_value_of_blockBody {target : Target Body} {IsGood : Text → Prop} {token : Text}
    {before after : List Text} (splits : statements inside = .ok (before ++ token :: after))
    (given : (environment.blockToken target token).result = .ok () →
      ∃ value, (environment.blockToken target token).written.properties.get? property =
        some value ∧ IsGood value)
    (last : ∀ later ∈ after,
      property ∉ (environment.blockToken target later).written.properties.keys)
    (ended : (environment.blockBody target inside).result = .ok ()) :
    ∃ value, (environment.blockBody target inside).written.properties.get? property = some value ∧
      IsGood value := by
  rw [blockBody, splits, Draft.lift_ok_andThen] at ended ⊢
  rcases given (Draft.result_forEach.mp ended token (by simp)) with ⟨value, found, isGood⟩
  exact ⟨value, Draft.get?_forEach ended found last, isGood⟩

theorem contribution_of_slot {slot : Slot}
    (parts : blockParts? (Text.trim statement) = some (head, inside))
    (takes : environment.TakesBlock statement) (isSlot : Slot.ofHead? head = some slot) :
    environment.contribution isDeclared statement = environment.slotted slot inside := by
  rw [contribution_of_blockParts? parts takes, block?, isSlot]
  rfl

theorem contribution_of_condition {kind : Condition}
    (parts : blockParts? (Text.trim statement) = some (head, inside))
    (takes : environment.TakesBlock statement) (isCondition : Condition.ofHead? head = some kind) :
    environment.contribution isDeclared statement =
      environment.conditional kind (Text.trim statement) inside := by
  rw [contribution_of_blockParts? parts takes, block?, kind.ofHead?_eq_none isCondition, isCondition]
  rfl

end Environment

/-! ## Bodies and classes -/

namespace QueryTree

/-- A query before and after its lines were compiled. -/
def CompilesTo (environment : Environment) (constants : Constants) (query compiled : QueryTree) :
    Prop :=
  query.style.dispatchLines { environment with context := .query } constants true query.lines =
    { state := compiled.style }

theorem compilesTo_of_compileForest {environment : Environment} {constants : Constants}
    (forest : List QueryTree)
    (succeeded : (compileForest environment constants forest).failure = none) :
    List.Forall₂ (CompilesTo environment constants) (preorder forest)
      (preorder (compileForest environment constants forest).state) := by
  induction forest using forest_induction with
  | nil =>
      rw [compileForest, preorder_nil]
      exact .nil
  | cons selector lines style children rest inner onwards =>
      obtain ⟨ofLines, ofChildren, ofRest, isState⟩ := succeeded_compileForest_cons succeeded
      rw [isState, preorder_cons, preorder_cons]
      refine .cons ?_ (List.rel_append (inner ofChildren) (onwards ofRest))
      simp only [CompilesTo, QueryTree.style, QueryTree.lines]
      rw [← ofLines]

/-- The rules of a forest are those of its queries in order, each under a selector of its own. -/
theorem exists_groups_of_rules {names : OrderedMap Text Text} {owner : Text}
    {queries : List (Text × QueryTree)} {made : List Rule}
    (makes : rules names owner queries = .ok made) :
    ∃ groups, made = groups.flatten ∧ List.Forall₂ (fun query group =>
      ∃ selector, group = query.style.rules owner selector query.style.base)
        (preorder (queries.map Prod.snd)) groups := by
  fun_induction rules names owner queries generalizing made with
  | case1 =>
      rw [Except.ok.injEq] at makes
      exact ⟨[], by simp [← makes], by rw [List.map_nil, preorder_nil]; exact .nil⟩
  | case2 parent written lines style children rest ih =>
      simp only [bind_eq_ok, pure, Except.pure, Except.ok.injEq] at makes
      rcases makes with ⟨selector, _, more, makesRest, rfl⟩
      rcases ih selector makesRest with ⟨groups, rfl, areGroups⟩
      rw [List.map_append, map_snd_under] at areGroups
      refine ⟨style.rules owner selector style.base :: groups, rfl, ?_⟩
      rw [List.map_cons, preorder]
      exact .cons ⟨selector, rfl⟩ areGroups

end QueryTree

namespace Source

variable {source : Source} {environment : Environment} {constants : Constants}

/-- The rules of a body of a class, under a selector: they are those of a style that gathers what
the body says, perhaps after its runtime variables got their names. -/
def GathersBody (source : Source) (environment : Environment) (owner : Text) (lines : List Text)
    (selector : Text) (rules : List Rule) : Prop :=
  ∃ found style final own,
    statements (Text.joinWith ['\n'] (Query.statementLines lines)) = .ok found ∧
    Style.Gathers style (source.said environment lines found) ∧
    (final = style ∨ ∃ scope, style.nameVariables owner scope = { state := final }) ∧
    (∀ property value, final.base.get? property = some value →
      own.get? property = some value) ∧
    rules = final.rules owner selector own

/-- The rules of a class: after those of its root variables come those of its own body, and then
those of every query. -/
def GathersClass (source : Source) (environment : Environment) (block : ClassBlock)
    (rules : List Rule) : Prop :=
  let owner := Naming.final source.scope block.name
  ∃ lines forest root own nested, QueryTree.parse block.body = .ok (lines, forest) ∧
    rules = root ++ own ++ nested.flatten ∧
    source.GathersBody environment owner lines ("." ++ owner) own ∧
    List.Forall₂ (fun query group => ∃ selector,
      source.GathersBody { environment with context := .query } owner query.lines selector group)
        (QueryTree.preorder forest) nested

theorem gathersClass_of_compileClass
    (compiles : compileConstants environment source.constants = .ok constants) {block : ClassBlock}
    (unmarked : Reference.Unmarked block.body) {item : CompiledClass}
    (compilesClass : compileClass environment source.scope constants block = .ok item)
    {names : OrderedMap Text Text} {rules : List Rule}
    (makes : classRules names item.display item.style item.queries = .ok rules) :
    source.GathersClass environment block rules := by
  simp only [compileClass, readClass, bind_eq_ok, Prod.exists, Attempt.toExcept_eq_ok, pure,
    Except.pure, Except.ok.injEq, Prod.mk.injEq] at compilesClass
  rcases compilesClass with ⟨style, queries, ⟨lines, forest, parsed, _, dispatches, _,
    compilesForest, _, _, rfl, rfl⟩, final, namesVariables, rfl⟩
  rw [classRules, map_eq_ok] at makes
  rcases makes with ⟨nested, makesNested, rfl⟩
  rcases QueryTree.exists_groups_of_rules makesNested with ⟨groups, rfl, areGroups⟩
  rw [QueryTree.map_snd_under] at areGroups
  refine ⟨lines, forest, _, _, groups, parsed, rfl, ?_, ?_⟩
  · rcases gathers_of_dispatchLines compiles dispatches with ⟨found, splits, gathers⟩
    exact ⟨found, _, final, _, splits, gathers, Or.inr ⟨_, namesVariables⟩,
      fun _ _ => Style.get?_ownProperties _, rfl⟩
  · have compilesQueries := QueryTree.compilesTo_of_compileForest forest (by rw [compilesForest])
    rw [compilesForest] at compilesQueries
    have fresh := (QueryTree.fresh_of_parse unmarked parsed).2
    apply forall₂_of_steps compilesQueries areGroups
    rintro query isQuery compiled group compilesQuery ⟨selector, rfl⟩
    rw [QueryTree.CompilesTo, (fresh query isQuery).style] at compilesQuery
    rcases gathers_of_dispatchLines compiles compilesQuery with ⟨found, splits, gathers⟩
    exact ⟨selector, found, _, _, _, splits, gathers, Or.inl rfl, fun _ _ => id, rfl⟩

end Source

end TerseStyle

import TerseStyle.Proofs.Decided
import TerseStyle.Proofs.FirstWord
import TerseStyle.Proofs.SourceName
import TerseStyle.Proofs.VariableName

/-!
# Animations and the keyframes of a source

The value of an animation begins with the name of a keyframe. If the source declares the keyframe,
the name is made final before the value is resolved, and every later step keeps the first word of
the value. Only the wrapping of custom properties can still touch it: a final name that begins like
a custom property is taken for one and wrapped in `var()`.
-/

namespace TerseStyle

open Reference (IsName)

/-- The property that an animation sets, and the keyframe that its value names first. -/
structure Declaration.Animates (declaration : Declaration) (property keyframe : Text) : Prop where
  plain : declaration.sigil = .plain
  isProperty : declaration.name = "am" ∧ property = "animation" ∨
    declaration.name = "am-n" ∧ property = "animation-name"
  first : (Text.words declaration.value).head? = some keyframe

namespace Environment

variable {ω : Type} [EmptyCollection ω] [Append ω] {environment : Environment} {target : Target ω}
  {statement property keyframe final : Text} {declaration : Declaration}

theorem ledBy_of_renameKeyframe (isKeyframe : environment.keyframes.get? keyframe = some final)
    {value renamed : Text} (first : (Text.words value).head? = some keyframe)
    (renames : environment.renameKeyframe value = .ok renamed) : Value.LedBy final renamed := by
  rw [renameKeyframe] at renames
  split at renames
  · next isEmpty => simp [isEmpty] at first
  · next word rest isWords =>
    have isWord : word = keyframe := by simpa [isWords] using first
    have isFinal : environment.keyframe? word = some (.string final) := by
      simp [keyframe?, isWord, isKeyframe]
    rw [isFinal] at renames
    simp only [Except.ok.injEq] at renames
    rw [← renames]
    exact Value.ledBy_joinWith rest

/-- An animation of a keyframe of the source writes one property, with a value that begins with the
final name of the keyframe. -/
theorem exists_value_of_declare [Additive ω] (lawful : target.Lawful)
    (animates : declaration.Animates property keyframe)
    (isKeyframe : environment.keyframes.get? keyframe = some final) (isName : IsName final)
    (ended : (environment.declare target statement declaration).result = .ok ()) :
    ∃ used value, (environment.declare target statement declaration).written =
        target.contribute { Body.ofProperties [property] value with usedLocals := used } ∧
      Value.LedBy (Value.wrapVariables final) value := by
  have isAnimation : declaration.name = "am" ∨ declaration.name = "am-n" :=
    animates.isProperty.imp And.left And.left
  have expands : Abbreviation.expand? declaration.name = some [property] := by
    rcases animates.isProperty with ⟨isOne, rfl⟩ | ⟨isOne, rfl⟩ <;> rw [isOne] <;> decide +kernel
  have notPreset : declaration.name ≠ "ty" := by
    rcases isAnimation with isOne | isOne <;> rw [isOne] <;> decide
  have notContent : declaration.name ≠ "ct" := by
    rcases isAnimation with isOne | isOne <;> rw [isOne] <;> decide
  have isDeclared : environment.declare target statement declaration =
      environment.setProperties target statement declaration [property] := by
    by_cases refused : environment.refusesImportance declaration = true
    · rw [declare, if_pos refused] at ended
      simp [Draft.fail] at ended
    · rw [declare, if_neg refused, animates.plain]
      simp only [if_neg notPreset, basic, animates.plain, expands, reduceCtorEq, if_false]
  -- The value is resolved after its first word was made final, so wrapping sees the final name.
  rw [isDeclared, setProperties] at ended ⊢
  simp only [if_pos isAnimation, notContent, false_and, if_false] at ended ⊢
  rcases Draft.result_andThen_eq_ok.mp ended with ⟨renamed, renames, ended⟩
  rw [Draft.result_lift] at renames
  rcases Draft.result_andThen_eq_ok.mp ended with ⟨resolved, resolves, _⟩
  have begins := ledBy_of_renameKeyframe isKeyframe animates.first renames
  have wrapped := begins.wrapVariables isName
  rw [renames, Draft.lift_ok_andThen]
  rcases resolveValue_cases environment lawful statement renamed with
    ⟨error, refused⟩ | ⟨used, value, isResolved, _, _, isValue⟩
  · simp [refused, Draft.fail] at resolves
  · have led : Value.LedBy (Value.wrapVariables final) value := by
      rcases isValue with rfl | rfl
      · exact wrapped
      · have noSigil := Value.not_mem_wrapVariables isName (c := CodePoint.char '&') (by decide)
        exact wrapped.replaceItems (Value.passes_recogniseLocal noSigil) _
    rw [isResolved, Draft.andThen_of_ok rfl, Draft.write, lawful.contribute_ofProperties]
    exact ⟨used, _, rfl, led.withImportance declaration.important⟩

end Environment

/-! ## Statements -/

/-- Where a statement makes a declaration: at the top level, or in a block whose later declarations
leave the property alone. -/
inductive Environment.Declares (environment : Environment) (statement property : Text)
    (declaration : Declaration) : Site → Prop where
  | flat (reads : Declaration.read? (Text.trim statement) = some declaration) :
      Declares environment statement property declaration (.inPlace .base)
  | slotted {head inside token : Text} {slot : Slot} {before after : List Text}
      (parts : blockParts? (Text.trim statement) = some (head, inside))
      (isSlot : Slot.ofHead? head = some slot)
      (splits : statements inside = .ok (before ++ token :: after))
      (reads : Declaration.read? token = some declaration)
      (last : ∀ later ∈ after,
        property ∉ (environment.blockToken slot.target later).written.properties.keys) :
      Declares environment statement property declaration (.inPlace slot.toPlace)
  | conditional {head inside condition body query token : Text} {kind : Condition}
      {before after : List Text}
      (parts : blockParts? (Text.trim statement) = some (head, inside))
      (isCondition : Condition.ofHead? head = some kind)
      (parted : splitTopLevel (· == CodePoint.char ',') inside = .ok (some (condition, body)))
      (isQuery : environment.conditionQuery kind (Text.trim statement) condition = .ok query)
      (splits : statements body = .ok (before ++ token :: after))
      (reads : Declaration.read? token = some declaration)
      (last : ∀ later ∈ after,
        property ∉ (environment.blockToken kind.target later).written.properties.keys) :
      Declares environment statement property declaration (.under kind query)

namespace Environment

variable {environment : Environment} {isDeclared : Text → Bool}
  {statement property keyframe final : Text} {declaration : Declaration}

theorem exists_value_of_blockToken {target : Target Body} (lawful : target.Lawful)
    (isInside : target.contribute = id) {token : Text}
    (reads : Declaration.read? token = some declaration)
    (animates : declaration.Animates property keyframe)
    (isKeyframe : environment.keyframes.get? keyframe = some final) (isName : IsName final)
    (ended : (environment.blockToken target token).result = .ok ()) :
    ∃ value, (environment.blockToken target token).written.properties.get? property =
      some value ∧ Value.LedBy (Value.wrapVariables final) value := by
  rw [blockToken_of_read? reads] at ended ⊢
  rcases exists_value_of_declare lawful animates isKeyframe isName ended with
    ⟨used, value, isWritten, led⟩
  refine ⟨value, ?_, led⟩
  rw [isWritten, isInside]
  exact Body.get?_ofProperties property value

/-- What an animation gives at its site begins with the final name of its keyframe. -/
theorem Declares.exists_gives {site : Site}
    (declares : environment.Declares statement property declaration site)
    (animates : declaration.Animates property keyframe)
    (isKeyframe : environment.keyframes.get? keyframe = some final) (isName : IsName final)
    {contribution : Style} (contributed : Contributed (environment, statement) contribution) :
    ∃ value, contribution.Gives property value site ∧
      Value.LedBy (Value.wrapVariables final) value := by
  rcases contributed with ⟨isDeclared, ended, rfl⟩
  simp only [Style.gives_shared] at ended ⊢
  cases declares with
  | flat reads =>
      rw [contribution_of_read? reads] at ended ⊢
      rcases exists_value_of_declare (Target.lawful_topLevel isDeclared) animates isKeyframe isName
        ended with ⟨used, value, isWritten, led⟩
      refine ⟨value, ?_, led⟩
      rw [isWritten]
      exact Body.get?_ofProperties property value
  | @slotted head inside token slot _ _ parts isSlot splits reads last =>
      have takes := takesBlock_of_ok parts ended
      rw [contribution_of_slot parts takes isSlot, Environment.slotted] at ended ⊢
      have ofToken := exists_value_of_blockToken slot.lawful_target (by cases slot <;> rfl) reads
        animates isKeyframe isName
      rcases exists_value_of_blockBody splits ofToken last ended with ⟨value, found, led⟩
      exact ⟨value, slot.gives_place found, led⟩
  | @conditional head inside condition body query token kind _ _ parts isCondition parted isQuery
      splits reads last =>
      have takes := takesBlock_of_ok parts ended
      rw [contribution_of_condition parts takes isCondition, Environment.conditional, parted,
        Draft.lift_ok_andThen] at ended ⊢
      simp only [isQuery, Draft.lift_ok_andThen] at ended ⊢
      split at ended
      · simp at ended
      · next bodyEnded =>
        have ofToken := exists_value_of_blockToken kind.lawful_target rfl reads animates isKeyframe
          isName
        rcases exists_value_of_blockBody splits ofToken last bodyEnded with ⟨value, found, led⟩
        exact ⟨value, (kind.gives_place query found).append_right, led⟩

/-- Where blocks are not allowed, a declaration belongs to the place of the statement itself. -/
theorem Declares.site_eq_base {site : Site}
    (declares : environment.Declares statement property declaration site)
    (noBlocks : environment.context.allowsBlocks = false) {contribution : Style}
    (contributed : Contributed (environment, statement) contribution) : site = .inPlace .base := by
  rcases contributed with ⟨isDeclared, ended, _⟩
  cases declares with
  | flat reads => rfl
  | slotted parts _ _ _ _ => simp [(takesBlock_of_ok parts ended).2] at noBlocks
  | conditional parts _ _ _ _ _ _ => simp [(takesBlock_of_ok parts ended).2] at noBlocks

end Environment

/-- Of what a body says, the declaration has the last word on a property at a site. -/
def Declaration.Decides (declaration : Declaration) (said : List (Environment × Text))
    (property : Text) (site : Site) : Prop :=
  ∃ before environment statement after, said = before ++ (environment, statement) :: after ∧
    environment.Declares statement property declaration site ∧
    ∀ later ∈ after, ∀ contribution, Environment.Contributed later contribution →
      ¬contribution.Replaces property site

example :
    Declaration.Decides { sigil := .plain, name := "am", value := "p 1s", important := true }
      [({ context := .rule }, "am[p 1s]!")] "animation" (.inPlace .base) :=
  ⟨[], _, _, [], rfl, .flat (by decide), by simp⟩

/-- The animations on which a body has decided, if the source declares their keyframes, are given by
the style, with the final name of the keyframe first. -/
def Style.Animates (style : Style) (source : Source) (said : List (Environment × Text)) : Prop :=
  ∀ block ∈ source.keyframes, ∀ declaration property site,
    Declaration.Animates declaration property block.name → declaration.Decides said property site →
    ∃ value, style.Gives property value site ∧
      Value.LedBy (Value.wrapVariables (Naming.final source.scope block.name)) value

/-- How an animation mentions a keyframe with the given final name. -/
def Keyframe.mention (final : Text) : Text :=
  if Value.startsVariable [] final then Naming.use final else final

/-- A keyframe is mentioned by its final name, unless this begins like a custom property. -/
theorem Keyframe.mention_eq_self_iff {final : Text} : mention final = final ↔
    ¬∃ c rest, final = .char '-' :: .char '-' :: c :: rest ∧ isIdentifierStart c = true := by
  rw [← Value.startsVariable_nil_iff, mention]
  split
  · next starts =>
    simp only [starts, not_true_eq_false, iff_false]
    intro same
    have sameLength := congrArg List.length same
    have opened : ("var(" : Text).length = 4 := by decide
    simp only [Naming.use, List.length_append, opened] at sameLength
    omega
  · next starts => simp [starts]

theorem Keyframe.head?_words_of_ledBy {final value : Text} (isName : IsName final)
    (led : Value.LedBy (Value.wrapVariables final) value) :
    (Text.words value).head? = some (mention final) := by
  rw [mention, ← Value.wrapVariables_of_isName isName]
  apply led.head?_words (Value.wrapVariables_ne_nil isName)
  intro c isChar
  by_contra isBlankChar
  rw [Bool.not_eq_false] at isBlankChar
  have notInserted : ∀ d ∈ ("var()" : Text), isBlank d = false := by decide
  refine Value.not_mem_wrapVariables isName ⟨isNameChar_of_isBlank isBlankChar, ?_⟩ isChar
  intro isInserted
  simp [notInserted c isInserted] at isBlankChar

/-- The same of rules: the animations stand in the rules of their sites. -/
def Source.AnimatesRules (source : Source) (said : List (Environment × Text)) (selector : Text)
    (rules : List Rule) : Prop :=
  ∀ block ∈ source.keyframes, ∀ declaration property site,
    Declaration.Animates declaration property block.name → declaration.Decides said property site →
    ∃ rule ∈ rules, site.IsHead selector rule ∧
      ∃ value, rule.declarations.get? property = some value ∧
        (Text.words value).head? = some (Keyframe.mention (Naming.final source.scope block.name))

/-- The keyframes of the source have final names in the environment, and these are names. -/
structure Source.NamesKeyframes (source : Source) (environment : Environment) : Prop where
  final : ∀ block ∈ source.keyframes,
    environment.keyframes.get? block.name = some (Naming.final source.scope block.name)
  isName : ∀ block ∈ source.keyframes, IsName (Naming.final source.scope block.name)

namespace Style.Animates

variable {source : Source} {environment : Environment} {said : List (Environment × Text)}
  {style : Style}

theorem of_gathers (named : source.NamesKeyframes environment)
    (sameKeyframes : ∀ entry ∈ said, entry.1.keyframes = environment.keyframes)
    (gathers : style.Gathers said) : style.Animates source said := by
  intro block isBlock declaration property site animates decides
  rcases decides with ⟨before, own, statement, after, rfl, declares, kept⟩
  have isKeyframe : own.keyframes.get? block.name =
      some (Naming.final source.scope block.name) := by
    rw [sameKeyframes (own, statement) (by simp)]
    exact named.final block isBlock
  apply gathers.exists_gives _ kept
  intro contribution contributed
  exact declares.exists_gives animates isKeyframe (named.isName block isBlock) contributed

theorem nameVariables (named : source.NamesKeyframes environment)
    (animates : style.Animates source said) {final : Style} {display scope : Text}
    (names : style.nameVariables display scope = { state := final }) :
    final.Animates source said := by
  intro block isBlock declaration property site isAnimation decides
  rcases animates block isBlock declaration property site isAnimation decides with
    ⟨value, gives, led⟩
  have unmarked := Value.madeOf_wrapVariables (by decide)
    (Reference.unmarked_of_isNameChar (named.isName block isBlock).2)
  rcases gives.nameVariables names with ⟨changed, isGiven, rfl | resolves⟩
  · exact ⟨_, isGiven, led⟩
  · exact ⟨changed, isGiven, led.replaceItemsM (Reference.passes_recognise unmarked) resolves⟩

theorem rules (named : source.NamesKeyframes environment) (animates : style.Animates source said)
    {own : Properties} (isOwn : ∀ {property value}, style.base.get? property = some value →
      own.get? property = some value) (owner selector : Text) :
    source.AnimatesRules said selector (style.rules owner selector own) := by
  intro block isBlock declaration property site isAnimation decides
  rcases animates block isBlock declaration property site isAnimation decides with
    ⟨value, gives, led⟩
  have isName := named.isName block isBlock
  have unmarked :=
    Value.madeOf_wrapVariables (by decide) (Reference.unmarked_of_isNameChar isName.2)
  have ofBase : site = .inPlace .base → own.get? property = some value := by
    rintro rfl
    exact isOwn gives
  rcases gives.exists_rule ofBase owner selector with ⟨rule, isRule, isHead, found⟩
  refine ⟨rule, isRule, isHead, _, found, Keyframe.head?_words_of_ledBy isName ?_⟩
  exact led.replaceItems (Reference.passes_recognise unmarked) _

end Style.Animates

/-! ## The names of keyframes -/

namespace Source

variable {source : Source} {theme : Theme} {environment : Environment} {text : Text}

theorem isName_final_of_parse (parsed : parse text = .ok source) {block : KeyframeBlock}
    (isKeyframe : block ∈ source.keyframes) : IsName (Naming.final source.scope block.name) := by
  rw [parse] at parsed
  split at parsed
  · simp [throw, throwThe, MonadExceptOf.throw, bind, Except.bind] at parsed
  · simp only [bind_eq_ok, Prod.exists, pure, Except.pure, Except.ok.injEq] at parsed
    rcases parsed with ⟨_, _, _, _, _, _, keyframes, cut, _, directives, taken, _, _, rfl⟩
    rcases List.mem_map.mp isKeyframe with ⟨written, isWritten, rfl⟩
    have isName := isName_of_cutBlocks cut written isWritten
    have ofScope := Directive.isNameChar_of_mem_scope taken
    rw [Naming.final]
    split
    · exact isName
    · refine ⟨by simp [isName.1], ?_⟩
      simp only [List.forall_mem_append]
      exact ⟨⟨ofScope, by decide⟩, isName.2⟩

theorem namesKeyframes_of_environment (parsed : parse text = .ok source)
    (isEnvironment : source.environment theme = .ok environment) :
    source.NamesKeyframes environment where
  isName := fun block isBlock => isName_final_of_parse parsed isBlock
  final := by
    intro block isBlock
    simp only [Source.environment, bind_eq_ok, pure, Except.pure, Except.ok.injEq] at isEnvironment
    rcases isEnvironment with ⟨_, _, names, makes, rfl⟩
    have isKey : block.name ∈ names.keys := by
      rw [Keyframe.eq_ofList_of_finalNames makes, OrderedMap.mem_keys_ofList, List.map_map]
      exact List.mem_map_of_mem isBlock
    cases found : names.get? block.name with
    | none => exact absurd isKey (OrderedMap.get?_eq_none_iff.mp found)
    | some final => rw [eq_final_of_finalNames makes found]

end Source

/-! ## The style sheet -/

namespace Source

/-- The animations of a body stand in some rules under a selector. -/
def AnimatesBody (source : Source) (environment : Environment) (lines : List Text) (selector : Text)
    (rules : List Rule) : Prop :=
  ∃ found, statements (Text.joinWith ['\n'] (Query.statementLines lines)) = .ok found ∧
    source.AnimatesRules (source.said environment lines found) selector rules

/-- The animations of a class and of its queries stand in the section of the class, after its root
variables: those of the class first, and then those of every query. -/
def AnimatesClass (source : Source) (environment : Environment) (block : ClassBlock)
    (rules : List Rule) : Prop :=
  ∃ lines forest root own nested, QueryTree.parse block.body = .ok (lines, forest) ∧
    rules = root ++ own ++ nested.flatten ∧
    source.AnimatesBody environment lines ("." ++ Naming.final source.scope block.name) own ∧
    List.Forall₂ (fun query group => ∃ selector,
      source.AnimatesBody { environment with context := .query } query.lines selector group)
        (QueryTree.preorder forest) nested

/-- The keyframe has its final name, and the animations of a step stand in the step. -/
def AnimatesKeyframe (source : Source) (environment : Environment) (block : KeyframeBlock)
    (keyframe : Keyframe) : Prop :=
  keyframe.final = Naming.final source.scope block.name ∧
    ∃ tokens, statements block.body = .ok tokens ∧ List.Forall₂ (fun token step =>
      ∃ inside found, Keyframe.parseStep token = .ok (step.label, inside) ∧
        statements inside = .ok found ∧
        source.AnimatesRules
          (found.map fun statement => ({ environment with context := .keyframe }, statement))
          step.label [{ selector := step.label, declarations := step.properties }])
      tokens keyframe.steps

variable {source : Source} {environment : Environment} {constants : Constants}

theorem keyframes_of_mem_said {lines found : List Text} {entry : Environment × Text}
    (isSaid : entry ∈ source.said environment lines found) :
    entry.1.keyframes = environment.keyframes := by
  simp only [said, List.mem_append, List.mem_flatMap, List.mem_map] at isSaid
  rcases isSaid with ⟨_, _, _, _, rfl⟩ | ⟨_, _, rfl⟩ <;> rfl

theorem animatesBody_of_gathersBody (named : source.NamesKeyframes environment) {own : Environment}
    (sameKeyframes : own.keyframes = environment.keyframes) {owner selector : Text}
    {lines : List Text} {rules : List Rule}
    (gathersBody : source.GathersBody own owner lines selector rules) :
    source.AnimatesBody own lines selector rules := by
  rcases gathersBody with ⟨found, style, final, properties, splits, gathers, isFinal, isOwn, rfl⟩
  have animates : style.Animates source (source.said own lines found) := by
    refine .of_gathers named ?_ gathers
    intro entry isSaid
    rw [keyframes_of_mem_said isSaid, sameKeyframes]
  refine ⟨found, splits, ?_⟩
  rcases isFinal with rfl | ⟨scope, namesVariables⟩
  · exact animates.rules named (isOwn _ _) owner selector
  · exact (animates.nameVariables named namesVariables).rules named (isOwn _ _) owner selector

theorem animatesClass_of_compileClass (named : source.NamesKeyframes environment)
    (compiles : compileConstants environment source.constants = .ok constants) {block : ClassBlock}
    (unmarked : Reference.Unmarked block.body) {item : CompiledClass}
    (compilesClass : compileClass environment source.scope constants block = .ok item)
    {names : OrderedMap Text Text} {rules : List Rule}
    (makes : classRules names item.display item.style item.queries = .ok rules) :
    source.AnimatesClass environment block rules := by
  rcases gathersClass_of_compileClass compiles unmarked compilesClass makes with
    ⟨lines, forest, root, own, nested, parsed, isRules, ofClass, ofQueries⟩
  refine ⟨lines, forest, root, own, nested, parsed, isRules,
    animatesBody_of_gathersBody named rfl ofClass, ofQueries.imp ?_⟩
  rintro query group ⟨selector, ofQuery⟩
  refine ⟨selector, animatesBody_of_gathersBody named ?_ ofQuery⟩
  rfl

theorem animatesKeyframe_of_compile (named : source.NamesKeyframes environment)
    {block : KeyframeBlock} (isBlock : block ∈ source.keyframes) {keyframe : Keyframe}
    (compiles : Keyframe.compile environment source.scope block = .ok keyframe) :
    source.AnimatesKeyframe environment block keyframe := by
  simp only [Keyframe.compile, named.final block isBlock, Option.getD_some, bind_eq_ok, pure,
    Except.pure, Except.ok.injEq] at compiles
  rcases compiles with ⟨tokens, splits, steps, compilesSteps, rfl⟩
  refine ⟨rfl, tokens, splits, ?_⟩
  rw [List.forall₂_map_right_iff]
  apply (forall₂_of_mapM_eq_ok compilesSteps).imp
  rintro token ⟨step, root⟩ compilesStep
  simp only [Keyframe.compileStep, Keyframe.readStyle, bind_eq_ok, Prod.exists,
    Attempt.toExcept_eq_ok, pure, Except.pure, Except.ok.injEq, Prod.mk.injEq] at compilesStep
  rcases compilesStep with ⟨label, style, ⟨_, inside, parses, _, dispatches, rfl, rfl⟩, final,
    namesVariables, rfl, rfl⟩
  rw [Style.dispatchBody] at dispatches
  split at dispatches
  · simp at dispatches
  · next found isFound =>
    refine ⟨inside, found, parses, isFound, ?_⟩
    rcases Style.exists_gathers_of_dispatchAll dispatches with ⟨added, isStyle, gathers⟩
    rw [Style.empty_append] at isStyle
    rw [isStyle] at namesVariables
    have animates := (Style.Animates.of_gathers named (by simp) gathers).nameVariables named
      namesVariables
    intro block isBlock declaration property site isAnimation decides
    rcases animates block isBlock declaration property site isAnimation decides with
      ⟨value, gives, led⟩
    -- A step takes no blocks.
    have isBase : site = .inPlace .base := by
      rcases decides with ⟨before, own, statement, after, isSaid, declares, _⟩
      have isMember : (own, statement) ∈
          found.map fun statement => ({ environment with context := .keyframe }, statement) := by
        simp [isSaid]
      rcases gathers.exists_contributed isMember with ⟨contribution, contributed⟩
      rcases List.mem_map.mp isMember with ⟨_, _, same⟩
      rw [Prod.mk.injEq] at same
      exact declares.site_eq_base (by rw [← same.1]; rfl) contributed
    rw [isBase] at gives ⊢
    exact ⟨_, List.mem_singleton_self _, ⟨rfl, rfl⟩, value, gives,
      Keyframe.head?_words_of_ledBy (named.isName block isBlock) led⟩

end Source

/-- The text that begins a keyframe with the given final name. -/
def Keyframe.beginning (final : Text) : Text :=
  "@keyframes " ++ final ++ "\x7b"

theorem Keyframe.infix_render (keyframe : Keyframe) :
    beginning keyframe.final <:+: keyframe.render := by
  have begins : ∀ body : Text, beginning keyframe.final <+:
      Rule.enclose ("@keyframes " ++ keyframe.final) body := by
    intro body
    rw [Rule.enclose, List.append_assoc _ body]
    exact List.prefix_append _ _
  exact (begins _).isInfix.trans (List.suffix_append _ _).isInfix

/-- In the style sheet of a text, every animation of a keyframe of the source refers to the keyframe
by its final name, unless this begins like a custom property. -/
def Animated (theme : Theme) (text css : Text) : Prop :=
  ∃ source environment keyframes sections, Source.parse text = .ok source ∧
    source.environment theme = .ok environment ∧
    css = keyframes.flatMap Keyframe.render ++ sections.flatMap renderRules ∧
    List.Forall₂ (source.AnimatesKeyframe environment) source.keyframes keyframes ∧
    List.Forall₂ (source.AnimatesClass environment) source.classes sections ∧
    ∀ block ∈ source.keyframes,
      let final := Naming.final source.scope block.name
      Keyframe.beginning final <:+: css ∧ (Keyframe.mention final = final ↔
        ¬∃ c rest, final = .char '-' :: .char '-' :: c :: rest ∧ isIdentifierStart c = true)

theorem animated_of_compile {theme : Theme} {text css : Text}
    (compiles : compile theme text = .ok css) : Animated theme text css := by
  rw [compile] at compiles
  simp only [Source.compile, bind_eq_ok, pure, Except.pure, Except.ok.injEq] at compiles
  rcases compiles with ⟨source, parsed, _, ⟨compiled, assembles, _, _, rfl⟩, rfl⟩
  rcases Source.assemble_eq_ok assembles with ⟨environment, sections, isEnvironment,
    compilesConstants, compilesClasses, compilesKeyframes, makesSections, isCss⟩
  have named := Source.namesKeyframes_of_environment parsed isEnvironment
  have markerFree := Source.markerFree_of_parse parsed
  refine ⟨source, environment, compiled.keyframes, sections, parsed, isEnvironment, isCss, ?_, ?_,
    ?_⟩
  · have areBlocks := (List.forall₂_and_left _ _).mpr
      ⟨fun block isBlock => isBlock, forall₂_of_mapM_eq_ok compilesKeyframes⟩
    apply areBlocks.imp
    rintro block keyframe ⟨isBlock, compilesKeyframe⟩
    exact Source.animatesKeyframe_of_compile named isBlock compilesKeyframe
  · apply forall₂_of_steps (forall₂_of_mapM_eq_ok compilesClasses)
      (forall₂_of_mapM_eq_ok makesSections)
    intro block isBlock item rules compilesClass makes
    exact Source.animatesClass_of_compileClass named compilesConstants
      (markerFree.classes block isBlock).2 compilesClass makes
  · intro block isBlock
    refine ⟨?_, Keyframe.mention_eq_self_iff⟩
    rcases exists_mem_of_mapM compilesKeyframes isBlock with
      ⟨keyframe, isKeyframe, compilesKeyframe⟩
    rw [← (Source.animatesKeyframe_of_compile named isBlock compilesKeyframe).1, isCss]
    have isPart : keyframe.render <:+: compiled.keyframes.flatMap Keyframe.render := by
      rw [List.flatMap_def]
      exact List.infix_of_mem_flatten (List.mem_map_of_mem isKeyframe)
    exact keyframe.infix_render.trans (isPart.trans (List.prefix_append _ _).isInfix)

set_option maxRecDepth 100000 in
theorem animated_of_compile_query :
    let text : Text := "@scope s\n@keyframe p \x7b from(am-n[p]) \x7d\n" ++
      "@const k \x7b hover(am[p 1s]) \x7d\n" ++
      ".a \x7b\n@use k\nam[p 2s]!\n@query i \x7b\nscreen(min-w[9px], am[p 3s])\n\x7d\n\x7d"
    let css : Text := "@keyframes s_p\x7bfrom\x7banimation-name:s_p;\x7d\x7d" ++
      ".s_a\x7banimation:s_p 2s !important;\x7d.s_a:hover\x7banimation:s_p 1s;\x7d" ++
      "@media only screen and (min-width:9px)\x7b.s_a i\x7banimation:s_p 3s;\x7d\x7d"
    compile {} text = .ok css ∧ Animated {} text css := by
  intro text css
  have compiles : compile {} text = .ok css := by
    unfold text css
    repeat rw [Text.ofString_ofList]
    decide +kernel
  exact ⟨compiles, animated_of_compile compiles⟩

set_option maxRecDepth 100000 in
/-- A final name that begins like a custom property is not what the animation begins with. -/
theorem animation_of_hyphenated_keyframe :
    let text : Text := "@keyframe --x \x7b from(op[0]) \x7d\n.a \x7b am[--x 1s] \x7d"
    let value : Text := "var(--x) 1s"
    let css : Text := "@keyframes --x\x7bfrom\x7bopacity:0;\x7d\x7d" ++
      ".a\x7banimation:" ++ value ++ ";\x7d"
    compile {} text = .ok css ∧
      (Text.words value).head? ≠ some (Naming.final Naming.noScope "--x") := by
  decide +kernel

end TerseStyle

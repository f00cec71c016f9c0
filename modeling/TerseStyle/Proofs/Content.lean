import TerseStyle.Proofs.Decided
import TerseStyle.Proofs.QuotedString
import TerseStyle.Proofs.SourceName

/-!
# The content of pseudo-elements

In the block of a pseudo-element the content is written as a quoted string. Everything that happens
to it on its way into the style sheet, the wrapping of custom properties and the naming of local
variables, leaves quotation marks and backslashes alone. So what stands in the style sheet is one
string, and swallows nothing of what follows it, exactly if the value that was declared keeps the
string (`content_isString_iff`).
-/

namespace TerseStyle

open Reference (Within)

namespace Declaration

/-- The declaration of a content that is not quoted already. -/
structure IsContent (declaration : Declaration) : Prop where
  plain : declaration.sigil = .plain
  isContent : declaration.name = "ct"
  notQuoted : ¬Value.IsQuoted declaration.value

/-- What the declaration writes in the block of a pseudo-element. -/
def WritesContent (declaration : Declaration) (written : Text) : Prop :=
  ∃ used resolved, Value.QuotesAlike declaration.value resolved ∧
    Within (Reference.IsLocalOf used) resolved ∧
    written = Value.withImportance declaration.important (Value.quoted resolved)

/-- The text begins with one string, which ends where the declaration ends or where it is said to be
important, exactly if the value of the declaration keeps the string. -/
def IsStringIffKept (declaration : Declaration) (text : Text) : Prop :=
  ∀ following, Value.readString? (text ++ following) =
      some (Value.withImportance declaration.important [] ++ following) ↔
    Value.KeepsString declaration.value

variable {declaration : Declaration} {written : Text}

theorem WritesContent.isStringIffKept (writes : declaration.WritesContent written)
    (isContent : declaration.IsContent) {owner : Text}
    (ofOwner : ∀ c ∈ owner, isNameChar c = true) :
    declaration.IsStringIffKept (Reference.resolveLocal
      (fun name => Naming.use (Naming.localVariable name owner)) written) := by
  rcases writes with ⟨used, resolved, alike, within, rfl⟩
  exact Value.readString?_content_iff alike within isContent.notQuoted ofOwner _

theorem WritesContent.resolveRuntime_eq (writes : declaration.WritesContent written)
    (resolve : Text → Text → Except Error Text) :
    Reference.resolveRuntime resolve written = .ok written := by
  rcases writes with ⟨used, resolved, _, within, rfl⟩
  have ofWritten := Value.within_withImportance declaration.important (Value.within_quoted within)
  have isKept : Reference.rewrite Reference.render
      (Value.withImportance declaration.important (Value.quoted resolved)) =
        Value.withImportance declaration.important (Value.quoted resolved) :=
    ofWritten.rewrite_eq_self fun _ _ => rfl
  refine (ofWritten.replaceItemsM_eq ?_).trans (congrArg Except.ok isKept)
  intro reference isLocal _
  obtain ⟨name, _, rfl⟩ := isLocal.exists_eq
  rfl

end Declaration

namespace Environment

variable {environment : Environment} {target : Target Body} {statement token name : Text}
  {declaration : Declaration}

theorem exists_content_of_basic (lawful : target.Lawful) (isInside : target.contribute = id)
    (isElement : target.isElement = true) (isContent : declaration.IsContent)
    (ended : (environment.basic target statement declaration).result = .ok ()) :
    ∃ value, (environment.basic target statement declaration).written.properties.get? "content" =
      some value ∧ declaration.WritesContent value := by
  have expands : Abbreviation.expand? declaration.name = some [("content" : Text)] := by
    rw [isContent.isContent]
    decide +kernel
  have notAnimation : ¬(("ct" : Text) = "am" ∨ ("ct" : Text) = "am-n") := by decide
  have isSet : environment.basic target statement declaration =
      environment.setProperties target statement declaration ["content"] := by
    simp only [basic, isContent.plain, expands, reduceCtorEq, if_false]
  rw [isSet, setProperties] at ended ⊢
  simp only [isContent.isContent, if_neg notAnimation, isElement, and_self, if_true,
    Draft.lift_ok_andThen] at ended ⊢
  rcases Draft.result_andThen_eq_ok.mp ended with ⟨resolved, resolves, _⟩
  have wrapped := (Value.alike_wrapVariables declaration.value).quotesAlike
  rcases resolveValue_cases environment lawful statement declaration.value with
    ⟨error, refused⟩ | ⟨used, value, isResolved, within, _, isValue⟩
  · simp [refused, Draft.fail] at resolves
  · have alike : Value.QuotesAlike declaration.value value := by
      rcases isValue with rfl | rfl
      · exact wrapped
      · exact wrapped.trans (Value.alike_referLocals _).quotesAlike
    rw [isResolved, Draft.andThen_of_ok rfl, Draft.write, lawful.contribute_ofProperties, isInside]
    exact ⟨_, Body.get?_ofProperties _ _, used, value, alike, within, rfl⟩

/-- A token of a block makes a declaration: by itself, or through a typography preset in which
nothing that comes later writes a content. -/
inductive Makes (environment : Environment) (target : Target Body) (token : Text) :
    Declaration → Prop where
  | declared {declaration : Declaration} (reads : Declaration.read? token = some declaration) :
      Makes environment target token declaration
  | preset {use declaration : Declaration} {preset : JsonValue} {before after : List Text}
      {inner : Text} (reads : Declaration.read? token = some use) (isPlain : use.sigil = .plain)
      (isPreset : use.name = "ty")
      (found : environment.theme.typography.value? (Text.trim use.value) = some preset)
      (splits : Preset.statements preset = .ok (before ++ inner :: after))
      (readsInner : Declaration.read? inner = some declaration)
      (last : ∀ later ∈ after, ("content" : Text) ∉ (environment.presetToken target
        (Text.trim use.value) use.important later).written.properties.keys) :
      Makes environment target token
        { declaration with important := use.important || declaration.important }

theorem Makes.exists_content (makes : environment.Makes target token declaration)
    (lawful : target.Lawful) (isInside : target.contribute = id)
    (isElement : target.isElement = true) (isContent : declaration.IsContent)
    (ended : (environment.blockToken target token).result = .ok ()) :
    ∃ value, (environment.blockToken target token).written.properties.get? "content" =
      some value ∧ declaration.WritesContent value := by
  cases makes with
  | declared reads =>
      have notPreset : declaration.name ≠ "ty" := by
        rw [isContent.isContent]
        decide
      rw [blockToken_of_read? reads, declare] at ended ⊢
      split at ended
      · simp [Draft.fail] at ended
      · next accepted =>
        rw [if_neg accepted]
        simp only [isContent.plain, if_neg notPreset] at ended ⊢
        exact exists_content_of_basic lawful isInside isElement isContent ended
  | @preset use inner preset before after token reads isPlain isPreset found splits readsInner
      last =>
      rw [blockToken_of_read? reads, declare] at ended ⊢
      split at ended
      · simp [Draft.fail] at ended
      · next accepted =>
        rw [if_neg accepted]
        simp only [isPlain, isPreset, if_true, usePreset, found, splits, Draft.lift_ok_andThen]
          at ended ⊢
        have notPreset : ¬(inner.name = "ty" ∨ inner.sigil = .runtime ∨
            inner.sigil = .localVariable) := by
          rw [isContent.plain, isContent.isContent]
          decide
        have tokenEnded := Draft.result_forEach.mp ended token (by simp)
        have isToken : environment.presetToken target (Text.trim use.value) use.important token =
            environment.basic target token
              { inner with important := use.important || inner.important } := by
          rw [presetToken, Declaration.parse, readsInner] at tokenEnded ⊢
          simp only [Draft.lift_ok_andThen, if_neg notPreset] at tokenEnded ⊢
          split at tokenEnded
          · simp [Draft.fail] at tokenEnded
          · next accepted => rw [if_neg accepted]
        rw [isToken] at tokenEnded
        rcases exists_content_of_basic lawful isInside isElement isContent tokenEnded with
          ⟨value, isWritten, writes⟩
        rw [← isToken] at isWritten
        exact ⟨value, Draft.get?_forEach ended isWritten last, writes⟩

/-- A statement is the block of a pseudo-element, and of the declarations of a content in it the
last is the given one. -/
def MakesContent (environment : Environment) (statement name : Text) (declaration : Declaration) :
    Prop :=
  ∃ inside before token after, blockParts? (Text.trim statement) = some (name, inside) ∧
    Slot.ofHead? name = some (.element name) ∧ statements inside = .ok (before ++ token :: after) ∧
    environment.Makes (Slot.element name).target token declaration ∧
    ∀ later ∈ after, ("content" : Text) ∉
      (environment.blockToken (Slot.element name).target later).written.properties.keys

theorem MakesContent.exists_gives (makes : environment.MakesContent statement name declaration)
    (isContent : declaration.IsContent) {contribution : Style}
    (contributed : Contributed (environment, statement) contribution) :
    ∃ value, contribution.Gives "content" value (.inPlace (.element name)) ∧
      declaration.WritesContent value := by
  rcases makes with ⟨inside, before, token, after, parts, isSlot, splits, makes, last⟩
  rcases contributed with ⟨isDeclared, ended, rfl⟩
  simp only [Style.gives_shared] at ended ⊢
  have takes := takesBlock_of_ok parts ended
  rw [contribution_of_slot parts takes isSlot, slotted] at ended ⊢
  have ofToken := makes.exists_content (Slot.lawful_target _) rfl rfl isContent
  rcases exists_value_of_blockBody splits ofToken last ended with ⟨value, found, writes⟩
  exact ⟨value, (Slot.element name).gives_place found, writes⟩

end Environment

/-! ## Bodies and classes -/

/-- Of what a body says, the declaration has the last word on the content of a pseudo-element. -/
def Declaration.DecidesContent (declaration : Declaration) (said : List (Environment × Text))
    (name : Text) : Prop :=
  ∃ before environment statement after, said = before ++ (environment, statement) :: after ∧
    environment.MakesContent statement name declaration ∧
    ∀ later ∈ after, ∀ contribution, Environment.Contributed later contribution →
      ¬contribution.Replaces "content" (.inPlace (.element name))

namespace Source

variable {source : Source} {environment : Environment} {declaration : Declaration} {name : Text}

/-- If a body has decided on the content of a pseudo-element by the given declaration, its rules
have the content, and this is one string exactly if the value of the declaration keeps it. -/
def WritesContentOfBody (source : Source) (declaration : Declaration) (name : Text)
    (environment : Environment) (lines : List Text) (selector : Text) (rules : List Rule) : Prop :=
  ∃ found, statements (Text.joinWith ['\n'] (Query.statementLines lines)) = .ok found ∧
    (declaration.DecidesContent (source.said environment lines found) name →
      ∃ rule ∈ rules, rule.wrapper = none ∧ rule.selector = selector ++ "::" ++ name ∧
        ∃ text, rule.declarations.get? "content" = some text ∧ declaration.IsStringIffKept text)

/-- The same of a class and of every query in it. -/
def WritesContentOfClass (source : Source) (declaration : Declaration) (name : Text)
    (environment : Environment) (block : ClassBlock) (rules : List Rule) : Prop :=
  ∃ lines forest root own nested, QueryTree.parse block.body = .ok (lines, forest) ∧
    rules = root ++ own ++ nested.flatten ∧
    source.WritesContentOfBody declaration name environment lines
      ("." ++ Naming.final source.scope block.name) own ∧
    List.Forall₂ (fun query group => ∃ selector, source.WritesContentOfBody declaration name
      { environment with context := .query } query.lines selector group)
        (QueryTree.preorder forest) nested

theorem writesContentOfBody_of_gathersBody (isContent : declaration.IsContent) (name : Text)
    {owner selector : Text} (ofOwner : ∀ c ∈ owner, isNameChar c = true) {lines : List Text}
    {rules : List Rule} (gathersBody : source.GathersBody environment owner lines selector rules) :
    source.WritesContentOfBody declaration name environment lines selector rules := by
  rcases gathersBody with ⟨found, style, final, properties, splits, gathers, isFinal, _, rfl⟩
  refine ⟨found, splits, ?_⟩
  rintro ⟨before, own, statement, after, isSaid, makes, kept⟩
  rw [isSaid] at gathers
  rcases gathers.exists_gives (fun _ => makes.exists_gives isContent) kept with
    ⟨value, gives, writes⟩
  have stillGives : final.Gives "content" value (.inPlace (.element name)) := by
    rcases isFinal with rfl | ⟨scope, namesVariables⟩
    · exact gives
    · rcases gives.nameVariables namesVariables with ⟨changed, isGiven, rfl | resolves⟩
      · exact isGiven
      · rw [writes.resolveRuntime_eq, Except.ok.injEq] at resolves
        rwa [resolves]
  have notBase : Site.inPlace (.element name) = .inPlace .base →
      properties.get? "content" = some value := by simp
  rcases stillGives.exists_rule notBase owner selector with ⟨rule, isRule, isHead, isWritten⟩
  exact ⟨rule, isRule, isHead.1, isHead.2, _, isWritten,
    writes.isStringIffKept isContent ofOwner⟩

end Source

/-- In the style sheet of a text, the contents of pseudo-elements that a given declaration decides
on. -/
def WritesContents (theme : Theme) (text css : Text) (declaration : Declaration) (name : Text) :
    Prop :=
  ∃ source environment, ∃ keyframes : List Keyframe, ∃ sections : List (List Rule),
    Source.parse text = .ok source ∧ source.environment theme = .ok environment ∧
    css = keyframes.flatMap Keyframe.render ++ sections.flatMap renderRules ∧
    List.Forall₂ (source.WritesContentOfClass declaration name environment) source.classes sections

theorem writesContents_of_compile {declaration : Declaration} (isContent : declaration.IsContent)
    (name : Text) {theme : Theme} {text css : Text} (compiles : compile theme text = .ok css) :
    WritesContents theme text css declaration name := by
  rw [compile] at compiles
  simp only [Source.compile, bind_eq_ok, pure, Except.pure, Except.ok.injEq] at compiles
  rcases compiles with ⟨source, parsed, _, ⟨compiled, assembles, _, _, rfl⟩, rfl⟩
  rcases Source.assemble_eq_ok assembles with ⟨environment, sections, isEnvironment,
    compilesConstants, compilesClasses, _, makesSections, isCss⟩
  have markerFree := Source.markerFree_of_parse parsed
  refine ⟨source, environment, compiled.keyframes, sections, parsed, isEnvironment, isCss, ?_⟩
  apply forall₂_of_steps (forall₂_of_mapM_eq_ok compilesClasses)
    (forall₂_of_mapM_eq_ok makesSections)
  intro block isBlock item rules compilesClass makes
  have ofOwner := Source.isNameChar_final_of_parse parsed isBlock
  rcases Source.gathersClass_of_compileClass compilesConstants (markerFree.classes block isBlock).2
    compilesClass makes with
    ⟨lines, forest, root, own, nested, isParsed, isRules, ofClass, ofQueries⟩
  refine ⟨lines, forest, root, own, nested, isParsed, isRules,
    Source.writesContentOfBody_of_gathersBody isContent name ofOwner ofClass, ofQueries.imp ?_⟩
  rintro query group ⟨selector, ofQuery⟩
  exact ⟨selector, Source.writesContentOfBody_of_gathersBody isContent name ofOwner ofQuery⟩

/-- The content of a pseudo-element: what a statement that declares it gives, in any context, is
written as one string exactly if its value keeps the string, and so it stands in the style sheet of
every text. -/
theorem content_isString_iff {declaration : Declaration} (isContent : declaration.IsContent)
    (name : Text) :
    (∀ environment statement contribution,
      Environment.MakesContent environment statement name declaration →
      Environment.Contributed (environment, statement) contribution →
      ∃ value, contribution.Gives "content" value (.inPlace (.element name)) ∧
        ∀ owner : Text, (∀ c ∈ owner, isNameChar c = true) →
          declaration.IsStringIffKept (Reference.resolveLocal
            (fun used => Naming.use (Naming.localVariable used owner)) value)) ∧
    ∀ theme text css, compile theme text = .ok css →
      WritesContents theme text css declaration name := by
  refine ⟨?_, fun theme text css => writesContents_of_compile isContent name⟩
  intro environment statement contribution makes contributed
  rcases makes.exists_gives isContent contributed with ⟨value, gives, writes⟩
  exact ⟨value, gives, fun owner ofOwner => writes.isStringIffKept isContent ofOwner⟩

set_option maxRecDepth 100000 in
/-- The quotation mark follows a backslash, so the string ends too early. -/
theorem content_isString_iff_escaped :
    let declaration : Declaration :=
      { sigil := .plain, name := "ct", value := "--&y\\\"b", important := true }
    let statement : Text := "before(ct[--&y\\\"b]!)"
    let text : Text := ".a \x7b --&y[1]\n" ++ statement ++ " \x7d"
    let css : Text := ".a\x7b--y-a:1;\x7d.a::before\x7bcontent:" ++
      "\"var(--y-a)\\\\\"b\" !important;\x7d"
    declaration.IsContent ∧
      Environment.MakesContent { context := .rule } statement "before" declaration ∧
      (∃ contribution value,
        Environment.Contributed ({ context := .rule }, statement) contribution ∧
        contribution.Gives "content" value (.inPlace (.element "before")) ∧
        Value.readString? (Reference.resolveLocal
            (fun used => Naming.use (Naming.localVariable used "a")) value ++ ";") ≠
          some " !important;") ∧
      compile {} text = .ok css ∧ WritesContents {} text css declaration "before" := by
  intro declaration statement text css
  have isContent : declaration.IsContent := by
    refine ⟨rfl, rfl, ?_⟩
    rintro ⟨mark, middle, isMark, isValue⟩
    have isFirst : CodePoint.char '-' = mark := (List.cons.inj isValue).1
    rw [← isFirst] at isMark
    exact absurd isMark (by decide)
  have makes : Environment.MakesContent { context := .rule } statement "before" declaration :=
    ⟨"ct[--&y\\\"b]!", [], "ct[--&y\\\"b]!", [], by decide +kernel, by decide +kernel,
      by decide +kernel, .declared (by decide +kernel), by simp⟩
  have compiles : compile {} text = .ok css := by decide +kernel
  have results := content_isString_iff isContent "before"
  refine ⟨isContent, makes, ?_, compiles, results.2 {} text css compiles⟩
  have contributed : Environment.Contributed ({ context := .rule }, statement) _ :=
    ⟨fun _ => false, by decide +kernel, rfl⟩
  rcases results.1 _ _ _ makes contributed with ⟨value, gives, ofOwner⟩
  refine ⟨_, value, contributed, gives, ?_⟩
  intro reads
  have kept := (ofOwner "a" (by decide) ";").mp reads
  exact absurd kept (by decide +kernel)

set_option maxRecDepth 100000 in
/-- A value that ends with a backslash takes the closing quotation mark with it. -/
theorem content_not_isString_backslash :
    let value : Text := "a\\"
    let text : Text := ".a \x7b before(ct[" ++ value ++ "]) \x7d"
    let written : Text := "\"a\\\""
    compile {} text = .ok (".a::before\x7bcontent:" ++ written ++ ";\x7d") ∧
      ¬Value.KeepsString value ∧ Value.readString? (written ++ ";\x7d") = none := by
  decide +kernel

end TerseStyle

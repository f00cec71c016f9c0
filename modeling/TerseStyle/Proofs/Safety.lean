import TerseStyle.Compile
import TerseStyle.Proofs.OrderedMap
import TerseStyle.Proofs.WorkList

/-!
# Reported mistakes

Reading and dispatching report mistakes of a text, and only those: as long as the tables of the
theme hold texts, no step before a style sheet is written fails for a reason of the compiler itself.
The one step left out is naming runtime variables, which depends on the style.
-/

namespace TerseStyle

/-! ## Scanning -/

/-- Whether something is wrong with the brackets of statements. -/
def Cause.isBracket : Cause → Bool
  | unexpectedCloser .. | nestedBlock .. | forbiddenInBlock .. | missingCloser .. => true
  | _ => false

theorem Cause.kind_of_isBracket {cause : Cause} (isBracket : cause.isBracket = true) :
    cause.kind ≠ .internal := by
  unfold Cause.isBracket at isBracket
  split at isBracket
  all_goals first | contradiction | nofun

namespace Scan

variable {scan : Scan} {c : CodePoint} {error : Error}

theorem isBracket_of_groupsAfter {cause : Cause} (refused : scan.groupsAfter c = .error cause) :
    cause.isBracket = true := by
  unfold groupsAfter at refused
  split at refused
  case h_5 | h_10 =>
    split at refused
    · cases refused <;> rfl
    · cases refused <;> rfl
  all_goals cases refused <;> rfl

theorem isBracket_of_step (refused : scan.step c = .error error) :
    error.cause.isBracket = true := by
  unfold step at refused
  split at refused
  · simp at refused
  · next notRead =>
    cases refused
    exact isBracket_of_groupsAfter notRead

theorem isBracket_of_finish (refused : scan.finish = .error error) :
    error.cause.isBracket = true := by
  unfold finish at refused
  split at refused
  · simp at refused
  · cases refused
    rfl

theorem isBracket_of_statementsAfter {part text : Text}
    (refused : scan.statementsAfter part text = .error error) : error.cause.isBracket = true := by
  fun_induction statementsAfter scan part text with
  | case1 scan part reason notClosed =>
      cases refused
      exact isBracket_of_finish notClosed
  | case2 => simp at refused
  | case3 scan part c rest reason notRead =>
      cases refused
      exact isBracket_of_step notRead
  | case4 _ _ _ _ _ _ _ _ ih => exact ih refused
  | case5 _ _ _ _ _ _ _ _ ih => exact ih (map_eq_error_iff.mp refused)
  | case6 _ _ _ _ _ _ _ ih => exact ih refused

theorem isBracket_of_splitTopLevelAfter {isSeparator : CodePoint → Bool} {text : Text}
    (refused : scan.splitTopLevelAfter isSeparator text = .error error) :
    error.cause.isBracket = true := by
  fun_induction splitTopLevelAfter isSeparator scan text with
  | case1 => simp at refused
  | case2 scan c rest reason notRead =>
      cases refused
      exact isBracket_of_step notRead
  | case3 => simp at refused
  | case4 _ _ _ _ _ _ ih => exact ih refused

end Scan

theorem safe_statements (text : Text) : Safe (statements text) :=
  fun _ refused => Cause.kind_of_isBracket (Scan.isBracket_of_statementsAfter refused)

theorem safe_splitTopLevel (isSeparator : CodePoint → Bool) (text : Text) :
    Safe (splitTopLevel isSeparator text) :=
  fun _ refused => Cause.kind_of_isBracket (Scan.isBracket_of_splitTopLevelAfter refused)

theorem Brace.safe_readBody (line : Nat) (text : Text) : Safe (readBody line text) := by
  unfold readBody
  split
  · exact .ok _
  · exact .error nofun

/-! ## Drafts -/

namespace Draft

variable {ω α β : Type}

/-- The draft was not ended by a failure of the compiler itself. -/
def Safe (draft : Draft ω α) : Prop :=
  TerseStyle.Safe draft.result

namespace Safe

theorem done [EmptyCollection ω] (a : α) : (done a : Draft ω α).Safe :=
  .ok a

theorem fail [EmptyCollection ω] {error : Error} (reported : error.kind ≠ .internal) :
    (fail error : Draft ω α).Safe :=
  .error reported

theorem write (contribution : ω) : (write contribution).Safe :=
  .ok ()

theorem lift [EmptyCollection ω] {outcome : Except Error α} (safe : TerseStyle.Safe outcome) :
    (lift outcome : Draft ω α).Safe := by
  cases outcome with
  | error error => exact .error (safe error rfl)
  | ok a => exact .ok a

theorem andThen [Append ω] {first : Draft ω α} {next : α → Draft ω β} (ofFirst : first.Safe)
    (ofNext : ∀ a, first.result = .ok a → (next a).Safe) : (first.andThen next).Safe := by
  unfold Draft.andThen
  split
  · next error failed => exact .error (ofFirst error failed)
  · next a succeeded => exact ofNext a succeeded

theorem forEach [EmptyCollection ω] [Append ω] {item : α → Draft ω Unit} {items : List α}
    (ofEach : ∀ a ∈ items, (item a).Safe) : (forEach item items).Safe := by
  induction items with
  | nil => exact done ()
  | cons a rest ih =>
      rw [List.forall_mem_cons] at ofEach
      exact ofEach.1.andThen fun _ _ => ih ofEach.2

end Safe

end Draft

/-! ## Statements -/

/-- The tables of the theme hold texts. -/
structure Theme.Textual (theme : Theme) : Prop where
  breakpoints : ∀ {name value}, theme.breakpoints.value? name = some value →
    ∃ text, value = .string text
  typography : ∀ {name value}, theme.typography.value? name = some value →
    ∃ text, value = .string text
  keyframes : ∀ {name value}, theme.keyframes.value? name = some value →
    ∃ text, value = .string text

theorem Theme.Table.isText_of_ofTexts {entries : List (Text × Text)} {name : Text}
    {value : JsonValue} (found : (ofTexts entries).value? name = some value) :
    ∃ text, (name, text) ∈ entries ∧ value = .string text := by
  have isEntry := OrderedMap.get?_eq_some_iff.mp (Option.filter_eq_some_iff.mp found).1
  obtain ⟨⟨key, text⟩, isText, same⟩ := List.mem_map.mp (OrderedMap.mem_entries_ofList isEntry)
  simp only [Prod.mk.injEq, JsonScalar.string.injEq] at same
  rw [← same.1, ← same.2]
  exact ⟨text, isText, rfl⟩

theorem Declaration.safe_parse (statement : Text) : Safe (parse statement) := by
  unfold parse
  split
  · exact .ok _
  · exact .error nofun

namespace Environment

variable {ω : Type} [EmptyCollection ω] [Append ω] {environment : Environment} {target : Target ω}
  {declaration : Declaration}

theorem safe_resolveValue (statement value : Text) :
    (environment.resolveValue target statement value).Safe := by
  unfold resolveValue
  split
  · exact .fail nofun
  · simp only
    split
    · exact .done _
    · split
      · exact .fail nofun
      · exact (Draft.Safe.write _).andThen fun _ _ => .done _

theorem safe_custom (statement : Text) : (environment.custom target statement declaration).Safe :=
  (safe_resolveValue statement _).andThen fun _ _ => .write _

omit [Append ω] in
theorem safe_useFragment (statement : Text) :
    (environment.useFragment target statement declaration).Safe := by
  unfold useFragment
  split
  · split
    · exact .fail nofun
    · exact .write _
  · exact .fail nofun

theorem safe_declareLocal (statement : Text) :
    (environment.declareLocal target statement declaration).Safe := by
  unfold declareLocal
  split
  · exact .fail nofun
  · split
    · exact .fail nofun
    · split
      · exact .fail nofun
      · split
        · exact .fail nofun
        · split
          · exact .fail nofun
          · exact (safe_resolveValue statement _).andThen fun _ _ => .write _

theorem safe_declareRuntime (statement : Text) :
    (environment.declareRuntime target statement declaration).Safe := by
  unfold declareRuntime
  simp only
  split
  · exact .fail nofun
  · split
    · exact .fail nofun
    · split
      · exact .fail nofun
      · split
        · exact .fail nofun
        · split
          · exact .fail nofun
          · exact (safe_resolveValue statement _).andThen fun _ _ => .write _

variable (textual : environment.theme.Textual)

include textual

omit [EmptyCollection ω] [Append ω] in
theorem safe_renameKeyframe (value : Text) :
    Safe (environment.renameKeyframe value) := by
  unfold renameKeyframe
  split
  · exact .ok _
  · split
    · exact .ok _
    · exact .ok _
    · next first _ value notText isKeyframe =>
      rcases Option.or_eq_some_iff.mp isKeyframe with isOwn | ⟨_, isOfTheme⟩
      · obtain ⟨final, _, rfl⟩ := Option.map_eq_some_iff.mp isOwn
        exact absurd rfl (notText final)
      · obtain ⟨final, rfl⟩ := textual.keyframes isOfTheme
        exact absurd rfl (notText final)

theorem safe_setProperties (statement : Text) (properties : List Text) :
    (environment.setProperties target statement declaration properties).Safe := by
  unfold setProperties
  apply Draft.Safe.andThen
  · apply Draft.Safe.lift
    split
    · exact safe_renameKeyframe textual _
    · exact .ok _
  · intro value _
    exact (safe_resolveValue statement value).andThen fun _ _ => .write _

theorem safe_basic (statement : Text) :
    (environment.basic target statement declaration).Safe := by
  unfold basic
  split
  · exact safe_custom statement
  · split
    · exact safe_setProperties textual statement _
    · split
      · exact safe_useFragment statement
      · exact .fail nofun

theorem safe_presetToken (key token : Text)
    (important : Bool) : (environment.presetToken target key important token).Safe := by
  apply (Draft.Safe.lift (Declaration.safe_parse token)).andThen
  intro declaration _
  split
  · exact .fail nofun
  · simp only
    split
    · exact .fail nofun
    · exact safe_basic textual token

theorem safe_usePreset (statement : Text) :
    (environment.usePreset target statement declaration).Safe := by
  unfold usePreset
  simp only
  split
  · exact .fail nofun
  · next preset isPreset =>
    obtain ⟨text, rfl⟩ := textual.typography isPreset
    apply (Draft.Safe.lift (safe_statements text)).andThen
    intro tokens _
    exact .forEach fun token _ => safe_presetToken textual _ token _

theorem safe_declare (statement : Text) :
    (environment.declare target statement declaration).Safe := by
  unfold declare
  split
  · exact .fail nofun
  · split
    · exact safe_declareLocal statement
    · exact safe_declareRuntime statement
    · exact safe_basic textual statement
    · split
      · exact safe_usePreset textual statement
      · exact safe_basic textual statement

theorem safe_blockBody (target : Target Body) (inside : Text) :
    (environment.blockBody target inside).Safe := by
  apply (Draft.Safe.lift (safe_statements inside)).andThen
  intro tokens _
  apply Draft.Safe.forEach
  intro token _
  unfold blockToken
  split
  · exact .fail nofun
  · exact (Draft.Safe.lift (Declaration.safe_parse token)).andThen fun _ _ =>
      safe_declare textual token

omit [EmptyCollection ω] [Append ω] in
theorem safe_conditionQuery (kind : Condition)
    (statement written : Text) : Safe (environment.conditionQuery kind statement written) := by
  unfold conditionQuery
  simp only
  split
  · exact .error nofun
  · split
    · exact .error nofun
    · split
      · exact .ok _
      · exact .error nofun
  · next value notText isCondition =>
    split at isCondition
    · exact absurd (Option.some.inj isCondition).symm (notText _)
    · obtain ⟨text, rfl⟩ := textual.breakpoints isCondition
      exact absurd rfl (notText text)

theorem safe_conditional (kind : Condition)
    (statement inside : Text) : (environment.conditional kind statement inside).Safe := by
  apply (Draft.Safe.lift (safe_splitTopLevel _ inside)).andThen
  intro parts _
  split
  · exact .fail nofun
  · next condition body _ =>
    apply (Draft.Safe.lift (safe_conditionQuery textual kind statement condition)).andThen
    intro query _
    have ofBody := safe_blockBody textual kind.target body
    simp only
    split
    · next error failed => exact .error (ofBody error failed)
    · exact .ok ()

theorem safe_flat (isDeclared : Text → Bool)
    (statement : Text) : (environment.flat isDeclared statement).Safe :=
  (Draft.Safe.lift (Declaration.safe_parse statement)).andThen fun _ _ =>
    safe_declare textual statement

theorem safe_contribution (isDeclared : Text → Bool)
    (statement : Text) : (environment.contribution isDeclared statement).Safe := by
  unfold contribution
  split
  · exact .done ()
  · exact .fail nofun
  · split
    · exact safe_flat textual isDeclared _
    · split
      · exact .fail nofun
      · unfold block?
        split
        · exact safe_blockBody textual _ _
        · cases Condition.ofHead? _ with
          | none => exact safe_flat textual isDeclared _
          | some kind => exact safe_conditional textual kind _ _

end Environment

namespace Style

variable {environment : Environment}

theorem safe_dispatchAll (textual : environment.theme.Textual) (statements : List Text)
    (style : Style) : (style.dispatchAll environment statements).Safe := by
  apply Attempt.Safe.forEach
  intro statement _ style error failed
  exact environment.safe_contribution textual style.localVariables.contains statement error
    (Draft.failure?_eq_some.mp failed)

theorem safe_dispatchBody (textual : environment.theme.Textual) (body : Text) (style : Style) :
    (style.dispatchBody environment body).Safe := by
  unfold dispatchBody
  split
  · next reason refused =>
    rintro error same
    rw [← Option.some.inj same]
    exact safe_statements body reason refused
  · exact safe_dispatchAll textual _ style

theorem safe_dispatchLines (textual : environment.theme.Textual) (constants : Constants)
    (nested : Bool) (lines : List Text) (style : Style) :
    (style.dispatchLines environment constants nested lines).Safe := by
  apply Attempt.Safe.andThen
  · apply Attempt.Safe.forEach
    intro name _ style
    unfold useConstant
    split
    · nofun
    · rintro error same
      rw [← Option.some.inj same]
      nofun
  · intro _
    exact safe_dispatchBody textual _ _

end Style

/-! ## Queries -/

namespace Query

theorem safe_first? (line : Nat) (text : Text) : Safe (first? line text) := by
  unfold first?
  split
  · exact .ok _
  · simp only
    split
    · exact .error nofun
    · split
      · exact .error nofun
      · split
        · next error refused => exact .error (Brace.safe_readBody _ _ error refused)
        · exact .ok _

theorem safe_level (line : Nat) (text : Text) : Safe (level line text) := by
  fun_induction level line text with
  | case1 line text error refused => exact .error (safe_first? line text error refused)
  | case2 => exact .ok _
  | case3 _ _ _ _ ih => exact ih.map

end Query

namespace QueryTree

theorem safe_parse (text : Text) : Safe (parse text) := by
  -- The bodies of the queries are shorter than the text, and they are read from the last to the first.
  induction length : text.length using Nat.strong_induction_on generalizing text with
  | _ size ih =>
    cases isLevel : Query.level 1 text with
    | error error =>
        rw [parse_of_error isLevel]
        exact .error (Query.safe_level 1 text error isLevel)
    | ok delimited =>
        have shorter := Query.length_level isLevel
        rw [parse_of_level isLevel]
        apply Safe.map
        generalize delimited.queries = queries at shorter ⊢
        induction queries with
        | nil => exact .ok []
        | cons query rest ofRest =>
            rw [List.forall_mem_cons] at shorter
            rw [List.foldrM_cons]
            apply (ofRest shorter.2).bind
            intro later _
            apply Safe.bind
            · exact ih _ (length ▸ shorter.1) query.2 rfl
            · intro parsed _
              exact .ok _

theorem safe_compileForest {environment : Environment} (textual : environment.theme.Textual)
    (constants : Constants) (forest : List QueryTree) :
    (compileForest environment constants forest).Safe := by
  intro error failed
  induction forest using forest_induction with
  | nil => simp [compileForest] at failed
  | cons selector lines style children rest inner onwards =>
      rcases failure_compileForest_cons failed with ofLines | ofChildren | ofRest
      · exact Style.safe_dispatchLines (by exact textual) constants true lines style error ofLines
      · exact inner ofChildren
      · exact onwards ofRest

theorem safe_nest (names : OrderedMap Text Text) (parent selector : Text) :
    Safe (Selector.nest names parent selector) := by
  apply Safe.map
  apply Safe.map
  apply Safe.mapM
  intro piece _
  cases piece with
  | char c => exact .ok _
  | found reference =>
      cases reference with
      | runtime name block => exact .ok _
      | localVariable name => exact .ok _
      | scope name =>
          simp only [Piece.renderM, Selector.ofClass]
          split
          · exact .ok _
          · apply Safe.error
            rintro ⟨⟩

theorem safe_rules (names : OrderedMap Text Text) (owner : Text)
    (queries : List (Text × QueryTree)) :
    Safe (rules names owner queries) := by
  fun_induction rules names owner queries with
  | case1 => exact .ok []
  | case2 parent written lines style children rest ih =>
      apply (safe_nest names parent written).bind
      intro selector _
      exact (ih selector).bind fun more _ => .ok _

end QueryTree

/-! ## Sources -/

namespace Directive

theorem safe_takeFrom (depth : Int) (number : Nat) (lines : List Text) :
    Safe (takeFrom depth number lines) := by
  induction lines generalizing depth number with
  | nil => exact .ok _
  | cons line rest ih =>
      rw [takeFrom]
      split
      · next error refused => exact .error (ih _ _ error refused)
      · simp only
        split
        · exact .ok _
        · split
          · exact .error nofun
          · exact .ok _

theorem safe_takeAll (text : Text) : Safe (takeAll text) := by
  unfold takeAll
  split
  · next error refused => exact .error (safe_takeFrom _ _ _ error refused)
  · split
    · exact .error nofun
    · exact .ok _

end Directive

namespace Source

theorem safe_cutBlocks (kind : Text) (seen : List Text) (text : Text) :
    Safe (cutBlocks kind seen text) := by
  fun_induction cutBlocks kind seen text with
  | case1 => exact .ok _
  | case2 => exact .error nofun
  | case3 =>
      rename_i error refused
      exact .error (Brace.safe_readBody _ _ error refused)
  | case4 =>
      rename_i ih
      exact ih.map

theorem safe_constant (block : NamedBlock) : Safe (constant block) := by
  unfold constant
  split
  · exact .error nofun
  · split
    · exact .error nofun
    · exact (safe_statements block.body).map

theorem safe_readClasses (line : Nat) (seen : List Text) (text : Text) :
    Safe (readClasses line seen text) := by
  fun_induction readClasses line seen text with
  | case1 => exact .ok _
  | case2 => exact .error nofun
  | case3 => exact .error nofun
  | case4 =>
      rename_i error refused
      exact .error (Brace.safe_readBody _ _ error refused)
  | case5 =>
      rename_i ih
      exact ih.map

theorem safe_parse (text : Text) : Safe (parse text) := by
  rw [parse]
  split
  · exact .error nofun
  · apply (safe_cutBlocks _ _ _).bind
    intro afterConstants _
    apply (Safe.mapM fun block _ => safe_constant block).bind
    intro constants _
    apply (safe_cutBlocks _ _ _).bind
    intro afterKeyframes _
    apply (Directive.safe_takeAll _).bind
    intro afterDirectives _
    exact (safe_readClasses _ _ _).bind fun classes _ => .ok _

theorem safe_environment (theme : Theme) (source : Source) : Safe (source.environment theme) := by
  have ofDirectives : ∀ directives, Safe (checkDirectives directives) := by
    intro directives
    fun_induction checkDirectives directives with
    | case1 => exact .ok ()
    | case2 _ _ _ ih => exact ih
    | case3 => exact .error nofun
  have ofNames : ∀ (blocks : List KeyframeBlock) (names : OrderedMap Text Text),
      Safe (blocks.foldlM (fun names block =>
        if names.contains block.name then
          .error (Cause.duplicateBlock "keyframe" block.name : Cause)
        else .ok (names.insert block.name (Naming.final source.scope block.name))) names) := by
    intro blocks
    induction blocks with
    | nil => exact fun names => .ok names
    | cons block rest ih =>
        intro names
        rw [List.foldlM_cons]
        apply Safe.bind
        · split
          · exact .error nofun
          · exact .ok _
        · exact fun names _ => ih names
  apply (ofDirectives _).bind
  intro _ _
  exact (ofNames _ _).bind fun keyframes _ => .ok _

theorem safe_compileConstants {environment : Environment} (textual : environment.theme.Textual)
    (blocks : List ConstantBlock) : Safe (compileConstants environment blocks) := by
  apply Safe.bind
  · apply Safe.mapM
    intro block _
    have ofStatements : (Style.dispatchAll { environment with context := .constant }
        block.statements ∅).Safe := by
      apply Style.safe_dispatchAll
      exact textual
    exact ofStatements.toExcept.bind fun style _ => .ok _
  · exact fun compiled _ => .ok _

theorem safe_readClass {environment : Environment} (textual : environment.theme.Textual)
    (scope : Text) (constants : Constants) (block : ClassBlock) :
    Safe (readClass environment scope constants block) := by
  apply (QueryTree.safe_parse block.body).bind
  rintro ⟨lines, queries⟩ _
  apply (Style.safe_dispatchLines textual constants false lines ∅).toExcept.bind
  intro style _
  apply (QueryTree.safe_compileForest textual constants queries).toExcept.bind
  intro compiled _
  apply Safe.bind
  · unfold checkLocals
    simp only
    split
    · exact .ok ()
    · exact .error nofun
  · exact fun _ _ => .ok _

theorem safe_checkBindings (names : OrderedMap Text Text) (keys : List Text)
    (directives : List Directive) : Safe (checkBindings names keys directives) := by
  have ofClasses : ∀ references, Safe (checkBoundClasses names references) := by
    intro references
    fun_induction checkBoundClasses names references with
    | case1 => exact .ok ()
    | case2 _ _ _ ih => exact ih
    | case3 => exact .error nofun
    | case4 => exact .error nofun
  fun_induction checkBindings names keys directives with
  | case1 => exact .ok ()
  | case2 _ _ _ _ ih => exact ih
  | case3 => exact .error nofun
  | case4 => exact .error nofun
  | case5 =>
      rename_i error refused
      exact .error (ofClasses _ error refused)
  | case6 =>
      rename_i ih
      exact ih
  | case7 => exact .error nofun

end Source

theorem Keyframe.safe_readStyle {environment : Environment} (textual : environment.theme.Textual)
    (statement : Text) : Safe (readStyle environment statement) := by
  apply Safe.bind
  · unfold parseStep
    split
    · exact .error nofun
    · split
      · exact .error nofun
      · split
        · exact .error nofun
        · split
          · exact .error nofun
          · exact .ok _
  · rintro ⟨label, inside⟩ _
    have ofBody : (Style.dispatchBody { environment with context := .keyframe } inside ∅).Safe := by
      apply Style.safe_dispatchBody
      exact textual
    exact ofBody.toExcept.bind fun style _ => .ok _

end TerseStyle

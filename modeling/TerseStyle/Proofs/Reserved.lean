import TerseStyle.Proofs.Context
import TerseStyle.Proofs.Decided

/-!
# Reserved characters from the theme

A source with a reserved character is refused before anything is read. The texts of a theme are
looked up later and one by one: the declarations of a preset, the final name of a keyframe, the
statements of a fragment. Each value that comes from them goes through the check that the values of
statements go through, at the moment it is resolved; `Environment.Uses` says which values a
statement brings that far, and the first of them with a reserved character ends it. The condition of
a block goes through no check, whether it is written in the statement or in a breakpoint.
-/

namespace TerseStyle

open Reference (Unmarked Within)

/-! ## The first refusal -/

/-- The outcome is not the refusal of a reserved character. -/
def Unreserved {α : Type} (outcome : Except Error α) : Prop :=
  ∀ token, outcome ≠ .error { cause := .reservedInStatement token }

namespace Draft

variable {ω α β : Type}

/-- The writing ended at a reserved character in a token. -/
def Reserved (draft : Draft ω α) (token : Text) : Prop :=
  draft.result = .error { cause := .reservedInStatement token }

/-- The item comes to be written: all items before it are without error. -/
def Reaches (item : α → Draft ω Unit) (items : List α) (a : α) : Prop :=
  ∃ before after, items = before ++ a :: after ∧
    ∀ earlier ∈ before, (item earlier).result = .ok ()

variable {token : Text}

theorem not_reserved_of_ok {draft : Draft ω α} {a : α} (ended : draft.result = .ok a) :
    ¬draft.Reserved token := by
  simp [Reserved, ended]

theorem reserved_andThen [Append ω] {first : Draft ω α} {next : α → Draft ω β} :
    (first.andThen next).Reserved token ↔
      first.Reserved token ∨ ∃ a, first.result = .ok a ∧ (next a).Reserved token := by
  unfold Reserved
  cases ended : first.result with
  | error error => simp [andThen_of_error ended]
  | ok a => simp [andThen_of_ok ended]

theorem reaches_cons {item : α → Draft ω Unit} {a b : α} {rest : List α} :
    Reaches item (a :: rest) b ↔ b = a ∨ (item a).result = .ok () ∧ Reaches item rest b := by
  constructor
  · rintro ⟨before, after, same, succeeded⟩
    cases before with
    | nil =>
        simp only [List.nil_append, List.cons.injEq] at same
        exact Or.inl same.1.symm
    | cons first more =>
        simp only [List.cons_append, List.cons.injEq] at same
        rw [List.forall_mem_cons, ← same.1] at succeeded
        exact Or.inr ⟨succeeded.1, more, after, same.2, succeeded.2⟩
  · rintro (rfl | ⟨ended, before, after, rfl, succeeded⟩)
    · exact ⟨[], rest, rfl, by simp⟩
    · exact ⟨a :: before, after, rfl, List.forall_mem_cons.mpr ⟨ended, succeeded⟩⟩

variable [EmptyCollection ω]

@[simp]
theorem not_reserved_done (a : α) (token : Text) : ¬(done a : Draft ω α).Reserved token :=
  not_reserved_of_ok rfl

omit [EmptyCollection ω] in
@[simp]
theorem not_reserved_write (contribution : ω) (token : Text) :
    ¬(write contribution).Reserved token :=
  not_reserved_of_ok rfl

@[simp]
theorem reserved_fail {cause : Cause} :
    (fail (cause : Error) : Draft ω α).Reserved token ↔ cause = .reservedInStatement token := by
  simp [Reserved, fail]

variable [Append ω]

theorem reserved_lift_andThen {outcome : Except Error α} (unreserved : Unreserved outcome)
    {next : α → Draft ω β} :
    ((lift outcome).andThen next).Reserved token ↔
      ∃ a, outcome = .ok a ∧ (next a).Reserved token := by
  rw [reserved_andThen, Reserved, result_lift, or_iff_right (unreserved token)]

omit [EmptyCollection ω] in
theorem reserved_andThen_write {first : Draft ω α} {make : α → ω} :
    (first.andThen fun a => write (make a)).Reserved token ↔ first.Reserved token := by
  simp [reserved_andThen]

/-- The first refusal ends the writing. -/
theorem reserved_forEach {item : α → Draft ω Unit} {items : List α} :
    (forEach item items).Reserved token ↔ ∃ a, Reaches item items a ∧ (item a).Reserved token := by
  induction items with
  | nil => simp [forEach, Reaches]
  | cons a rest ih =>
      simp only [forEach, reserved_andThen, ih, reaches_cons]
      constructor
      · rintro (first | ⟨_, ended, b, reaches, later⟩)
        · exact ⟨a, Or.inl rfl, first⟩
        · exact ⟨b, Or.inr ⟨ended, reaches⟩, later⟩
      · rintro ⟨b, rfl | ⟨ended, reaches⟩, reserved⟩
        · exact Or.inl reserved
        · exact Or.inr ⟨(), ended, b, reaches, reserved⟩

end Draft

theorem Reference.unmarked_trim_iff {text : Text} : Unmarked (Text.trim text) ↔ Unmarked text := by
  constructor
  · intro unmarked c isChar
    rcases Text.isBlank_or_mem_trim isChar with blank | inTrimmed
    · constructor <;> rintro rfl <;> exact absurd blank (by decide)
    · exact unmarked c inTrimmed
  · exact fun unmarked => unmarked.of_subset fun c => Text.mem_of_mem_trim

namespace Unreserved

theorem statements (text : Text) : Unreserved (statements text) :=
  fun _ refused => absurd (Scan.isBracket_of_statementsAfter refused) (by simp [Cause.isBracket])

theorem splitTopLevel (isSeparator : CodePoint → Bool) (text : Text) :
    Unreserved (splitTopLevel isSeparator text) :=
  fun _ refused =>
    absurd (Scan.isBracket_of_splitTopLevelAfter refused) (by simp [Cause.isBracket])

theorem parse (statement : Text) : Unreserved (Declaration.parse statement) := by
  intro token
  unfold Declaration.parse
  split <;> simp

theorem presetStatements (preset : JsonValue) : Unreserved (Preset.statements preset) := by
  intro token
  unfold Preset.statements
  simp only
  split
  · exact statements _ token
  · simp
  · cases Preset.partStatements [] [] _ <;> simp [Except.mapError]
  · simp
  · simp

theorem renameKeyframe (environment : Environment) (value : Text) :
    Unreserved (environment.renameKeyframe value) := by
  intro token
  unfold Environment.renameKeyframe
  split
  · simp
  · split <;> simp

theorem conditionQuery (environment : Environment) (kind : Condition) (statement written : Text) :
    Unreserved (environment.conditionQuery kind statement written) := by
  intro token
  unfold Environment.conditionQuery
  simp only
  split
  · simp
  · split
    · simp
    · split <;> simp
  · simp

end Unreserved

/-! ## The values that declarations are resolved with -/

namespace Environment

/-- The value of a declaration, with the final name of its keyframe if it is an animation. -/
def finalValue (environment : Environment) (declaration : Declaration) : Except Error Text :=
  if declaration.name = "am" ∨ declaration.name = "am-n" then
    environment.renameKeyframe declaration.value
  else .ok declaration.value

/-- The value with which a declaration of properties comes to be resolved. -/
def SetsTo (environment : Environment) (declaration : Declaration) (value : Text) : Prop :=
  if declaration.sigil = .custom then value = declaration.value
  else (Abbreviation.expand? declaration.name).isSome = true ∧
    environment.finalValue declaration = .ok value

/-- The value with which a token of a preset comes to be resolved. -/
def PresetSetsTo (environment : Environment) (important : Bool) (token value : Text) : Prop :=
  ∃ declaration, Declaration.read? token = some declaration ∧
    ¬(declaration.name = "ty" ∨ declaration.sigil = .runtime ∨
      declaration.sigil = .localVariable) ∧
    let part := { declaration with important := important || declaration.important }
    environment.refusesImportance part = false ∧ environment.SetsTo part value

variable {ω : Type} [EmptyCollection ω] [Append ω]

/-- A local variable may be declared at the place. -/
def TakesLocal (environment : Environment) (target : Target ω) (declaration : Declaration) : Prop :=
  environment.context.allowsLocalDeclarations = true ∧
    ∃ locals, target.locals? = some locals ∧ declaration.important = false ∧
      Abbreviation.isKnown declaration.name = false ∧ locals.isDeclared declaration.name = false

/-- A runtime variable may be declared at the place. -/
def TakesRuntime (environment : Environment) (target : Target ω) (declaration : Declaration) :
    Prop :=
  environment.context.allowsRuntime = true ∧ target.takesRuntime = true ∧
    declaration.name ≠ "ty" ∧ Value.mentionsLocal declaration.value = false ∧
    (Abbreviation.expand? declaration.name).isSome = true

/-- The values with which the tokens of a preset come to be resolved. -/
def PresetResolves (environment : Environment) (target : Target ω) (declaration : Declaration)
    (token value : Text) : Prop :=
  ∃ preset tokens,
    environment.theme.typography.value? (Text.trim declaration.value) = some preset ∧
    Preset.statements preset = .ok tokens ∧
    Draft.Reaches (environment.presetToken target (Text.trim declaration.value)
      declaration.important) tokens token ∧
    environment.PresetSetsTo declaration.important token value

/-- The values with which a declaration comes to be resolved, each with the token that spells it:
the statement itself, or a token of the preset that it applies. -/
def Resolves (environment : Environment) (target : Target ω) (statement : Text)
    (declaration : Declaration) (token value : Text) : Prop :=
  match declaration.sigil with
  | .localVariable =>
    token = statement ∧ environment.TakesLocal target declaration ∧ value = declaration.value
  | .runtime =>
    token = statement ∧ environment.TakesRuntime target declaration ∧ value = declaration.value
  | .custom => token = statement ∧ environment.SetsTo declaration value
  | .plain =>
    if declaration.name = "ty" then environment.PresetResolves target declaration token value
    else token = statement ∧ environment.SetsTo declaration value

variable {environment : Environment} {target : Target ω} {statement token : Text}
  {declaration : Declaration}

theorem reserved_resolveValue {value : Text} :
    (environment.resolveValue target statement value).Reserved token ↔
      token = statement ∧ ¬Unmarked value := by
  unfold resolveValue
  by_cases marked : Reference.hasMarker value = true
  · have isMarked : ¬Unmarked value := by
      rw [← Reference.hasMarker_eq_false_iff, marked]
      simp
    rw [if_pos marked, Draft.reserved_fail]
    simp [isMarked, eq_comm]
  · have unmarked : Unmarked value :=
      Reference.hasMarker_eq_false_iff.mp (by simpa using marked)
    rw [if_neg marked]
    simp only [unmarked, not_true_eq_false, and_false, iff_false]
    split
    · simp
    · split
      · simp
      · simp [Draft.reserved_andThen]

theorem reserved_setProperties {properties : List Text} :
    (environment.setProperties target statement declaration properties).Reserved token ↔
      token = statement ∧ ∃ value, environment.finalValue declaration = .ok value ∧
        ¬Unmarked value := by
  have unreserved : Unreserved (environment.finalValue declaration) := by
    unfold finalValue
    split
    · exact .renameKeyframe environment _
    · simp [Unreserved]
  change ((Draft.lift (environment.finalValue declaration)).andThen _).Reserved token ↔ _
  simp only [Draft.reserved_lift_andThen unreserved, Draft.reserved_andThen_write,
    reserved_resolveValue]
  grind

omit [Append ω] in
theorem not_reserved_useFragment :
    ¬(environment.useFragment target statement declaration).Reserved token := by
  unfold useFragment
  split
  · split <;> simp
  · simp

theorem reserved_basic :
    (environment.basic target statement declaration).Reserved token ↔
      token = statement ∧ ∃ value, environment.SetsTo declaration value ∧ ¬Unmarked value := by
  unfold basic SetsTo
  split
  · rw [custom, Draft.reserved_andThen_write, reserved_resolveValue]
    simp
  · split
    · next expands => simp [expands, reserved_setProperties]
    · next unknown =>
      rw [unknown]
      split
      · simp [not_reserved_useFragment]
      · simp

theorem reserved_presetToken {key part : Text} {important : Bool} :
    (environment.presetToken target key important part).Reserved token ↔
      token = part ∧ ∃ value, environment.PresetSetsTo important part value ∧ ¬Unmarked value := by
  unfold presetToken PresetSetsTo
  simp only [Draft.reserved_lift_andThen (.parse part), Declaration.parse_eq_ok_iff_read?]
  constructor
  · rintro ⟨declaration, reads, reserved⟩
    split at reserved
    · simp at reserved
    · next supported =>
      split at reserved
      · simp at reserved
      · next accepted =>
        rcases reserved_basic.mp reserved with ⟨same, value, setsTo, marked⟩
        exact ⟨same, value, ⟨declaration, reads, supported, by simpa using accepted, setsTo⟩, marked⟩
  · rintro ⟨same, value, ⟨declaration, reads, supported, accepted, setsTo⟩, marked⟩
    refine ⟨declaration, reads, ?_⟩
    rw [if_neg supported, if_neg (by simp [accepted])]
    exact reserved_basic.mpr ⟨same, value, setsTo, marked⟩

theorem reserved_usePreset :
    (environment.usePreset target statement declaration).Reserved token ↔
      ∃ value, environment.PresetResolves target declaration token value ∧ ¬Unmarked value := by
  unfold usePreset PresetResolves
  simp only
  split
  · next unknown => simp [unknown]
  · next preset found =>
    simp only [found, Draft.reserved_lift_andThen (.presetStatements preset),
      Draft.reserved_forEach, reserved_presetToken]
    grind

theorem reserved_declareLocal :
    (environment.declareLocal target statement declaration).Reserved token ↔
      token = statement ∧ environment.TakesLocal target declaration ∧
        ¬Unmarked declaration.value := by
  unfold declareLocal TakesLocal
  cases environment.context.allowsLocalDeclarations with
  | false => simp
  | true =>
      cases target.locals? with
      | none => simp
      | some locals =>
          cases declaration.important <;> cases Abbreviation.isKnown declaration.name <;>
            cases fresh : locals.isDeclared declaration.name <;>
            simp [fresh, Draft.reserved_andThen_write, reserved_resolveValue]

theorem reserved_declareRuntime :
    (environment.declareRuntime target statement declaration).Reserved token ↔
      token = statement ∧ environment.TakesRuntime target declaration ∧
        ¬Unmarked declaration.value := by
  unfold declareRuntime TakesRuntime
  by_cases isPreset : declaration.name = "ty"
  · cases environment.context.allowsRuntime <;> cases target.takesRuntime <;> simp [isPreset]
  · cases environment.context.allowsRuntime <;> cases target.takesRuntime <;>
      cases Value.mentionsLocal declaration.value <;>
      cases expands : Abbreviation.expand? declaration.name <;>
      simp [isPreset, expands, Draft.reserved_andThen_write, reserved_resolveValue]

/-- A declaration ends at a reserved character exactly if a value with one comes to be resolved. -/
theorem reserved_declare :
    (environment.declare target statement declaration).Reserved token ↔
      environment.refusesImportance declaration = false ∧
        ∃ value, environment.Resolves target statement declaration token value ∧
          ¬Unmarked value := by
  unfold declare Resolves
  cases environment.refusesImportance declaration with
  | true => simp
  | false =>
      cases declaration.sigil with
      | localVariable => simp [reserved_declareLocal, and_assoc]
      | runtime => simp [reserved_declareRuntime, and_assoc]
      | custom => simp [reserved_basic, and_assoc]
      | plain =>
          by_cases isPreset : declaration.name = "ty"
          · simp [isPreset, reserved_usePreset]
          · simp [isPreset, reserved_basic, and_assoc]

end Environment

/-! ## The values that statements use -/

namespace Environment

/-- The values with which a statement that is a declaration comes to be resolved. -/
def Applies {ω : Type} [EmptyCollection ω] [Append ω] (environment : Environment)
    (target : Target ω) (statement token value : Text) : Prop :=
  ∃ declaration, Declaration.read? statement = some declaration ∧
    environment.refusesImportance declaration = false ∧
    environment.Resolves target statement declaration token value

/-- The values that the inside of a block uses, as far as it is read. -/
def UsesInside (environment : Environment) (target : Target Body) (inside token value : Text) :
    Prop :=
  ∃ tokens inner, statements inside = .ok tokens ∧
    Draft.Reaches (environment.blockToken target) tokens inner ∧
    environment.Applies target inner token value

/-- The values that a statement uses, as far as it is read, each with the token that spells it. -/
inductive Uses (environment : Environment) (isDeclared : Text → Bool) (statement : Text) :
    Text → Text → Prop where
  | flat {token value : Text}
      (applies : environment.Applies (.topLevel isDeclared) (Text.trim statement) token value) :
      Uses environment isDeclared statement token value
  | slotted {head inside token value : Text} {slot : Slot}
      (parts : blockParts? (Text.trim statement) = some (head, inside))
      (takes : environment.TakesBlock statement) (isSlot : Slot.ofHead? head = some slot)
      (uses : environment.UsesInside slot.target inside token value) :
      Uses environment isDeclared statement token value
  | conditional {head inside condition body query token value : Text} {kind : Condition}
      (parts : blockParts? (Text.trim statement) = some (head, inside))
      (takes : environment.TakesBlock statement) (isCondition : Condition.ofHead? head = some kind)
      (parted : splitTopLevel (· == CodePoint.char ',') inside = .ok (some (condition, body)))
      (isQuery : environment.conditionQuery kind (Text.trim statement) condition = .ok query)
      (uses : environment.UsesInside kind.target body token value) :
      Uses environment isDeclared statement token value

section

variable {ω : Type} [EmptyCollection ω] [Append ω] {environment : Environment}

theorem reserved_of_parse {target : Target ω} {statement token : Text} :
    ((Draft.lift (Declaration.parse statement)).andThen
      (environment.declare target statement)).Reserved token ↔
      ∃ value, environment.Applies target statement token value ∧ ¬Unmarked value := by
  simp only [Draft.reserved_lift_andThen (.parse statement),
    Declaration.parse_eq_ok_iff_read?, reserved_declare, Applies]
  grind

theorem reserved_blockToken {target : Target Body} {inner token : Text} :
    (environment.blockToken target inner).Reserved token ↔
      ∃ value, environment.Applies target inner token value ∧ ¬Unmarked value := by
  unfold blockToken
  split
  · next isBlock =>
    constructor
    · simp
    · rintro ⟨value, ⟨declaration, reads, _⟩, _⟩
      rw [blockParts?_of_read? (by simp [reads])] at isBlock
      simp at isBlock
  · exact reserved_of_parse

theorem reserved_blockBody {target : Target Body} {inside token : Text} :
    (environment.blockBody target inside).Reserved token ↔
      ∃ value, environment.UsesInside target inside token value ∧ ¬Unmarked value := by
  simp only [blockBody, Draft.reserved_lift_andThen (.statements inside), Draft.reserved_forEach,
    reserved_blockToken, UsesInside]
  grind

theorem reserved_conditional {kind : Condition} {statement inside token : Text} :
    (environment.conditional kind statement inside).Reserved token ↔
      ∃ condition body query, splitTopLevel (· == CodePoint.char ',') inside =
          .ok (some (condition, body)) ∧
        environment.conditionQuery kind statement condition = .ok query ∧
        ∃ value, environment.UsesInside kind.target body token value ∧ ¬Unmarked value := by
  unfold conditional
  rw [Draft.reserved_lift_andThen (.splitTopLevel _ inside)]
  constructor
  · rintro ⟨_ | ⟨condition, body⟩, parted, reserved⟩
    · simp at reserved
    · rcases (Draft.reserved_lift_andThen (.conditionQuery _ _ _ _)).mp reserved with
        ⟨query, isQuery, ended⟩
      refine ⟨condition, body, query, parted, isQuery, reserved_blockBody.mp ?_⟩
      simp only at ended
      split at ended
      · next error failed => exact failed.trans ended
      · exact absurd ended (Draft.not_reserved_of_ok rfl)
  · rintro ⟨condition, body, query, parted, isQuery, uses⟩
    refine ⟨_, parted, ?_⟩
    apply (Draft.reserved_lift_andThen (.conditionQuery _ _ _ _)).mpr
    refine ⟨query, isQuery, ?_⟩
    have failed : (environment.blockBody kind.target body).result = _ := reserved_blockBody.mpr uses
    simp only [failed]
    rfl

variable {isDeclared : Text → Bool} {statement token : Text}

theorem Uses.reserved {value : Text} (uses : environment.Uses isDeclared statement token value)
    (marked : ¬Unmarked value) : (environment.contribution isDeclared statement).Reserved token := by
  cases uses with
  | flat applies =>
      rcases applies with ⟨declaration, reads, accepted, resolves⟩
      rw [contribution_of_read? reads]
      exact reserved_declare.mpr ⟨accepted, value, resolves, marked⟩
  | slotted parts takes isSlot uses =>
      rw [contribution_of_slot parts takes isSlot]
      exact reserved_blockBody.mpr ⟨value, uses, marked⟩
  | conditional parts takes isCondition parted isQuery uses =>
      rw [contribution_of_condition parts takes isCondition]
      exact reserved_conditional.mpr ⟨_, _, _, parted, isQuery, value, uses, marked⟩

/-- A statement ends at a reserved character exactly if it uses a value with one. -/
theorem reserved_contribution :
    (environment.contribution isDeclared statement).Reserved token ↔
      ∃ value, environment.Uses isDeclared statement token value ∧ ¬Unmarked value := by
  refine ⟨?_, fun ⟨value, uses, marked⟩ => uses.reserved marked⟩
  intro reserved
  have ofFlat : (environment.flat isDeclared (Text.trim statement)).Reserved token →
      ∃ value, environment.Uses isDeclared statement token value ∧ ¬Unmarked value := by
    intro reserved
    rcases reserved_of_parse.mp reserved with ⟨value, applies, marked⟩
    exact ⟨value, .flat applies, marked⟩
  unfold contribution at reserved
  split at reserved
  · simp at reserved
  · simp at reserved
  · next noDirective =>
    split at reserved
    · exact ofFlat reserved
    · next head inside parts =>
      split at reserved
      · simp at reserved
      · next allowed =>
        have takes := takesBlock_of_noDirective noDirective allowed
        unfold block? at reserved
        split at reserved
        · next slot isSlot =>
          rcases reserved_blockBody.mp reserved with ⟨value, uses, marked⟩
          exact ⟨value, .slotted parts takes isSlot uses, marked⟩
        · cases isCondition : Condition.ofHead? head with
          | none =>
              rw [isCondition] at reserved
              exact ofFlat reserved
          | some kind =>
              rw [isCondition] at reserved
              rcases reserved_conditional.mp reserved with
                ⟨condition, body, query, parted, isQuery, value, uses, marked⟩
              exact ⟨value, .conditional parts takes isCondition parted isQuery uses, marked⟩

end

/-! ## Conditions -/

/-- The text of a condition: the one that is written, or that of the breakpoint it names. -/
inductive IsCondition (environment : Environment) (written : Text) : Text → Prop where
  | written (hasBrackets : CodePoint.char '[' ∈ Text.trim written) :
      IsCondition environment written (Text.trim written)
  | breakpoint {condition : Text} (noBrackets : CodePoint.char '[' ∉ Text.trim written)
      (found : environment.theme.breakpoints.value? (Text.trim written) =
        some (.string condition)) :
      IsCondition environment written condition

theorem exists_of_conditionQuery {environment : Environment} {kind : Condition}
    {statement written query : Text}
    (isQuery : environment.conditionQuery kind statement written = .ok query) :
    ∃ condition declaration, environment.IsCondition written condition ∧
      Declaration.read? condition = some declaration ∧
      Text.trim declaration.value <:+: query ∧ (Unmarked query ↔ Unmarked declaration.value) := by
  unfold conditionQuery at isQuery
  simp only at isQuery
  split at isQuery
  · simp at isQuery
  · next condition isCondition =>
    split at isQuery
    · simp at isQuery
    · next declaration reads =>
      split at isQuery
      · next property _ expands _ =>
        have unmarkedProperty := Abbreviation.unmarked_of_expand? expands property
          List.mem_cons_self
        have separators : Unmarked ("(" : Text) ∧ Unmarked (":" : Text) ∧
            Unmarked (")" : Text) := by
          decide
        rw [Except.ok.injEq] at isQuery
        refine ⟨condition, declaration, ?_, reads, ?_, ?_⟩
        · split at isCondition
          · next hasBrackets =>
            cases isCondition
            exact .written hasBrackets
          · next noBrackets => exact .breakpoint noBrackets isCondition
        · rw [← isQuery]
          exact ⟨"(" ++ property ++ ":", ")", rfl⟩
        · simp [← isQuery, separators, unmarkedProperty, Reference.unmarked_trim_iff]
      · simp at isQuery
  · simp at isQuery

variable {environment : Environment} {isDeclared : Text → Bool} {statement : Text}

/-- A block under a condition that is read to its end has the condition. -/
theorem exists_block_of_ok {head inside condition body : Text} {kind : Condition}
    (parts : blockParts? (Text.trim statement) = some (head, inside))
    (isCondition : Condition.ofHead? head = some kind)
    (parted : splitTopLevel (· == CodePoint.char ',') inside = .ok (some (condition, body)))
    (ended : (environment.contribution isDeclared statement).result = .ok ()) :
    ∃ block ∈ (environment.contribution isDeclared statement).written.conditionals kind,
      environment.conditionQuery kind (Text.trim statement) condition = .ok block.query := by
  have takes := takesBlock_of_ok parts ended
  rw [contribution_of_condition parts takes isCondition, conditional, parted,
    Draft.lift_ok_andThen] at ended ⊢
  rcases Draft.result_andThen_eq_ok.mp ended with ⟨query, isQuery, bodyEnded⟩
  rw [Draft.result_lift] at isQuery
  simp only [isQuery, Draft.lift_ok_andThen] at bodyEnded ⊢
  split at bodyEnded
  · simp at bodyEnded
  · next succeeded =>
    refine ⟨⟨query, (environment.blockBody kind.target body).written.properties⟩, ?_, rfl⟩
    rw [Style.conditionals_append]
    apply List.mem_append_right
    cases kind <;> exact List.mem_singleton_self _

end Environment

/-! ## Fragments -/

theorem Style.failure_dispatch {environment : Environment} {statement token : Text}
    {style : Style} :
    (style.dispatch environment statement).failure =
        some { cause := .reservedInStatement token } ↔
      ∃ value, environment.Uses style.localVariables.contains statement token value ∧
        ¬Unmarked value := by
  rw [← Environment.reserved_contribution, dispatch, Draft.failure?_eq_some, Draft.Reserved]

/-- The values that statements use one after the other, as far as they are read. -/
def Style.UsesEach (environment : Environment) (token value : Text) : List Text → Style → Prop
  | [], _ => False
  | statement :: rest, style =>
    environment.Uses style.localVariables.contains statement token value ∨
      (style.dispatch environment statement).failure = none ∧
        UsesEach environment token value rest (style.dispatch environment statement).state

theorem Style.failure_dispatchAll {environment : Environment} {token : Text}
    {found : List Text} {style : Style} :
    (style.dispatchAll environment found).failure =
        some { cause := .reservedInStatement token } ↔
      ∃ value, UsesEach environment token value found style ∧ ¬Unmarked value := by
  induction found generalizing style with
  | nil => simp [dispatchAll, Attempt.forEach, UsesEach]
  | cons statement rest ih =>
      have first := @failure_dispatch environment statement token style
      rw [dispatchAll, Attempt.forEach, ← dispatchAll]
      cases ended : (style.dispatch environment statement).failure with
      | some reason =>
          rw [ended] at first
          simp [Attempt.andThen, UsesEach, ended, first]
      | none =>
          rw [ended] at first
          simp only [Attempt.andThen, UsesEach, ended, ih]
          grind

/-- The values that the text of a fragment uses. -/
def Fragment.Uses (theme : Theme) (text token value : Text) : Prop :=
  ∃ found, statements text = .ok found ∧
    Style.UsesEach { context := .theme, theme } token value found ∅

theorem Fragment.compileText_eq_reserved_iff {theme : Theme} {text token : Text} :
    compileText theme text = .error { cause := .reservedInStatement token } ↔
      ∃ value, Fragment.Uses theme text token value ∧ ¬Unmarked value := by
  rw [compileText, Attempt.toExcept_eq_error, Style.dispatchBody]
  cases splits : statements text with
  | error error =>
      have unreserved := Unreserved.statements text token
      rw [splits] at unreserved
      simpa [Uses, splits] using unreserved
  | ok found => simp [Style.failure_dispatchAll, Uses, splits]

/-- However statements are dispatched under a theme of texts, the next one ends at a reserved
character exactly if it uses a value with one, be it from a preset, from a keyframe or its own. The
text of a fragment is refused on the same terms when the theme is built, and no other text can be
used as a fragment. What the statement leaves refers to nothing that is not declared, and has no
other reserved character, apart from the conditions of blocks. These have the reserved characters of
the statement or breakpoint that they come from. -/
theorem Style.reserved_dispatch_iff {texts : Theme.Texts} {theme : Theme}
    (built : Theme.ofTexts texts = .ok theme) (context : Context)
    (calls : List (OrderedMap Text Text × Text)) (keyframes : OrderedMap Text Text)
    (statement : Text) :
    let style := (∅ : Style).dispatchEach context theme calls
    let environment : Environment := { context, theme, keyframes }
    let after := style.dispatch environment statement
    (∀ token, Cause.category (.reservedInStatement token) = .structural ∧
      (after.failure = some { cause := .reservedInStatement token } ↔
        ∃ value, environment.Uses style.localVariables.contains statement token value ∧
          ¬Unmarked value)) ∧
    (∀ text token,
      Fragment.compileText texts.tables text = .error { cause := .reservedInStatement token } ↔
        ∃ value, Fragment.Uses texts.tables text token value ∧ ¬Unmarked value) ∧
    (∀ group variant fragment, theme.fragment? group variant = some fragment →
      ∃ fragments, (group, fragments) ∈ texts.defines ∧ ∃ text, (variant, text) ∈ fragments ∧
        Fragment.compileText texts.tables text = .ok fragment) ∧
    (∀ text, after.state.Spells text → Within after.state.Covers text ∨
      ∃ block ∈ after.state.screens ++ after.state.containers, text = block.query) ∧
    (∀ head inside kind condition body,
      blockParts? (Text.trim statement) = some (head, inside) →
      Condition.ofHead? head = some kind →
      splitTopLevel (· == CodePoint.char ',') inside = .ok (some (condition, body)) →
      after.failure = none →
      ∃ block ∈ after.state.conditionals kind, ∃ text declaration,
        environment.IsCondition condition text ∧ Declaration.read? text = some declaration ∧
        Text.trim declaration.value <:+: block.query ∧
        (Unmarked block.query ↔ Unmarked declaration.value)) ∧
    ((∀ call ∈ calls, Unmarked call.2) → Unmarked statement →
      (∀ entry ∈ texts.breakpoints, Unmarked entry.2) →
      (∀ group ∈ texts.defines, ∀ entry ∈ group.2, Unmarked entry.2) →
      ∀ block ∈ after.state.screens ++ after.state.containers, Unmarked block.query) := by
  intro style environment after
  have soundTheme : theme.Sound := Theme.sound_of_ofTexts built
  have contributes : Contribution environment (Text.trim statement) _ :=
    Environment.contribution_of_statement style.localVariables.contains
  have sound : after.state.Sound :=
    (sound_dispatchEach soundTheme).append (contributes.sound soundTheme)
  refine ⟨fun token => ⟨rfl, failure_dispatch⟩,
    fun text token => Fragment.compileText_eq_reserved_iff,
    fun group variant fragment => Theme.exists_text_of_fragment? built,
    fun text => sound.within_of_spells, ?_, ?_⟩
  · intro head inside kind condition body parts isCondition parted succeeded
    have ended := Draft.failure?_eq_none.mp succeeded
    rcases Environment.exists_block_of_ok parts isCondition parted ended with
      ⟨block, isBlock, isQuery⟩
    refine ⟨block, ?_, Environment.exists_of_conditionQuery isQuery⟩
    exact (conditionals_append kind).symm ▸ List.mem_append_right _ isBlock
  · intro unmarkedCalls unmarked unmarkedBreakpoints unmarkedDefines
    have plainTheme := Theme.hasPlainConditions_of_ofTexts built unmarkedBreakpoints unmarkedDefines
    exact (hasPlainConditions_dispatchEach plainTheme unmarkedCalls).append
      (contributes.hasPlainConditions plainTheme (unmarked.of_subset fun c => Text.mem_of_mem_trim))

set_option maxRecDepth 100000 in
/-- The second declaration of a preset is refused, and the first is kept. -/
theorem Style.reserved_dispatch_preset :
    let texts : Theme.Texts := { typography := [("t", "fs[1px] c[⟦]")] }
    ∃ theme, Theme.ofTexts texts = .ok theme ∧
      let style := (∅ : Style).dispatchEach .rule theme [(∅, "w[2px]")]
      let environment : Environment := { context := .rule, theme, keyframes := ∅ }
      style.dispatch environment "ty[t]" =
        { state := { base := .ofList [("width", "2px"), ("font-size", "1px")] }
          failure := some { cause := .reservedInStatement "c[⟦]" } } ∧
      ∃ value, environment.Uses style.localVariables.contains "ty[t]" "c[⟦]" value ∧
        ¬Unmarked value := by
  intro texts
  have evaluates : (Theme.ofTexts texts >>= fun theme =>
      (pure (((∅ : Style).dispatchEach .rule theme [(∅, "w[2px]")]).dispatch
        { context := .rule, theme, keyframes := ∅ } "ty[t]") : Except Error (Attempt Style))) =
      .ok { state := { base := .ofList [("width", "2px"), ("font-size", "1px")] }
            failure := some { cause := .reservedInStatement "c[⟦]" } } := by
    decide +kernel
  obtain ⟨theme, built, outcome⟩ := bind_eq_ok.mp evaluates
  have isOutcome := Except.ok.inj outcome
  have refuses := Style.reserved_dispatch_iff built .rule [(∅, "w[2px]")] ∅ "ty[t]"
  exact ⟨theme, built, isOutcome,
    (refuses.1 "c[⟦]").2.mp (congrArg Attempt.failure isOutcome)⟩

set_option maxRecDepth 100000 in
/-- A reserved character of a breakpoint comes into the style. -/
theorem Style.unreserved_dispatch_breakpoint :
    let texts : Theme.Texts := { breakpoints := [("a", "min-w[⟦]")] }
    ∃ theme, Theme.ofTexts texts = .ok theme ∧
      let after := (∅ : Style).dispatch { context := .rule, theme } "screen(a, w[1px])"
      after.failure = none ∧ ∃ block ∈ after.state.screens, ¬Unmarked block.query := by
  intro texts
  have evaluates : (Theme.ofTexts texts >>= fun theme =>
      (pure ((∅ : Style).dispatch { context := .rule, theme } "screen(a, w[1px])") :
        Except Error (Attempt Style))) =
      .ok { state := { screens :=
              [{ query := "(min-width:⟦)", properties := .single "width" "1px" }] } } := by
    decide +kernel
  obtain ⟨theme, built, outcome⟩ := bind_eq_ok.mp evaluates
  refine ⟨theme, built, ?_⟩
  rw [Except.ok.inj outcome]
  exact ⟨rfl, _, List.mem_singleton_self _, by decide⟩

end TerseStyle

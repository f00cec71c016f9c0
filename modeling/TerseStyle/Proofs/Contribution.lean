import TerseStyle.Proofs.Declaration
import TerseStyle.Proofs.Outcome
import TerseStyle.Proofs.Style
import TerseStyle.Proofs.Value
import TerseStyle.Proofs.Vocabulary
import TerseStyle.Statement.Block

/-!
# What statements contribute

Everything that a declaration can add to the place where it stands is listed once, as the inductive
predicate `Contributes`, with the conditions under which it is added; `Contribution` does the same
for whole statements. Statements that fail half way are included. A property of the styles that
statements lead to is then proved by cases on these predicates, and no proof opens the reading of
statements again.
-/

namespace TerseStyle

open Reference (Unmarked Within IsName)

theorem unmarked_of_isAsciiNameChar {name : Text} (isAscii : ∀ c ∈ name, isAsciiNameChar c = true) :
    Unmarked name := by
  intro c isChar
  constructor
  · rintro rfl
    exact absurd (isAscii _ isChar) (by decide)
  · rintro rfl
    exact absurd (isAscii _ isChar) (by decide)

/-- The names of the properties that one declaration sets: those of an abbreviation, or one custom
property. -/
inductive ArePropertyNames : List Text → Prop where
  | ofAbbreviation {name : Text} {properties : List Text}
      (expands : Abbreviation.expand? name = some properties) : ArePropertyNames properties
  | custom {name : Text} (isAscii : ∀ c ∈ name, isAsciiNameChar c = true) :
      ArePropertyNames ["--" ++ name]

theorem ArePropertyNames.unmarked {names : List Text} (areNames : ArePropertyNames names) :
    ∀ name ∈ names, Unmarked name := by
  cases areNames with
  | ofAbbreviation expands => exact Abbreviation.unmarked_of_expand? expands
  | custom isAscii =>
      intro name isName
      rw [List.mem_singleton] at isName
      rw [isName]
      simp only [Text.madeOf_append]
      exact ⟨by decide, unmarked_of_isAsciiNameChar isAscii⟩

/-- References to the local variables of a set. -/
def Reference.IsLocalOf (names : Names) : Reference → Prop
  | .localVariable name => name ∈ names.keys
  | _ => False

theorem Reference.IsLocalOf.exists_eq {names : Names} {reference : Reference}
    (isLocal : reference.IsLocalOf names) :
    ∃ name ∈ names.keys, reference = .localVariable name := by
  cases reference with
  | localVariable name => exact ⟨name, isLocal, rfl⟩
  | runtime name block => exact isLocal.elim
  | scope name => exact isLocal.elim

variable {ω : Type} [EmptyCollection ω] [Append ω]

/-- What declarations can contribute to the place where they stand. -/
inductive Contributes (environment : Environment) (target : Target ω) : ω → Prop where
  | nothing : Contributes environment target ∅
  | both {first second : ω} (ofFirst : Contributes environment target first)
      (ofSecond : Contributes environment target second) :
      Contributes environment target (first ++ second)
  /-- One value for some properties, and the local variables that it mentions. -/
  | properties {names : List Text} {value : Text} {important : Bool} {used : Names}
      (areNames : ArePropertyNames names)
      (mayBeImportant : important = true → environment.context.allowsImportance = true)
      (mayRefer : used ≠ ∅ → environment.context.allowsLocalReferences = true)
      (refers : Within (Reference.IsLocalOf used) value) :
      Contributes environment target
        (target.contribute
          { Body.ofProperties names (Value.withImportance important value) with usedLocals := used })
  /-- The default of a runtime variable, and the properties that refer to it. -/
  | runtime {name default : Text} {properties : List Text} {important : Bool}
      (mayDeclare : environment.context.allowsRuntime = true)
      (takesRuntime : target.takesRuntime = true)
      (expands : Abbreviation.expand? name = some properties) (unmarked : Unmarked default) :
      Contributes environment target
        (target.contribute
          { Body.ofProperties properties
              (Value.withImportance important (Reference.runtime name target.block).render) with
            defaults := .single name default })
  /-- A local variable, and the local variables that its value mentions. -/
  | localVariable {locals : LocalScope ω} {name value : Text} {used : Names}
      (mayDeclare : environment.context.allowsLocalDeclarations = true)
      (takesLocals : target.locals? = some locals)
      (isAscii : ∀ c ∈ name, isAsciiNameChar c = true)
      (mayRefer : used ≠ ∅ → environment.context.allowsLocalReferences = true)
      (refers : Within (Reference.IsLocalOf used) value) :
      Contributes environment target
        (target.contribute { usedLocals := used } ++ locals.declare name value)
  /-- A fragment of the theme. -/
  | fragment {group variant : Text} {fragment : Style} {important : Bool}
      (mayBeImportant : important = true → environment.context.allowsImportance = true)
      (isFragment : environment.theme.fragment? group variant = some fragment) :
      Contributes environment target (target.define fragment important)

namespace Environment

variable {environment : Environment} {target : Target ω} {statement : Text}
  {declaration : Declaration}

theorem resolveValue_of_plain {value : Text} (plain : Value.mentionsLocal value = false) :
    environment.resolveValue target statement value =
      if Reference.hasMarker value then .fail (Cause.reservedInStatement statement : Cause)
      else .done (Value.wrapVariables value) := by
  simp [resolveValue, Value.mentionsLocal_wrapVariables plain]

theorem not_refusesImportance (accepted : ¬environment.refusesImportance declaration = true) :
    declaration.important = true → environment.context.allowsImportance = true := by
  intro important
  simpa [refusesImportance, important] using accepted

theorem contributes_properties (lawful : target.Lawful) {names : List Text} {value : Text}
    {important : Bool} {used : Names} (areNames : ArePropertyNames names)
    (mayBeImportant : important = true → environment.context.allowsImportance = true)
    (mayRefer : used ≠ ∅ → environment.context.allowsLocalReferences = true)
    (refers : Within (Reference.IsLocalOf used) value) :
    Contributes environment target
      (target.contribute { usedLocals := used } ++
        (Draft.write (target.contribute
          (.ofProperties names (Value.withImportance important value)))).written) := by
  rw [Draft.write, lawful.contribute_ofProperties]
  exact .properties areNames mayBeImportant mayRefer refers

theorem contributes_useFragment
    (accepted : ¬environment.refusesImportance declaration = true) :
    Contributes environment target
      (environment.useFragment target statement declaration).written := by
  unfold useFragment
  split
  · split
    · exact .nothing
    · next isFragment => exact .fragment (not_refusesImportance accepted) isFragment
  · exact .nothing

variable [Additive ω]

/-- A value is refused before anything is written, or the local variables that it mentions are noted
and it refers to no others. -/
theorem resolveValue_cases (environment : Environment) (lawful : target.Lawful)
    (statement value : Text) :
    (∃ error, environment.resolveValue target statement value = .fail error) ∨
      ∃ used resolved,
        environment.resolveValue target statement value =
          ⟨target.contribute { usedLocals := used }, .ok resolved⟩ ∧
        Within (Reference.IsLocalOf used) resolved ∧
        (used ≠ ∅ → environment.context.allowsLocalReferences = true) ∧
        (resolved = Value.wrapVariables value ∨
          resolved = Value.referLocals (Value.wrapVariables value)) := by
  unfold resolveValue
  by_cases marked : Reference.hasMarker value = true
  · rw [if_pos marked]
    exact Or.inl ⟨_, rfl⟩
  · rw [if_neg marked]
    rw [Bool.not_eq_true, Reference.hasMarker_eq_false_iff] at marked
    have unmarked := Value.madeOf_wrapVariables (by decide) marked
    simp only
    split
    · right
      refine ⟨∅, Value.wrapVariables value, ?_, Within.of_unmarked unmarked, by simp,
        Or.inl rfl⟩
      rw [Draft.done, ← lawful.contribute_empty]
      rfl
    · split
      · exact Or.inl ⟨_, rfl⟩
      · next allowed =>
        right
        refine ⟨Names.ofList (Value.localNames (Value.wrapVariables value)),
          Value.referLocals (Value.wrapVariables value), ?_, ?_, ?_, Or.inr rfl⟩
        · rw [Draft.write, Draft.andThen_of_ok rfl]
          simp only [Draft.done, Additive.append_empty]
        · apply (Value.within_referLocals unmarked).mono
          rintro reference ⟨name, isMentioned, rfl⟩
          simpa [Reference.IsLocalOf, Names.ofList] using isMentioned
        · intro _
          simpa using allowed

theorem contributes_resolveValue (lawful : target.Lawful) {value : Text}
    {next : Text → Draft ω Unit}
    (ofNext : ∀ used resolved, Within (Reference.IsLocalOf used) resolved →
      (used ≠ ∅ → environment.context.allowsLocalReferences = true) →
      Contributes environment target
        (target.contribute { usedLocals := used } ++ (next resolved).written)) :
    Contributes environment target
      ((environment.resolveValue target statement value).andThen next).written := by
  rcases resolveValue_cases environment lawful statement value with
    ⟨error, refused⟩ | ⟨used, resolved, resolves, refers, mayRefer, _⟩
  · rw [refused]
    exact .nothing
  · rw [resolves, Draft.andThen_of_ok rfl]
    exact ofNext used resolved refers mayRefer

theorem contributes_custom (lawful : target.Lawful)
    (isAscii : ∀ c ∈ declaration.name, isAsciiNameChar c = true)
    (accepted : ¬environment.refusesImportance declaration = true) :
    Contributes environment target (environment.custom target statement declaration).written := by
  apply contributes_resolveValue lawful
  intro used resolved refers mayRefer
  exact contributes_properties lawful (.custom isAscii) (not_refusesImportance accepted) mayRefer
    refers

theorem contributes_setProperties (lawful : target.Lawful) {properties : List Text}
    (expands : Abbreviation.expand? declaration.name = some properties)
    (accepted : ¬environment.refusesImportance declaration = true) :
    Contributes environment target
      (environment.setProperties target statement declaration properties).written := by
  apply Draft.written_lift_andThen .nothing
  intro renamed _
  apply contributes_resolveValue lawful
  intro used resolved refers mayRefer
  apply contributes_properties lawful (.ofAbbreviation expands) (not_refusesImportance accepted)
    mayRefer
  split
  · exact Value.within_quoted refers
  · exact refers

theorem contributes_basic (lawful : target.Lawful)
    (isAscii : ∀ c ∈ declaration.name, isAsciiNameChar c = true)
    (accepted : ¬environment.refusesImportance declaration = true) :
    Contributes environment target (environment.basic target statement declaration).written := by
  unfold basic
  split
  · exact contributes_custom lawful isAscii accepted
  · split
    · next expands => exact contributes_setProperties lawful expands accepted
    · split
      · exact contributes_useFragment accepted
      · exact .nothing

theorem contributes_presetToken (lawful : target.Lawful) (key token : Text) (important : Bool) :
    Contributes environment target
      (environment.presetToken target key important token).written := by
  apply Draft.written_lift_andThen .nothing
  intro declaration parsed
  split
  · exact .nothing
  · simp only
    split
    · exact .nothing
    · next accepted =>
      have isAscii : ∀ c ∈ declaration.name, isAsciiNameChar c = true :=
        Declaration.isAscii_of_parse parsed
      exact contributes_basic lawful isAscii accepted

theorem contributes_usePreset (lawful : target.Lawful) :
    Contributes environment target (environment.usePreset target statement
      declaration).written := by
  unfold usePreset
  simp only
  split
  · exact .nothing
  · apply Draft.written_lift_andThen .nothing
    intro tokens _
    apply Draft.written_forEach .nothing (fun _ _ => .both)
    intro token _
    exact contributes_presetToken lawful _ token _

theorem contributes_declareLocal (lawful : target.Lawful)
    (isAscii : ∀ c ∈ declaration.name, isAsciiNameChar c = true) :
    Contributes environment target
      (environment.declareLocal target statement declaration).written := by
  unfold declareLocal
  split
  · exact .nothing
  · next mayDeclare =>
    split
    · exact .nothing
    · next locals takesLocals =>
      split
      · exact .nothing
      · split
        · exact .nothing
        · split
          · exact .nothing
          · apply contributes_resolveValue lawful
            intro used resolved refers mayRefer
            exact .localVariable (by simpa using mayDeclare) takesLocals isAscii mayRefer refers

/-- A runtime declaration is refused before anything is written, or it writes references and a
default. -/
theorem declareRuntime_cases (environment : Environment) (target : Target ω) (statement : Text)
    (declaration : Declaration) :
    (∃ error, environment.declareRuntime target statement declaration = .fail error) ∨
      ∃ properties, environment.context.allowsRuntime = true ∧ target.takesRuntime = true ∧
        declaration.name ≠ "ty" ∧ Abbreviation.expand? declaration.name = some properties ∧
        Unmarked declaration.value ∧ Value.mentionsLocal declaration.value = false ∧
        environment.declareRuntime target statement declaration = .write (target.contribute
          { Body.ofProperties properties (Value.withImportance declaration.important
              (Reference.runtime declaration.name target.block).render) with
            defaults := .single declaration.name (Value.wrapVariables declaration.value) }) := by
  unfold declareRuntime
  simp only
  split
  · exact Or.inl ⟨_, rfl⟩
  · next mayDeclare =>
    split
    · exact Or.inl ⟨_, rfl⟩
    · next takesRuntime =>
      split
      · exact Or.inl ⟨_, rfl⟩
      · next notPreset =>
        split
        · exact Or.inl ⟨_, rfl⟩
        · next plain =>
          split
          · exact Or.inl ⟨_, rfl⟩
          · next properties expands =>
            rw [Bool.not_eq_true] at plain
            rw [resolveValue_of_plain plain]
            split
            · exact Or.inl ⟨_, rfl⟩
            · next unmarked =>
              rw [Bool.not_eq_true, Reference.hasMarker_eq_false_iff] at unmarked
              refine Or.inr ⟨properties, by simpa using mayDeclare, by simpa using takesRuntime,
                notPreset, expands, unmarked, plain, ?_⟩
              rw [Draft.done, Draft.andThen_of_ok rfl]
              simp only [Draft.write, Additive.empty_append]

theorem contributes_declareRuntime :
    Contributes environment target
      (environment.declareRuntime target statement declaration).written := by
  rcases declareRuntime_cases environment target statement declaration with
    ⟨error, refused⟩ | ⟨properties, mayDeclare, takesRuntime, _, expands, unmarked, _, accepted⟩
  · rw [refused]
    exact .nothing
  · rw [accepted]
    exact .runtime mayDeclare takesRuntime expands (Value.madeOf_wrapVariables (by decide) unmarked)

/-- A declaration contributes nothing but what is listed, also if it fails. -/
theorem contributes_declare (lawful : target.Lawful)
    (isAscii : ∀ c ∈ declaration.name, isAsciiNameChar c = true) :
    Contributes environment target (environment.declare target statement declaration).written := by
  unfold declare
  split
  · exact .nothing
  · next accepted =>
    split
    · exact contributes_declareLocal lawful isAscii
    · exact contributes_declareRuntime
    · exact contributes_basic lawful isAscii accepted
    · split
      · exact contributes_usePreset lawful
      · exact contributes_basic lawful isAscii accepted

end Environment

/-! ## Statements -/

/-- What a statement can contribute to a style. -/
inductive Contribution (environment : Environment) (statement : Text) : Style → Prop where
  | flat (isDeclared : Text → Bool) {contribution : Style}
      (contributes : Contributes environment (.topLevel isDeclared) contribution) :
      Contribution environment statement contribution
  | slotted {head : Text} {slot : Slot} {body : Body} (isSlot : Slot.ofHead? head = some slot)
      (contributes : Contributes environment slot.target body) :
      Contribution environment statement (slot.place body)
  /-- A block under a condition that could not be read to its end. -/
  | mentioned {kind : Condition} {body : Body}
      (contributes : Contributes environment kind.target body) :
      Contribution environment statement { usedLocals := body.usedLocals }
  | conditional {kind : Condition} {written query : Text} {body : Body}
      (contributes : Contributes environment kind.target body)
      (fromStatement : ∀ c ∈ written, c ∈ statement)
      (isQuery : environment.conditionQuery kind statement written = .ok query) :
      Contribution environment statement
        ({ usedLocals := body.usedLocals } ++ kind.place query body.properties)

theorem Contribution.nothing {environment : Environment} {statement : Text} :
    Contribution environment statement ∅ :=
  .flat (fun _ => false) .nothing

namespace Environment

variable {environment : Environment} {statement : Text}

theorem contributes_blockBody {target : Target Body} (lawful : target.Lawful) (inside : Text) :
    Contributes environment target (environment.blockBody target inside).written := by
  apply Draft.written_lift_andThen .nothing
  intro tokens _
  apply Draft.written_forEach .nothing (fun _ _ => .both)
  intro token _
  unfold blockToken
  split
  · exact .nothing
  · apply Draft.written_lift_andThen .nothing
    intro declaration parsed
    exact contributes_declare lawful (Declaration.isAscii_of_parse parsed)

theorem contributes_flat (isDeclared : Text → Bool) (statement : Text) :
    Contributes environment (.topLevel isDeclared)
      (environment.flat isDeclared statement).written := by
  apply Draft.written_lift_andThen .nothing
  intro declaration parsed
  exact contributes_declare (Target.lawful_topLevel isDeclared)
    (Declaration.isAscii_of_parse parsed)

theorem contribution_flat (isDeclared : Text → Bool) (other : Text) :
    Contribution environment statement (environment.flat isDeclared other).written :=
  .flat isDeclared (contributes_flat isDeclared other)

theorem contribution_slotted {head : Text} {slot : Slot} (isSlot : Slot.ofHead? head = some slot)
    (inside : Text) : Contribution environment statement
      (environment.slotted slot inside).written :=
  .slotted isSlot (contributes_blockBody slot.lawful_target inside)

theorem contribution_conditional {inside : Text} (fromStatement : ∀ c ∈ inside, c ∈ statement)
    (kind : Condition) :
    Contribution environment statement (environment.conditional kind statement inside).written := by
  apply Draft.written_lift_andThen .nothing
  rintro (_ | ⟨written, body⟩) splits
  · exact .nothing
  · apply Draft.written_lift_andThen .nothing
    intro query isQuery
    have contributes : Contributes environment kind.target
        (environment.blockBody kind.target body).written :=
      contributes_blockBody kind.lawful_target body
    simp only
    split
    · exact .mentioned contributes
    · refine .conditional contributes ?_ isQuery
      intro c isChar
      exact fromStatement c (mem_of_mem_splitTopLevel splits (Or.inl isChar))

theorem mem_of_blockParts? {head inside : Text}
    (parts : blockParts? statement = some (head, inside)) :
    ∀ c ∈ inside, c ∈ statement := by
  unfold blockParts? at parts
  split at parts
  · simp at parts
  · split at parts
    · next first name rest splits =>
      simp only [Option.some.injEq, Prod.mk.injEq] at parts
      rw [Text.splitAtChar?_eq_some splits, ← parts.2]
      intro c isChar
      simp [List.mem_of_mem_dropLast isChar]
    · simp at parts

/-- A statement contributes nothing but what is listed, also if it fails. -/
theorem contribution_of_statement (isDeclared : Text → Bool) :
    Contribution environment (Text.trim statement)
      (environment.contribution isDeclared statement).written := by
  unfold contribution
  split
  · exact .nothing
  · exact .nothing
  · split
    · exact contribution_flat isDeclared _
    · next parts =>
      split
      · exact .nothing
      · unfold block?
        split
        · next isSlot => exact contribution_slotted isSlot _
        · cases Condition.ofHead? _ with
          | none => exact contribution_flat isDeclared _
          | some kind => exact contribution_conditional (mem_of_blockParts? parts) kind

end Environment

namespace Style

variable {environment : Environment} {style : Style} {statement : Text}

theorem dispatchAll_cons
    (succeeded : (environment.contribution style.localVariables.contains statement).result = .ok ())
    (found : List Text) :
    style.dispatchAll environment (statement :: found) =
      (style ++ (environment.contribution style.localVariables.contains statement).written).dispatchAll
        environment found := by
  rw [dispatchAll, Attempt.forEach, Attempt.andThen, dispatch, Draft.failure?, succeeded]

theorem result_of_dispatchAll_cons {found : List Text}
    (succeeded : (style.dispatchAll environment (statement :: found)).failure = none) :
    (environment.contribution style.localVariables.contains statement).result = .ok () := by
  rw [dispatchAll, Attempt.forEach, Attempt.andThen] at succeeded
  split at succeeded
  · next failed => simp [failed] at succeeded
  · next ended => exact Draft.failure?_eq_none.mp ended

end Style

/-- What holds of a style, and still holds after every contribution of some statements, holds after
the statements, however far they were read. -/
theorem Style.dispatchAll_induction {environment : Environment} (Good : Style → Prop)
    {statements : List Text}
    (step : ∀ style contribution statement, statement ∈ statements → Good style →
      Contribution environment (Text.trim statement) contribution → Good (style ++ contribution))
    {style : Style} (initial : Good style) :
    Good (style.dispatchAll environment statements).state := by
  apply Attempt.state_forEach _ initial
  intro statement isStatement style good
  exact step _ _ statement isStatement good (Environment.contribution_of_statement _)

/-- The same for the statements of a body, whose characters are those of the body and the space. -/
theorem Style.dispatchBody_induction {environment : Environment} (Good : Style → Prop) {body : Text}
    (step : ∀ style contribution statement, (∀ c ∈ statement, c ∈ body ∨ c = .char ' ') →
      Good style → Contribution environment (Text.trim statement) contribution →
      Good (style ++ contribution))
    {style : Style} (initial : Good style) : Good (style.dispatchBody environment body).state := by
  unfold dispatchBody
  split
  · exact initial
  · next found scanned =>
    apply dispatchAll_induction Good _ initial
    intro style contribution statement isStatement
    exact step style contribution statement fun c => mem_of_mem_statements scanned isStatement

end TerseStyle

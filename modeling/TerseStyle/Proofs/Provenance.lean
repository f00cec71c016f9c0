import TerseStyle.Proofs.Declared

/-!
# Where properties come from

A statement leads to declarations: to itself or those inside its block, from there to the
declarations of the typography presets they use, and to those of the fragments they take from the
theme. `LeadsTo` lists them, each with the environment in which it is applied. Where neither
importance nor variables are allowed, every property of a style was written by a declaration that
its statements lead to, and hence by one without an importance mark, whatever the path to it was.
-/

namespace TerseStyle

/-! ## Declarations that write into their place -/

/-- One draft writes what the other writes, embedded into a larger contribution. -/
def Draft.Embeds {ω α : Type} (embed : Body → ω) (small : Draft Body α) (large : Draft ω α) :
    Prop :=
  large = ⟨embed small.written, small.result⟩

namespace Draft.Embeds

variable {ω α β : Type} [EmptyCollection ω] [Append ω] {target : Target ω}

theorem fail (lawful : target.Lawful) (error : Error) :
    Embeds target.contribute (.fail error : Draft Body α) (.fail error) := by
  simp only [Embeds, Draft.fail, lawful.contribute_empty]

theorem done (lawful : target.Lawful) (a : α) :
    Embeds target.contribute (.done a) (.done a) := by
  simp only [Embeds, Draft.done, lawful.contribute_empty]

theorem lift (lawful : target.Lawful) (result : Except Error α) :
    Embeds target.contribute (.lift result) (.lift result) := by
  cases result with
  | error error => exact fail lawful error
  | ok a => exact done lawful a

theorem andThen (lawful : target.Lawful) {small : Draft Body α} {large : Draft ω α}
    {smallNext : α → Draft Body β} {largeNext : α → Draft ω β}
    (first : Embeds target.contribute small large)
    (next : ∀ a, Embeds target.contribute (smallNext a) (largeNext a)) :
    Embeds target.contribute (small.andThen smallNext) (large.andThen largeNext) := by
  rw [Embeds] at first ⊢
  rw [first]
  cases ended : small.result with
  | error error =>
      rw [Draft.andThen_of_error ended, Draft.andThen_of_error rfl]
  | ok a =>
      rw [Draft.andThen_of_ok ended, Draft.andThen_of_ok rfl, next a]
      simp only [lawful.contribute_append]

end Draft.Embeds

namespace Target

variable {ω : Type} (target : Target ω)

/-- The place as if it were a block of its own. -/
def alone : Target Body :=
  .insideBlock target.label target.block target.isElement target.takesRuntime

end Target

namespace Environment

variable {ω : Type} [EmptyCollection ω] [Append ω] {environment : Environment} {target : Target ω}
  {statement : Text} {declaration : Declaration}

theorem embeds_resolveValue (lawful : target.Lawful) (value : Text) :
    (environment.resolveValue target.alone statement value).Embeds target.contribute
      (environment.resolveValue target statement value) := by
  unfold resolveValue
  split
  · exact .fail lawful _
  · simp only
    split
    · exact .done lawful _
    · split
      · exact .fail lawful _
      · exact .andThen lawful rfl fun _ => .done lawful _

theorem embeds_custom (lawful : target.Lawful) :
    (environment.custom target.alone statement declaration).Embeds target.contribute
      (environment.custom target statement declaration) :=
  .andThen lawful (embeds_resolveValue lawful _) fun _ => rfl

theorem embeds_setProperties (lawful : target.Lawful) (properties : List Text) :
    (environment.setProperties target.alone statement declaration properties).Embeds
      target.contribute (environment.setProperties target statement declaration properties) := by
  apply Draft.Embeds.andThen lawful (.lift lawful _)
  intro renamed
  exact .andThen lawful (embeds_resolveValue lawful _) fun _ => rfl

end Environment

/-- A declaration that writes into its place by itself: a custom property or an abbreviation, but no
typography preset and no fragment of the theme. -/
def Declaration.IsDirect (declaration : Declaration) : Prop :=
  declaration.sigil = .custom ∨
    declaration.name ≠ "ty" ∧ (Abbreviation.expand? declaration.name).isSome

/-- Applying a declaration, in some place, sets a property of that place to a value. -/
def Environment.Writes (environment : Environment) (declaration : Declaration)
    (name value : Text) : Prop :=
  declaration.IsDirect ∧ ∃ label block isElement takesRuntime statement,
    (name, value) ∈ (environment.declare (.insideBlock label block isElement takesRuntime)
      statement declaration).written.properties.entries

/-! ## The declarations that a statement leads to -/

/-- The tokens of a statement: the statement itself, and what stands inside its block. -/
inductive IsToken : Text → Text → Prop where
  | whole (statement : Text) : IsToken statement (Text.trim statement)
  | inside {statement head inside token : Text} {tokens : List Text}
      (parts : blockParts? (Text.trim statement) = some (head, inside))
      (splits : statements inside = .ok tokens) (isToken : token ∈ tokens) : IsToken statement token
  | underCondition {statement head inside condition body token : Text} {tokens : List Text}
      (parts : blockParts? (Text.trim statement) = some (head, inside))
      (separates : splitTopLevel (· == CodePoint.char ',') inside = .ok (some (condition, body)))
      (splits : statements body = .ok tokens) (isToken : token ∈ tokens) : IsToken statement token

/-- The declarations that a statement leads to under a theme of texts, each with the environment in
which it is applied. -/
inductive LeadsTo (texts : Theme.Texts) :
    Environment → Text → Environment → Declaration → Prop where
  | written {environment : Environment} {statement token : Text} {declaration : Declaration}
      (isToken : IsToken statement token) (parsed : Declaration.parse token = .ok declaration) :
      LeadsTo texts environment statement environment declaration
  /-- A declaration of a preset is important if the preset is used as important. -/
  | preset {environment inner : Environment} {statement token : Text}
      {declaration part : Declaration} {preset : JsonValue} {tokens : List Text}
      (leads : LeadsTo texts environment statement inner declaration)
      (isPreset : declaration.sigil = .plain ∧ declaration.name = "ty")
      (found : inner.theme.typography.value? (Text.trim declaration.value) = some preset)
      (splits : Preset.statements preset = .ok tokens) (isToken : token ∈ tokens)
      (parsed : Declaration.parse token = .ok part) :
      LeadsTo texts environment statement inner
        { part with important := declaration.important || part.important }
  | fragment {environment inner last : Environment} {statement variant text later : Text}
      {declaration deep : Declaration} {fragments : List (Text × Text)} {found : List Text}
      (leads : LeadsTo texts environment statement inner declaration)
      (isVariant : Text.words declaration.value = [variant])
      (isGroup : (declaration.name, fragments) ∈ texts.defines)
      (isFragment : (variant, text) ∈ fragments) (splits : statements text = .ok found)
      (isStatement : later ∈ found)
      (leadsOn : LeadsTo texts { context := .theme, theme := texts.tables } later last deep) :
      LeadsTo texts environment statement last deep

theorem LeadsTo.context {texts : Theme.Texts} {environment last : Environment} {statement : Text}
    {declaration : Declaration} (leads : LeadsTo texts environment statement last declaration) :
    last.context = environment.context ∨ last.context = .theme := by
  induction leads with
  | written => exact Or.inl rfl
  | preset _ _ _ _ _ _ ih => exact ih
  | fragment _ _ _ _ _ _ _ _ ofFragment => exact Or.inr (ofFragment.elim id id)

/-! ## Every property was written -/

/-- Every property of the body is allowed. -/
def Body.SetsOnly (allowed : Text → Text → Prop) (body : Body) : Prop :=
  ∀ entry ∈ body.properties.entries, allowed entry.1 entry.2

/-- Every property of the style, in every place, is allowed. -/
def Style.SetsOnly (allowed : Text → Text → Prop) (style : Style) : Prop :=
  ∀ name value, style.Sets name value → allowed name value

namespace Style.SetsOnly

variable {allowed : Text → Text → Prop}

theorem empty : (∅ : Style).SetsOnly allowed := by
  intro name value sets
  cases sets <;> simp_all

theorem append {left right : Style} (ofLeft : left.SetsOnly allowed)
    (ofRight : right.SetsOnly allowed) : (left ++ right).SetsOnly allowed := by
  intro name value sets
  exact (sets_append sets).elim (ofLeft name value) (ofRight name value)

theorem mono {wider : Text → Text → Prop} {style : Style} (setsOnly : style.SetsOnly allowed)
    (wide : ∀ name value, allowed name value → wider name value) : style.SetsOnly wider := by
  intro name value sets
  exact wide name value (setsOnly name value sets)

end Style.SetsOnly

/-- A property of contributions to a place that holds as soon as every property that goes into the
place is allowed. -/
structure Target.Collects {ω : Type} [EmptyCollection ω] [Append ω] (target : Target ω)
    (Good : ω → Prop) (allowed : Text → Text → Prop) : Prop where
  lawful : target.Lawful
  empty : Good ∅
  append : ∀ left right, Good left → Good right → Good (left ++ right)
  contribute : ∀ body, Body.SetsOnly allowed body → Good (target.contribute body)
  define : ∀ fragment, Style.SetsOnly allowed fragment → Good (target.define fragment false)

theorem Target.collects_insideBlock (label block : Text) (isElement takesRuntime : Bool)
    (allowed : Text → Text → Prop) :
    (insideBlock label block isElement takesRuntime).Collects (Body.SetsOnly allowed) allowed where
  lawful := lawful_insideBlock label block isElement takesRuntime
  empty := by simp [Body.SetsOnly]
  append := by
    intro left right ofLeft ofRight entry isEntry
    exact (OrderedMap.mem_entries_merge isEntry).elim (ofLeft entry) (ofRight entry)
  contribute := fun _ ofBody => ofBody
  define := by
    intro fragment ofFragment entry isEntry
    obtain ⟨own, isOwn, rfl⟩ := List.mem_map.mp isEntry
    exact ofFragment _ _ (.base isOwn)

theorem Target.collects_topLevel (isDeclared : Text → Bool) (allowed : Text → Text → Prop) :
    (topLevel isDeclared).Collects (Style.SetsOnly allowed) allowed where
  lawful := lawful_topLevel isDeclared
  empty := .empty
  append := fun _ _ => .append
  contribute := by
    intro body ofBody name value sets
    exact ofBody _ (Style.sets_ofBody sets)
  define := by
    intro fragment ofFragment name value sets
    exact ofFragment name value (sets.of_places rfl rfl rfl rfl rfl rfl rfl)

/-- A declaration that the statement leads to writes the property. -/
def Environment.Traces (texts : Theme.Texts) (environment : Environment) (statement : Text)
    (name value : Text) : Prop :=
  ∃ last declaration, LeadsTo texts environment statement last declaration ∧
    last.Writes declaration name value

/-- The fragments of a theme set only what the declarations of their texts write. -/
def Theme.Traced (texts : Theme.Texts) (theme : Theme) : Prop :=
  ∀ {group variant fragment}, theme.fragment? group variant = some fragment →
    ∃ fragments, (group, fragments) ∈ texts.defines ∧ ∃ text, (variant, text) ∈ fragments ∧
      ∃ found, statements text = .ok found ∧ fragment.SetsOnly fun name value =>
        ∃ later ∈ found,
          Environment.Traces texts { context := .theme, theme := texts.tables } later name value

/-- No mark and no variable is allowed: so it is in constants and in fragments of the theme. -/
structure Context.IsBare (context : Context) : Prop where
  noImportance : context.allowsImportance = false
  noRuntime : context.allowsRuntime = false
  noLocals : context.allowsLocalDeclarations = false

namespace Environment

variable {texts : Theme.Texts} {environment : Environment} {statement token : Text}
  {declaration : Declaration} {ω : Type} [EmptyCollection ω] [Append ω] {target : Target ω}
  {Good : ω → Prop}

theorem declare_of_direct (accepted : ¬environment.refusesImportance declaration = true)
    (isPlain : declaration.sigil = .custom ∨ declaration.sigil = .plain)
    (notPreset : declaration.sigil = .custom ∨ declaration.name ≠ "ty") :
    environment.declare target token declaration = environment.basic target token declaration := by
  rw [declare, if_neg accepted]
  rcases isPlain with isCustom | isPlain
  · rw [isCustom]
  · rw [isPlain]
    rcases notPreset with isCustom | notPreset
    · simp [isCustom] at isPlain
    · exact if_neg notPreset

theorem good_basic (collects : target.Collects Good (Traces texts environment statement))
    (traced : environment.theme.Traced texts) (bare : environment.context.IsBare)
    (accepted : ¬environment.refusesImportance declaration = true)
    (isPlain : declaration.sigil = .custom ∨ declaration.sigil = .plain)
    (notPreset : declaration.sigil = .custom ∨ declaration.name ≠ "ty")
    (leads : LeadsTo texts environment statement environment declaration) :
    Good (environment.basic target token declaration).written := by
  -- What goes into the place directly is what the declaration writes in a block of its own.
  have written : ∀ direct : declaration.IsDirect,
      (environment.basic target.alone token declaration).Embeds target.contribute
        (environment.basic target token declaration) →
      Good (environment.basic target token declaration).written := by
    intro direct embeds
    rw [embeds]
    apply collects.contribute
    intro entry isEntry
    refine ⟨environment, declaration, leads, direct, target.label, target.block, target.isElement,
      target.takesRuntime, token, ?_⟩
    rw [declare_of_direct accepted isPlain notPreset]
    exact isEntry
  by_cases isCustom : declaration.sigil = .custom
  · apply written (Or.inl isCustom)
    simp only [basic, isCustom, if_true]
    exact embeds_custom collects.lawful
  · have notPreset := notPreset.resolve_left isCustom
    cases expands : Abbreviation.expand? declaration.name with
    | some properties =>
        apply written (Or.inr ⟨notPreset, by simp [expands]⟩)
        simp only [basic, isCustom, if_false, expands]
        exact embeds_setProperties collects.lawful properties
    | none =>
        simp only [basic, isCustom, if_false, expands]
        split
        · unfold useFragment
          split
          · next variant isVariant =>
            split
            · exact collects.empty
            · next fragment isFragment =>
              have unmarked : declaration.important = false := by
                simpa [refusesImportance, bare.noImportance] using accepted
              rw [Draft.write, unmarked]
              apply collects.define
              intro name value sets
              obtain ⟨fragments, isGroup, text, isText, found, splits, ofFragment⟩ :=
                traced isFragment
              obtain ⟨later, isLater, last, deep, leadsOn, writes⟩ := ofFragment name value sets
              exact ⟨last, deep, .fragment leads isVariant isGroup isText splits isLater leadsOn,
                writes⟩
          · exact collects.empty
        · exact collects.empty

theorem good_usePreset [Additive ω]
    (collects : target.Collects Good (Traces texts environment statement))
    (traced : environment.theme.Traced texts) (bare : environment.context.IsBare)
    (isPreset : declaration.sigil = .plain ∧ declaration.name = "ty")
    (leads : LeadsTo texts environment statement environment declaration) :
    Good (environment.usePreset target token declaration).written := by
  unfold usePreset
  simp only
  split
  · exact collects.empty
  · next preset found =>
    apply Draft.written_lift_andThen collects.empty
    intro tokens splits
    apply Draft.written_forEach collects.empty collects.append
    intro part isPart
    unfold presetToken
    apply Draft.written_lift_andThen collects.empty
    intro inner parsed
    split
    · exact collects.empty
    · next supported =>
      simp only [not_or] at supported
      simp only
      split
      · exact collects.empty
      · next accepted =>
        apply good_basic collects traced bare accepted
        · cases sigil : inner.sigil <;> simp_all
        · exact Or.inr supported.1
        · exact .preset leads isPreset found splits isPart parsed

/-- Where neither importance nor variables are allowed, whatever a declaration contributes was
written by a declaration that the statement leads to. -/
theorem good_declare [Additive ω]
    (collects : target.Collects Good (Traces texts environment statement))
    (traced : environment.theme.Traced texts) (bare : environment.context.IsBare)
    (leads : LeadsTo texts environment statement environment declaration) :
    Good (environment.declare target token declaration).written := by
  unfold declare
  split
  · exact collects.empty
  · next accepted =>
    split
    · simp only [declareLocal, bare.noLocals, Bool.not_false, if_true]
      exact collects.empty
    · simp only [declareRuntime, bare.noRuntime, Bool.not_false, if_true]
      exact collects.empty
    · next isCustom =>
      exact good_basic collects traced bare accepted (Or.inl isCustom) (Or.inl isCustom)
        leads
    · next isPlain =>
      split
      · next isPreset =>
        exact good_usePreset collects traced bare ⟨isPlain, isPreset⟩ leads
      · next notPreset =>
        exact good_basic collects traced bare accepted (Or.inr isPlain)
          (Or.inr notPreset) leads

end Environment

namespace Environment

variable {texts : Theme.Texts} {environment : Environment} {statement : Text}

theorem traces_blockBody {target : Target Body}
    (collects : target.Collects (Body.SetsOnly (Traces texts environment statement))
      (Traces texts environment statement))
    (traced : environment.theme.Traced texts) (bare : environment.context.IsBare) {inside : Text}
    (areTokens : ∀ tokens, statements inside = .ok tokens → ∀ token ∈ tokens,
      IsToken statement token) :
    (environment.blockBody target inside).written.SetsOnly
      (Traces texts environment statement) := by
  apply Draft.written_lift_andThen collects.empty
  intro tokens splits
  apply Draft.written_forEach collects.empty collects.append
  intro token isToken
  unfold blockToken
  split
  · exact collects.empty
  · apply Draft.written_lift_andThen collects.empty
    intro declaration parsed
    exact good_declare collects traced bare
      (.written (areTokens tokens splits token isToken) parsed)

theorem traces_flat (traced : environment.theme.Traced texts) (bare : environment.context.IsBare)
    (isDeclared : Text → Bool) :
    (environment.flat isDeclared (Text.trim statement)).written.SetsOnly
      (Traces texts environment statement) := by
  apply Draft.written_lift_andThen .empty
  intro declaration parsed
  exact good_declare (Target.collects_topLevel isDeclared _) traced bare
    (.written (.whole statement) parsed)

theorem traces_conditional (traced : environment.theme.Traced texts)
    (bare : environment.context.IsBare) {head inside : Text}
    (parts : blockParts? (Text.trim statement) = some (head, inside)) (kind : Condition) :
    (environment.conditional kind (Text.trim statement) inside).written.SetsOnly
      (Traces texts environment statement) := by
  apply Draft.written_lift_andThen .empty
  rintro (_ | ⟨condition, body⟩) separates
  · exact .empty
  · apply Draft.written_lift_andThen .empty
    intro query _
    simp only
    split
    · intro name value sets
      cases sets <;> simp_all
    · intro name value sets
      have isEntry : (name, value) ∈
          (environment.blockBody kind.target body).written.properties.entries := by
        cases kind <;> cases sets <;> simp_all [Condition.place]
      refine traces_blockBody (Target.collects_insideBlock _ _ _ _ _) traced bare ?_ _ isEntry
      intro tokens splits token isToken
      exact .underCondition parts separates splits isToken

/-- Whatever a statement sets, a declaration that it leads to has written. -/
theorem traces_contribution (traced : environment.theme.Traced texts)
    (bare : environment.context.IsBare) (isDeclared : Text → Bool) :
    (environment.contribution isDeclared statement).written.SetsOnly
      (Traces texts environment statement) := by
  unfold contribution
  split
  · exact .empty
  · exact .empty
  · split
    · exact traces_flat traced bare isDeclared
    · next head inside parts =>
      split
      · exact .empty
      · unfold block?
        split
        · next slot _ =>
          intro name value sets
          refine traces_blockBody ?_ traced bare ?_ _ (Slot.sets_place sets)
          · cases slot <;> exact Target.collects_insideBlock _ _ _ _ _
          · intro tokens splits token isToken
            exact .inside parts splits isToken
        · cases Condition.ofHead? head with
          | none => exact traces_flat traced bare isDeclared
          | some kind => exact traces_conditional traced bare parts kind

end Environment

theorem Style.traces_dispatchAll {texts : Theme.Texts} {environment : Environment}
    (traced : environment.theme.Traced texts) (bare : environment.context.IsBare)
    {statements : List Text} {style : Style} {allowed : Text → Text → Prop}
    (setsOnly : style.SetsOnly allowed)
    (wide : ∀ statement ∈ statements, ∀ name value,
      Environment.Traces texts environment statement name value → allowed name value) :
    (style.dispatchAll environment statements).state.SetsOnly allowed := by
  apply Attempt.state_forEach _ setsOnly
  intro statement isStatement style setsOnly
  exact setsOnly.append ((Environment.traces_contribution traced bare _).mono
    (wide statement isStatement))

theorem Theme.traced_tables (texts : Theme.Texts) : texts.tables.Traced texts := by
  intro group variant fragment isFragment
  simp [fragment?, Texts.tables] at isFragment

/-- The fragments of a theme of texts are traced to the texts. -/
theorem Theme.traced_of_ofTexts {texts : Theme.Texts} {theme : Theme}
    (built : Theme.ofTexts texts = .ok theme) : theme.Traced texts := by
  intro group variant fragment isFragment
  obtain ⟨fragments, isGroup, text, isText, compiles⟩ := exists_text_of_fragment? built isFragment
  refine ⟨fragments, isGroup, text, isText, ?_⟩
  rw [Fragment.compileText, Attempt.toExcept_eq_ok, Style.dispatchBody] at compiles
  split at compiles
  · simp at compiles
  · next found splits =>
    refine ⟨found, splits, ?_⟩
    have isState : fragment = (Style.dispatchAll
        { context := .theme, theme := texts.tables } found ∅).state := by
      rw [show texts.tables = { texts.tables with defines := ∅ } from rfl, compiles]
    rw [isState]
    refine Style.traces_dispatchAll (traced_tables texts) ⟨rfl, rfl, rfl⟩ .empty ?_
    intro later isLater name value traces
    exact ⟨later, isLater, traces⟩

end TerseStyle

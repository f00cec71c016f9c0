import TerseStyle.Proofs.Sigil
import TerseStyle.Proofs.Statement

/-!
# Bodies without the sigils of runtime variables

`withoutSigils` takes the sigils out of a flat declaration or a block: every runtime declaration
becomes its plain counterpart. If some statements are accepted, then the statements without sigils
are accepted exactly if all plain counterparts are, and their style mirrors that of the statements
(`Mirrors.dispatchAll`).
-/

namespace TerseStyle

open Reference (Unmarked Within rewrite)

/-! ## Drafts of plain counterparts -/

/-- The second draft is accepted exactly if the plain counterparts of some declarations are, and
then it mirrors the first. -/
structure Draft.Twins {ω : Type} (environment : Environment) (put : ω → Style)
    (declarations : List RuntimeDeclaration) (draft plain : Draft ω Unit) : Prop where
  allowed : ∀ runtime ∈ declarations, runtime.Allowed
  accepted : plain.result = .ok () ↔
    ∀ runtime ∈ declarations, (environment.plainValue? runtime).isSome = true
  mirrors : plain.result = .ok () →
    Mirrors environment declarations (put draft.written) (put plain.written)

namespace Environment

section Declarations

variable {ω : Type} [EmptyCollection ω] [Append ω] {environment : Environment} {target : Target ω}
  {put : ω → Style} {place : Place} {statement : Text} {declaration : Declaration}

theorem twins_declare_runtime [Additive ω] (isRule : environment.context = .rule)
    (lawful : target.Lawful) (puts : PutsAt place fun body => put (target.contribute body))
    (sameBlock : target.block = place.block) (sameElement : target.isElement = place.isElement)
    (isRuntime : declaration.sigil = .runtime)
    (succeeded : (environment.declare target statement declaration).result = .ok ())
    (other : Text) :
    Draft.Twins environment put [{ place, declaration }]
      (environment.declare target statement declaration)
      (environment.declare target other { declaration with sigil := .plain }) := by
  have accepted : environment.refusesImportance declaration = false := by
    rw [← Bool.not_eq_true]
    intro refused
    rw [declare, if_pos refused] at succeeded
    simp [Draft.fail] at succeeded
  have isDeclared : environment.declare target statement declaration =
      environment.declareRuntime target statement declaration := by
    simp [declare, accepted, isRuntime]
  rw [isDeclared] at succeeded ⊢
  rcases declareRuntime_cases environment target statement declaration with
    ⟨error, refused⟩ | ⟨properties, _, _, notPreset, expands, unmarked, noLocal, writes⟩
  · rw [refused] at succeeded
    simp [Draft.fail] at succeeded
  · have allowed : ∀ runtime ∈ [({ place, declaration } : RuntimeDeclaration)],
        runtime.Allowed := by
      rw [List.forall_mem_singleton]
      exact ⟨unmarked, noLocal⟩
    rw [declare_plain accepted notPreset expands, writes, sameBlock]
    cases value : environment.plainValue? { place, declaration } with
    | none =>
        have refused : (environment.setProperties target other
            { declaration with sigil := .plain } properties).result ≠ .ok () :=
          setProperties_of_none value properties
        refine ⟨allowed, ⟨fun ended => absurd ended refused, ?_⟩, fun ended => absurd ended refused⟩
        intro allWrite
        simp [value] at allWrite
    | some written =>
        have plainWrites : environment.setProperties target other
            { declaration with sigil := .plain } properties =
              .write (target.contribute
                (RuntimeDeclaration.plainBody { place, declaration } properties written.1
                  written.2)) :=
          setProperties_of_some isRule lawful sameElement value properties
        rw [plainWrites]
        refine ⟨allowed, ⟨fun _ => by simp [value], fun _ => rfl⟩, fun _ => ?_⟩
        exact puts.mirrors_body expands value

theorem declare_of_noRuntime (notRuntime : declaration.sigil ≠ .runtime) :
    environment.declare { target with takesRuntime := false } statement declaration =
      environment.declare target statement declaration := by
  unfold declare
  cases isSigil : declaration.sigil with
  | runtime => exact absurd isSigil notRuntime
  | plain => rfl
  | localVariable => rfl
  | custom => rfl

end Declarations

end Environment

variable {environment : Environment} {style : Style} {head statement : Text}

theorem Mirrors.twins {ω : Type} {put : ω → Style} {draft : Draft ω Unit}
    (mirrors : Mirrors environment [] (put draft.written) (put draft.written))
    (succeeded : draft.result = .ok ()) : Draft.Twins environment put [] draft draft :=
  ⟨by simp, ⟨fun _ => by simp, fun _ => succeeded⟩, fun _ => mirrors⟩

/-- The style declares no runtime variable and has no block for one. -/
def Style.NoRuntime (style : Style) : Prop :=
  style.hasRuntime = false ∧ style.pending = {}

theorem Mirrors.of_noPending (sound : style.Sound) (noRuntime : style.NoRuntime) :
    Mirrors environment [] style style := by
  apply Mirrors.of_noRuntime sound noRuntime.1
  · rw [noRuntime.2]
    rfl
  · rw [noRuntime.2]
    exact ⟨by simp, by simp, by simp⟩

theorem Mirrors.of_place {slot : Slot} (isSlot : Slot.ofHead? head = some slot) {body : Body}
    (sound : body.Sound slot.target.block) (noDefaults : body.defaults = ∅) :
    Mirrors environment [] (slot.place body) (slot.place body) := by
  have noneLeft : body.defaults.isEmpty = true := OrderedMap.isEmpty_iff.mpr noDefaults
  apply Mirrors.of_noRuntime (sound.place (Slot.wellFormed_of_ofHead? isSlot))
  · cases slot <;> simp [Slot.place, noneLeft]
  · cases slot <;> simp [Slot.place, noneLeft, Pending.isEmpty, Pending.blocks] <;> rfl
  · exact (Slot.putsAt_place isSlot).pending body

theorem Contributes.noRuntime {isDeclared : Text → Bool} {contribution : Style}
    (contributes : Contributes environment { Target.topLevel isDeclared with takesRuntime := false }
      contribution) :
    contribution.NoRuntime := by
  induction contributes with
  | nothing => exact ⟨rfl, rfl⟩
  | both _ _ first second => simp [Style.NoRuntime, first.1, first.2, second.1, second.2]
  | properties => exact ⟨rfl, rfl⟩
  | runtime _ takesRuntime => simp at takesRuntime
  | localVariable _ takesLocals =>
      simp only [Target.topLevel, Option.some.injEq] at takesLocals
      rw [← takesLocals]
      exact ⟨rfl, rfl⟩
  | @fragment _ _ fragment important _ _ => cases important <;> exact ⟨rfl, rfl⟩

/-- The runtime declaration that a token spells at a place, if it spells one. -/
def RuntimeDeclaration.ofToken (place : Place) (token : Text) : List RuntimeDeclaration :=
  match Declaration.read? token with
  | none => []
  | some declaration => if declaration.sigil = .runtime then [{ place, declaration }] else []

theorem blockParts?_of_read? (found : Declaration.read? statement ≠ none) :
    blockParts? statement = none := by
  rcases Option.ne_none_iff_exists'.mp found with ⟨declaration, found⟩
  rw [blockParts?, Declaration.looksLike_of_read? found]
  rfl

theorem Environment.blockToken_of_read? {target : Target Body} {token : Text}
    {declaration : Declaration} (found : Declaration.read? token = some declaration) :
    environment.blockToken target token = environment.declare target token declaration := by
  rw [blockToken, blockParts?_of_read? (by simp [found]), Declaration.parse, found,
    Draft.lift_ok_andThen]
  rfl

theorem Environment.read?_ne_none_of_blockToken {target : Target Body} {token : Text}
    (succeeded : (environment.blockToken target token).result = .ok ()) :
    Declaration.read? token ≠ none := by
  intro notFound
  rw [blockToken, Declaration.parse, notFound, Draft.lift_error_andThen] at succeeded
  split at succeeded <;> simp [Draft.fail] at succeeded

namespace Environment

open RuntimeDeclaration (ofToken)

variable {environment : Environment} (isRule : environment.context = .rule)
  (soundTheme : environment.theme.Sound)

include isRule soundTheme

theorem twins_flat {isDeclared : Text → Bool} {statement : Text}
    (succeeded : (environment.flat isDeclared statement).result = .ok ()) :
    Draft.Twins environment id (ofToken .base statement) (environment.flat isDeclared statement)
      (environment.flat isDeclared (Declaration.withoutSigil statement)) := by
  cases found : Declaration.read? statement with
  | none => simp [flat, Declaration.parse, found, Draft.lift_error_andThen, Draft.fail] at succeeded
  | some declaration =>
      have isFlat : environment.flat isDeclared statement =
          environment.declare (.topLevel isDeclared) statement declaration := by
        rw [flat, Declaration.parse, found, Draft.lift_ok_andThen]
      rw [isFlat] at succeeded ⊢
      by_cases isRuntime : declaration.sigil = .runtime
      · have isPlain : environment.flat isDeclared (Declaration.withoutSigil statement) =
            environment.declare (.topLevel isDeclared) (Declaration.withoutSigil statement)
              { declaration with sigil := .plain } := by
          rw [flat, Declaration.parse, Declaration.read?_withoutSigil found isRuntime,
            Draft.lift_ok_andThen]
        rw [isPlain, ofToken, found]
        simp only [if_pos isRuntime]
        exact twins_declare_runtime isRule (Target.lawful_topLevel isDeclared) putsAt_ofBody rfl rfl
          isRuntime succeeded _
      · rw [Declaration.withoutSigil_of_ne found isRuntime, isFlat, ofToken, found]
        simp only [if_neg isRuntime]
        apply Mirrors.twins _ succeeded
        have isAscii : ∀ c ∈ declaration.name, isAsciiNameChar c = true :=
          Declaration.isAscii_of_parse (by rw [Declaration.parse, found])
        have noRuntime : Contributes environment
            { Target.topLevel isDeclared with takesRuntime := false }
            (environment.declare (.topLevel isDeclared) statement declaration).written := by
          rw [← declare_of_noRuntime isRuntime]
          exact contributes_declare ⟨Style.ofBody_empty, Style.ofBody_append⟩ isAscii
        have contributes : Contributes environment (.topLevel isDeclared)
            (environment.declare (.topLevel isDeclared) statement declaration).written :=
          contributes_declare (Target.lawful_topLevel isDeclared) isAscii
        exact .of_noPending (contributes.sound_topLevel soundTheme) noRuntime.noRuntime

section Block

variable {head : Text} {slot : Slot} (isSlot : Slot.ofHead? head = some slot)

include isSlot

theorem twins_blockToken {token : Text}
    (succeeded : (environment.blockToken slot.target token).result = .ok ()) :
    Draft.Twins environment slot.place (ofToken slot.toPlace token)
      (environment.blockToken slot.target token)
      (environment.blockToken slot.target (Declaration.withoutSigil token)) := by
  cases found : Declaration.read? token with
  | none => exact absurd found (read?_ne_none_of_blockToken succeeded)
  | some declaration =>
      rw [blockToken_of_read? found] at succeeded ⊢
      by_cases isRuntime : declaration.sigil = .runtime
      · rw [blockToken_of_read? (Declaration.read?_withoutSigil found isRuntime), ofToken, found]
        simp only [if_pos isRuntime]
        have puts : PutsAt slot.toPlace fun body => slot.place (slot.target.contribute body) := by
          have contributesItself : ∀ body, slot.target.contribute body = body := by
            intro body
            cases slot <;> rfl
          simp only [contributesItself]
          exact Slot.putsAt_place isSlot
        exact twins_declare_runtime isRule slot.lawful_target puts slot.block_toPlace.symm
          slot.isElement_toPlace.symm isRuntime succeeded _
      · rw [Declaration.withoutSigil_of_ne found isRuntime, blockToken_of_read? found, ofToken,
          found]
        simp only [if_neg isRuntime]
        apply Mirrors.twins _ succeeded
        have isAscii : ∀ c ∈ declaration.name, isAsciiNameChar c = true :=
          Declaration.isAscii_of_parse (by rw [Declaration.parse, found])
        have noDefaults :
            (environment.declare slot.target token declaration).written.defaults = ∅ := by
          rw [← declare_of_noRuntime isRuntime]
          cases slot <;>
            exact (contributes_declare (Target.lawful_insideBlock _ _ _ false) isAscii).noDefaults
              (Or.inr rfl)
        have contributes : Contributes environment slot.target
            (environment.declare slot.target token declaration).written :=
          contributes_declare slot.lawful_target isAscii
        apply Mirrors.of_place isSlot _ noDefaults
        have areBlockChars := (Slot.wellFormed_of_ofHead? isSlot).areBlockChars
        cases slot <;> exact contributes.sound_insideBlock soundTheme areBlockChars

end Block

end Environment

/-! ## Blocks and statements -/

theorem Draft.result_andThen {ω : Type} [EmptyCollection ω] [Append ω] {first next : Draft ω Unit} :
    (first.andThen fun _ => next).result = .ok () ↔
      first.result = .ok () ∧ next.result = .ok () := by
  rw [andThen]
  cases first.result <;> simp

theorem Draft.result_forEach {ω : Type} [EmptyCollection ω] [Append ω] {item : Text → Draft ω Unit}
    {tokens : List Text} :
    (Draft.forEach item tokens).result = .ok () ↔
      ∀ token ∈ tokens, (item token).result = .ok () := by
  induction tokens with
  | nil => simp [Draft.forEach, done]
  | cons token tokens ih =>
      rw [Draft.forEach, result_andThen, ih, List.forall_mem_cons]

theorem Draft.Twins.forEach {ω : Type} [EmptyCollection ω] [Append ω] {put : ω → Style}
    (append : ∀ left right, put (left ++ right) = put left ++ put right)
    (nothing : Mirrors environment [] (put ∅) (put ∅)) {item : Text → Draft ω Unit}
    {declared : Text → List RuntimeDeclaration} {change : Text → Text} {tokens : List Text}
    (each : ∀ token ∈ tokens, (item token).result = .ok () →
      Twins environment put (declared token) (item token) (item (change token)))
    (succeeded : (Draft.forEach item tokens).result = .ok ()) :
    Twins environment put (tokens.flatMap declared) (Draft.forEach item tokens)
      (Draft.forEach item (tokens.map change)) := by
  induction tokens with
  | nil => exact ⟨by simp, by simp [Draft.forEach, done], fun _ => nothing⟩
  | cons token tokens ih =>
      rw [List.forall_mem_cons] at each
      rw [Draft.forEach, result_andThen] at succeeded
      have ofToken := each.1 succeeded.1
      have ofRest := ih each.2 succeeded.2
      constructor
      · rw [List.flatMap_cons, List.forall_mem_append]
        exact ⟨ofToken.allowed, ofRest.allowed⟩
      · rw [List.map_cons, Draft.forEach, result_andThen, ofToken.accepted, ofRest.accepted,
          List.flatMap_cons, List.forall_mem_append]
      · intro ended
        rw [List.map_cons, Draft.forEach, result_andThen] at ended
        rw [List.map_cons, Draft.forEach, Draft.forEach, andThen_of_ok succeeded.1,
          andThen_of_ok ended.1, append, append, List.flatMap_cons]
        exact (ofToken.mirrors ended.1).append (ofRest.mirrors ended.2)

/-- The statement with every runtime declaration made plain, also inside a block of the element. -/
def withoutSigils (statement : Text) : Text :=
  match blockParts? statement with
  | none => Declaration.withoutSigil statement
  | some (head, inside) =>
    if (Slot.ofHead? head).isSome then head ++ .char '(' :: (dropSigils inside ++ [.char ')'])
    else statement

/-- The runtime declarations of a statement. -/
def RuntimeDeclaration.ofStatement (statement : Text) : List RuntimeDeclaration :=
  match blockParts? statement with
  | none => ofToken .base statement
  | some (head, inside) =>
    match Slot.ofHead? head, statements inside with
    | some slot, .ok tokens => tokens.flatMap (ofToken slot.toPlace)
    | _, _ => []

theorem looksLike_append (plain : .char '(' ∉ head ∧ .char '[' ∉ head) (rest : Text) :
    Declaration.looksLike (head ++ .char '(' :: rest) = false := by
  have inHead : head.find? (fun (c : CodePoint) => c == '[' || c == '(') = none := by
    rw [List.find?_eq_none]
    intro c isChar isBracket
    rw [Bool.or_eq_true, beq_iff_eq, beq_iff_eq] at isBracket
    rcases isBracket with rfl | rfl
    · exact plain.2 isChar
    · exact plain.1 isChar
  rw [Declaration.looksLike, List.find?_append, inHead, Option.none_or]
  rfl

theorem blockParts?_eq_some {inside : Text} (parts : blockParts? statement = some (head, inside)) :
    statement = head ++ CodePoint.char '(' :: (inside ++ [CodePoint.char ')']) ∧ head ≠ [] ∧
      CodePoint.char '(' ∉ head ∧ CodePoint.char '[' ∉ head := by
  rw [blockParts?] at parts
  split at parts
  · simp at parts
  · next isBlock =>
    simp only [Bool.or_eq_true, not_or, Bool.not_eq_true, bne_eq_false_iff_eq] at isBlock
    split at parts
    · next first before rest opens =>
      simp only [Option.some.injEq, Prod.mk.injEq] at parts
      rcases parts with ⟨rfl, rfl⟩
      have isStatement := Text.splitAtChar?_eq_some opens
      have noParenthesis := Text.not_mem_of_splitAtChar? opens
      refine ⟨?_, by simp, noParenthesis, ?_⟩
      · have ends : rest.getLast? = some (CodePoint.char ')') := by
          have isLast := isBlock.2
          rw [isStatement, List.getLast?_append, List.getLast?_cons] at isLast
          cases ending : rest.getLast? <;> simp_all
        rw [List.dropLast_append_getLast? _ ends]
        exact isStatement
      · intro isBracket
        have notFirst := isBlock.1
        rw [Declaration.looksLike, isStatement, List.find?_append] at notFirst
        cases found : (first :: before).find? fun (c : CodePoint) => c == '[' || c == '(' with
        | none => simpa using List.find?_eq_none.mp found _ isBracket
        | some c =>
            have isOpening := List.find?_some found
            rw [Bool.or_eq_true, beq_iff_eq, beq_iff_eq] at isOpening
            rcases isOpening with rfl | rfl
            · simp [found] at notFirst
            · exact noParenthesis (List.mem_of_find?_eq_some found)
    · simp at parts

theorem blockParts?_append (nonempty : head ≠ []) (plain : .char '(' ∉ head ∧ .char '[' ∉ head)
    (inside : Text) :
    blockParts? (head ++ CodePoint.char '(' :: (inside ++ [CodePoint.char ')'])) =
      some (head, inside) := by
  have isLast : (head ++ CodePoint.char '(' :: (inside ++ [CodePoint.char ')'])).getLast? =
      some (CodePoint.char ')') := by
    rw [← List.cons_append, ← List.append_assoc, List.getLast?_concat]
  rw [blockParts?, looksLike_append plain, isLast, Text.splitAtChar?_append plain.1]
  cases head with
  | nil => exact absurd rfl nonempty
  | cons first head => simp

theorem Declaration.read?_withoutSigil_ne_none (found : read? statement ≠ none) :
    read? (withoutSigil statement) ≠ none := by
  obtain ⟨declaration, found⟩ := Option.ne_none_iff_exists'.mp found
  by_cases isRuntime : declaration.sigil = .runtime
  · simp [read?_withoutSigil found isRuntime]
  · simp [withoutSigil_of_ne found isRuntime, found]

theorem Declaration.withoutSigil_ne_nil (found : read? statement ≠ none) :
    withoutSigil statement ≠ [] := by
  intro isEmpty
  have foundPlain := read?_withoutSigil_ne_none found
  rw [isEmpty] at foundPlain
  exact foundPlain rfl

namespace Environment

open RuntimeDeclaration (ofToken ofStatement)

variable {environment : Environment} (isRule : environment.context = .rule)
  (soundTheme : environment.theme.Sound)

include isRule soundTheme

theorem twins_slotted {head inside : Text} {slot : Slot} (isSlot : Slot.ofHead? head = some slot)
    (succeeded : (environment.slotted slot inside).result = .ok ()) :
    ∃ tokens, statements inside = .ok tokens ∧
      Draft.Twins environment id (tokens.flatMap (ofToken slot.toPlace))
        (environment.slotted slot inside) (environment.slotted slot (dropSigils inside)) := by
  have isBody : ∀ {inside : Text} {tokens : List Text}, statements inside = .ok tokens →
      environment.blockBody slot.target inside =
        .forEach (environment.blockToken slot.target) tokens := by
    intro inside tokens scanned
    rw [blockBody, scanned, Draft.lift_ok_andThen]
  cases scanned : statements inside with
  | error error =>
      simp [slotted, blockBody, scanned, Draft.lift_error_andThen, Draft.fail] at succeeded
  | ok tokens =>
      rw [slotted, isBody scanned] at succeeded
      have each := Draft.result_forEach.mp succeeded
      have scannedPlain := statements_dropSigils scanned fun token isToken =>
        Declaration.withoutSigil_ne_nil (read?_ne_none_of_blockToken (each token isToken))
      have nothing : Mirrors environment [] (slot.place ∅) (slot.place ∅) :=
        .of_place isSlot (Body.sound_empty _) rfl
      have twins : Draft.Twins environment slot.place (tokens.flatMap (ofToken slot.toPlace))
          (.forEach (environment.blockToken slot.target) tokens)
          (.forEach (environment.blockToken slot.target) (tokens.map Declaration.withoutSigil)) :=
        Draft.Twins.forEach (Slot.putsAt_place isSlot).append nothing
          (fun token _ => twins_blockToken isRule soundTheme isSlot) succeeded
      refine ⟨tokens, rfl, ?_⟩
      rw [slotted, slotted, isBody scanned, isBody scannedPlain]
      exact ⟨twins.allowed, twins.accepted, twins.mirrors⟩

omit isRule in
theorem mirrors_conditional (kind : Condition) (statement inside : Text)
    (fromStatement : ∀ c ∈ inside, c ∈ statement) :
    Mirrors environment [] (environment.conditional kind statement inside).written
      (environment.conditional kind statement inside).written := by
  have sound : (environment.conditional kind statement inside).written.Sound :=
    (contribution_conditional fromStatement kind).sound soundTheme
  have noRuntime : (environment.conditional kind statement inside).written.NoRuntime := by
    apply Draft.written_lift_andThen ⟨rfl, rfl⟩
    rintro (_ | ⟨written, body⟩) _
    · exact ⟨rfl, rfl⟩
    · apply Draft.written_lift_andThen ⟨rfl, rfl⟩
      intro query _
      simp only
      split
      · exact ⟨rfl, rfl⟩
      · cases kind <;> exact ⟨rfl, rfl⟩
  exact .of_noPending sound noRuntime

variable {isDeclared : Text → Bool} {statement : Text}

omit soundTheme in
theorem contribution_of_isWhole (whole : IsWhole statement)
    (notAt : statement.head? ≠ some (.char '@')) :
    environment.contribution isDeclared statement =
      match blockParts? statement with
      | none => environment.flat isDeclared statement
      | some (head, inside) =>
        (environment.block? head statement inside).getD
          (environment.flat isDeclared statement) := by
  rw [contribution, whole.trim_eq, isRule]
  split
  · exact absurd rfl whole.1
  · simp at notAt
  · rfl

omit isRule soundTheme in
theorem head?_ne_at (whole : IsWhole statement)
    (succeeded : (environment.contribution isDeclared statement).result = .ok ()) :
    statement.head? ≠ some (.char '@') := by
  intro isAt
  obtain ⟨rest, rfl⟩ := List.head?_eq_some_iff.mp isAt
  rw [contribution, whole.trim_eq] at succeeded
  simp [Draft.fail] at succeeded

omit isRule soundTheme in
theorem head?_ne_at_of_read? (found : Declaration.read? statement ≠ none) :
    statement.head? ≠ some (.char '@') := by
  intro isAt
  obtain ⟨rest, rfl⟩ := List.head?_eq_some_iff.mp isAt
  exact found rfl

theorem twins_contribution (whole : IsWhole statement)
    (succeeded : (environment.contribution isDeclared statement).result = .ok ()) :
    Draft.Twins environment id (ofStatement statement)
      (environment.contribution isDeclared statement)
      (environment.contribution isDeclared (withoutSigils statement)) := by
  have notAt := head?_ne_at whole succeeded
  rw [contribution_of_isWhole isRule whole notAt] at succeeded ⊢
  cases parts : blockParts? statement with
  | none =>
      rw [parts] at succeeded
      have found : Declaration.read? statement ≠ none := by
        intro notFound
        simp [flat, Declaration.parse, notFound, Draft.lift_error_andThen, Draft.fail] at succeeded
      have foundPlain : Declaration.read? (Declaration.withoutSigil statement) ≠ none :=
        Declaration.read?_withoutSigil_ne_none found
      have noBlock : blockParts? (Declaration.withoutSigil statement) = none :=
        blockParts?_of_read? foundPlain
      have isPlain : withoutSigils statement = Declaration.withoutSigil statement := by
        rw [withoutSigils, parts]
      rw [isPlain, ofStatement, parts, contribution_of_isWhole isRule
        (whole.withoutSigil (Declaration.withoutSigil_ne_nil found))
        (head?_ne_at_of_read? foundPlain), noBlock]
      exact twins_flat isRule soundTheme succeeded
  | some block =>
      obtain ⟨head, inside⟩ := block
      obtain ⟨isStatement, nonempty, plainHead⟩ := blockParts?_eq_some parts
      rw [parts] at succeeded
      cases isSlot : Slot.ofHead? head with
      | some slot =>
          have isBlock : ∀ statement inside, environment.block? head statement inside =
              some (environment.slotted slot inside) := by
            intro statement inside
            rw [block?, isSlot]
          have isPlain : withoutSigils statement =
              head ++ CodePoint.char '(' :: (dropSigils inside ++ [CodePoint.char ')']) := by
            simp [withoutSigils, parts, isSlot]
          have wholePlain :
              IsWhole (head ++ CodePoint.char '(' ::
                (dropSigils inside ++ [CodePoint.char ')'])) := by
            rw [isStatement] at whole
            exact whole.dropSigils
          have notAtPlain : (head ++ CodePoint.char '(' ::
              (dropSigils inside ++ [CodePoint.char ')'])).head? ≠ some (CodePoint.char '@') := by
            rw [isStatement] at notAt
            cases head with
            | nil => exact absurd rfl nonempty
            | cons first head => exact notAt
          simp only [isBlock, Option.getD_some] at succeeded
          obtain ⟨tokens, scanned, twins⟩ := twins_slotted isRule soundTheme isSlot succeeded
          rw [isPlain, contribution_of_isWhole isRule wholePlain notAtPlain,
            blockParts?_append nonempty plainHead]
          simpa only [isBlock, Option.getD_some, ofStatement, parts, isSlot, scanned] using twins
      | none =>
          have isPlain : withoutSigils statement = statement := by
            simp [withoutSigils, parts, isSlot]
          have noRuntime : ofStatement statement = [] := by
            simp [ofStatement, parts, isSlot]
          rw [isPlain, contribution_of_isWhole isRule whole notAt, parts, noRuntime]
          simp only [block?, isSlot] at succeeded ⊢
          cases isCondition : Condition.ofHead? head with
          | some kind =>
              rw [isCondition] at succeeded
              exact Mirrors.twins (mirrors_conditional soundTheme kind statement inside
                (mem_of_blockParts? parts)) succeeded
          | none =>
              -- A block with an unknown head is read as a declaration, and is none.
              have notFound : Declaration.read? statement = none := by
                by_contra found
                have noBlock := blockParts?_of_read? found
                simp [parts] at noBlock
              simp [isCondition, flat, Declaration.parse, notFound, Draft.lift_error_andThen,
                Draft.fail] at succeeded

end Environment

/-! ## Whole bodies -/

theorem Mirrors.localVariables {declarations : List RuntimeDeclaration} {plain : Style}
    (mirrors : Mirrors environment declarations style plain) :
    plain.localVariables = style.localVariables := by
  have sameFields := congrArg Style.localVariables mirrors.filled
  exact sameFields

theorem RuntimeDeclaration.allowed_of_dispatchAll (isRule : environment.context = .rule)
    (soundTheme : environment.theme.Sound) {found : List Text}
    (whole : ∀ statement ∈ found, IsWhole statement)
    (succeeded : (style.dispatchAll environment found).failure = none) :
    ∀ runtime ∈ found.flatMap ofStatement, runtime.Allowed := by
  induction found generalizing style with
  | nil => simp
  | cons statement found ih =>
      rw [List.forall_mem_cons] at whole
      have ended := Style.result_of_dispatchAll_cons succeeded
      rw [Style.dispatchAll_cons ended] at succeeded
      rw [List.flatMap_cons, List.forall_mem_append]
      exact ⟨(Environment.twins_contribution isRule soundTheme whole.1 ended).allowed,
        ih whole.2 succeeded⟩

theorem Mirrors.dispatchAll (isRule : environment.context = .rule)
    (soundTheme : environment.theme.Sound) {found : List Text}
    (whole : ∀ statement ∈ found, IsWhole statement) {declarations : List RuntimeDeclaration}
    {plain : Style} (mirrors : Mirrors environment declarations style plain)
    (succeeded : (style.dispatchAll environment found).failure = none) :
    ((plain.dispatchAll environment (found.map withoutSigils)).failure = none ↔
      ∀ runtime ∈ found.flatMap RuntimeDeclaration.ofStatement,
        (environment.plainValue? runtime).isSome = true) ∧
    ((plain.dispatchAll environment (found.map withoutSigils)).failure = none →
      Mirrors environment (declarations ++ found.flatMap RuntimeDeclaration.ofStatement)
        (style.dispatchAll environment found).state
        (plain.dispatchAll environment (found.map withoutSigils)).state) := by
  induction found generalizing declarations style plain with
  | nil =>
      refine ⟨⟨fun _ => by simp, fun _ => rfl⟩, fun _ => ?_⟩
      rw [List.flatMap_nil, List.append_nil]
      exact mirrors
  | cons statement found ih =>
      rw [List.forall_mem_cons] at whole
      have ended := Style.result_of_dispatchAll_cons succeeded
      rw [Style.dispatchAll_cons ended] at succeeded ⊢
      have twins := Environment.twins_contribution isRule soundTheme whole.1 ended
      rw [List.map_cons, List.flatMap_cons, List.forall_mem_append, ← twins.accepted]
      by_cases accepted : (environment.contribution style.localVariables.contains
          (withoutSigils statement)).result = .ok ()
      · have later := ih whole.2 (mirrors.append (twins.mirrors accepted)) succeeded
        have acceptedPlain := accepted
        rw [← mirrors.localVariables] at acceptedPlain
        have step := Style.dispatchAll_cons acceptedPlain (found.map withoutSigils)
        rw [mirrors.localVariables] at step
        rw [step, ← List.append_assoc, and_iff_right accepted]
        exact later
      · have refused : (plain.dispatchAll environment
            (withoutSigils statement :: found.map withoutSigils)).failure ≠ none := by
          intro endedPlain
          have isAccepted := Style.result_of_dispatchAll_cons endedPlain
          rw [mirrors.localVariables] at isAccepted
          exact accepted isAccepted
        exact ⟨⟨fun endedPlain => absurd endedPlain refused, fun all => absurd all.1 accepted⟩,
          fun endedPlain => absurd endedPlain refused⟩

end TerseStyle

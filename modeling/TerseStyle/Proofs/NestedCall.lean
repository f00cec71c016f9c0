import TerseStyle.Proofs.Splitting
import TerseStyle.Proofs.Wrapping

/-!
# Calls inside calls

A custom property that stands in a call of `var` is not to be put into another call. Wrapping looks
for the opened call directly before the property. A call may be written over several lines, though,
and a body that is cut into statements has spaces for its line breaks. So a reference is called
twice exactly if blanks separate it from the call that it stands in
(`Value.nestsCall_wrapVariables_iff`), and a call is left as it is only if it has none there.
-/

namespace TerseStyle

namespace Value

variable {before rest written : Text} {pieces : List (Piece Text)}

/-- Up to blanks, the text begins by opening a call. -/
def CallsNext (text : Text) : Prop :=
  ("var(" : Text) <+: text.dropWhile isBlank

/-- Up to blanks, the text begins with a custom property, and at that place it is bare. -/
def RefersNext (before text : Text) : Prop :=
  Begins (text.dropWhile isBlank) ∧ ¬IsGuarded (before ++ text.takeWhile isBlank)

/-- A call is opened and, up to blanks, directly followed by a further one. -/
def NestsCall (text : Text) : Prop :=
  ∃ before after, text = before ++ after ∧ ("var(" : Text) <:+ before ∧ CallsNext after

/-- The text ends with an opened call, which is no end of a bare reference. -/
def OpensCall (before : Text) : Prop :=
  ("var(" : Text) <:+ before ∧ ¬EndsCall before

instance (text : Text) : Decidable (CallsNext text) :=
  inferInstanceAs (Decidable (("var(" : Text) <+: text.dropWhile isBlank))

variable {text reference first second : Text} {c : CodePoint}

theorem nestsCall_iff_any :
    ((List.range (text.length + 1)).any fun length =>
      ("var(" : Text).isSuffixOf (text.take length) && decide (CallsNext (text.drop length))) =
        true ↔ NestsCall text := by
  simp only [List.any_eq_true, Bool.and_eq_true, List.isSuffixOf_iff_suffix, decide_eq_true_eq]
  constructor
  · rintro ⟨length, _, nests⟩
    exact ⟨_, _, (List.take_append_drop length text).symm, nests⟩
  · rintro ⟨before, after, rfl, nests⟩
    exact ⟨before.length, by simp, by simpa using nests⟩

instance (text : Text) : Decidable (NestsCall text) :=
  decidable_of_iff _ nestsCall_iff_any

theorem IsReference.ne_nil (isReference : IsReference reference) : reference ≠ [] := by
  rcases isReference with ⟨first, more, rfl, _⟩
  exact List.cons_ne_nil _ _

theorem not_callsNext_of_head? (isHead : text.head? = some c) (notBlank : isBlank c = false)
    (notOpening : c ≠ .char 'v') : ¬CallsNext text := by
  rcases List.head?_eq_some_iff.mp isHead with ⟨rest, rfl⟩
  intro calls
  rw [CallsNext, List.dropWhile_cons_of_neg (by simp [notBlank])] at calls
  exact notOpening (List.cons_prefix_cons.mp calls).1.symm

theorem getLast?_of_opened (opened : ("var(" : Text) <:+ before) :
    before.getLast? = some (.char '(') := by
  rcases opened with ⟨front, rfl⟩
  simp [Text.ofString, Text.ofChars]

theorem not_isGuarded_concat (notName : isNameChar c = false) (notOpen : c ≠ .char '(') :
    ¬IsGuarded (before ++ [c]) := by
  rintro (opened | ⟨last, isLast, isName⟩)
  · have isParenthesis := getLast?_of_opened opened
    rw [List.getLast?_concat, Option.some.injEq] at isParenthesis
    exact notOpen isParenthesis
  · rw [List.getLast?_concat, Option.mem_some_iff] at isLast
    rw [isLast, isName] at notName
    exact absurd notName (by simp)

theorem not_isGuarded_gap {gap : Text} (nonempty : gap ≠ [])
    (blanks : ∀ c ∈ gap, isBlank c = true) : ¬IsGuarded (before ++ gap) := by
  rcases (List.eq_nil_or_concat gap).resolve_left nonempty with ⟨front, last, rfl⟩
  have blank : isBlank last = true := blanks last (by simp)
  rw [List.concat_eq_append, ← List.append_assoc]
  apply not_isGuarded_concat (isNameChar_of_isBlank blank)
  rintro rfl
  exact absurd blank (by decide)

/-! ## What is written at a place -/

/-- What is written opens a call here exactly if what is read does, and not by the end of a
reference, which is closed before the parenthesis. -/
theorem Tracks.opensCall_iff (tracks : Tracks rest before written) :
    ("var(" : Text) <:+ written ↔ OpensCall before := by
  cases tracks with
  | start passes =>
      refine ⟨fun opened => ⟨opened, ?_⟩, And.left⟩
      rintro ⟨front, reference, isTail, bare, isReference, _⟩
      exact bare (passes.isGuarded isTail isReference)
  | @since front reference tail written isReference ends bare passes =>
      constructor
      · intro opened
        have inTail := suffix_of_closing opened
        have nonempty : tail ≠ [] := List.ne_nil_of_length_pos (inTail.length_le.trans' (by decide))
        rw [List.head?_append_of_ne_nil _ nonempty] at ends
        exact ⟨inTail.trans (List.suffix_append _ _),
          not_endsCall_of_isGuarded passes nonempty ends (.inl opened)⟩
      · rintro ⟨opened, notCall⟩
        have isLast := getLast?_of_opened opened
        -- A reference does not end with a parenthesis, so something stands after it.
        have nonempty : tail ≠ [] := by
          rintro rfl
          rw [List.append_nil, List.getLast?_append_of_ne_nil _ isReference.ne_nil] at isLast
          exact absurd (isReference.isNameChar _ (List.mem_of_getLast? isLast)) (by decide)
        rw [List.head?_append_of_ne_nil _ nonempty] at ends
        rcases isGuarded_of_not_endsCall isReference bare nonempty ends (.inl opened) notCall with
          isOpened | ⟨c, isChar, isName⟩
        · exact isOpened
        · rw [List.append_cons, List.getLast?_append_of_ne_nil _ nonempty] at isChar
          rw [List.getLast?_append_of_ne_nil _ nonempty] at isLast
          rw [isLast, Option.mem_some_iff] at isChar
          rw [← isChar] at isName
          exact absurd isName (by decide)

/-- Of a word that follows a character of a name, nothing is wrapped. -/
theorem Cut.prefix_iff {name : Text} {last : CodePoint}
    (areNames : ∀ d ∈ name, isNameChar d = true) (isName : isNameChar c = true)
    (cut : Cut (before ++ [c]) rest pieces) :
    name ++ [last] <+: pieces.flatMap (Piece.render Naming.use) ↔ name ++ [last] <+: rest := by
  induction name generalizing before rest pieces c with
  | nil =>
      rcases cut.cases_of_isNameChar isName with
        ⟨rfl, rfl⟩ | ⟨next, more, others, rfl, rfl, _⟩
      · simp
      · simp [Piece.render, List.cons_prefix_cons]
  | cons d name ih =>
      rw [List.forall_mem_cons] at areNames
      rcases cut.cases_of_isNameChar isName with
        ⟨rfl, rfl⟩ | ⟨next, more, others, rfl, rfl, onwards⟩
      · simp
      · rw [List.flatMap_cons, Piece.render, List.singleton_append, List.cons_append,
          List.cons_prefix_cons, List.cons_prefix_cons]
        apply and_congr_right
        rintro rfl
        exact ih areNames.2 areNames.1 onwards

/-- What is written goes on with a call exactly if what is read does, or if it goes on with a bare
reference. -/
theorem Cut.callsNext_iff (cut : Cut before rest pieces) :
    CallsNext (pieces.flatMap (Piece.render Naming.use)) ↔
      CallsNext rest ∨ RefersNext before rest := by
  have isCall : ("var(" : Text) = .char 'v' :: (("ar" : Text) ++ [CodePoint.char '(']) := rfl
  induction cut with
  | nil before => simp [CallsNext, RefersNext, Begins, Text.ofString, Text.ofChars]
  | @char before rest c pieces passed onwards ih =>
      rw [List.flatMap_cons, Piece.render, List.singleton_append]
      by_cases blank : isBlank c = true
      · simp only [CallsNext, RefersNext, List.append_assoc, List.singleton_append]
          at ih
        simp only [CallsNext, RefersNext, List.dropWhile_cons_of_pos blank,
          List.takeWhile_cons_of_pos blank, ih]
      · simp only [CallsNext, RefersNext, List.dropWhile_cons_of_neg blank,
          List.takeWhile_cons_of_neg blank, List.append_nil]
        have notBare : ¬(Begins (c :: rest) ∧ ¬IsGuarded before) :=
          fun bare => bare.2 (passed bare.1)
        rw [or_iff_left notBare, isCall, List.cons_prefix_cons, List.cons_prefix_cons]
        apply and_congr_right
        rintro rfl
        exact onwards.prefix_iff (by decide) (by decide)
  | @reference before rest reference pieces isReference bare _ _ _ =>
      rcases isReference with ⟨first, more, rfl, isStart, _⟩
      have notBlank : ¬isBlank (.char '-') = true := by decide
      refine iff_of_true ?_ (.inr ?_)
      · simp only [CallsNext, List.flatMap_cons, Piece.render, Naming.use, List.append_assoc]
        exact List.prefix_append _ _
      · simp only [RefersNext, List.cons_append, List.dropWhile_cons_of_neg notBlank,
          List.takeWhile_cons_of_neg notBlank, List.append_nil]
        exact ⟨⟨first, _, rfl, isStart⟩, bare⟩

/-! ## What is written as a whole -/

/-- No call follows an opened one here. -/
def SingleAt (written after : Text) : Prop :=
  ¬(("var(" : Text) <:+ written ∧ CallsNext after)

/-- Neither a call nor a bare reference follows an opened call here. -/
def KeptAt (before after : Text) : Prop :=
  ¬(OpensCall before ∧ (CallsNext after ∨ RefersNext before after))

/-- The only parenthesis of a call that something follows stands before the reference. -/
theorem eq_opening_of_use (isReference : IsReference reference)
    (isUse : Naming.use reference = first ++ second) (isLast : first.getLast? = some (.char '(')) :
    second = reference ++ ")" := by
  have isMember : .char '(' ∈ first := List.mem_of_getLast? isLast
  rw [Naming.use, List.append_assoc] at isUse
  rcases List.append_eq_append_iff.mp isUse with ⟨inner, rfl, isRest⟩ | ⟨inner, isOpening, isSecond⟩
  · by_cases atStart : inner = []
    · rw [isRest, atStart, List.nil_append]
    · rw [List.getLast?_append_of_ne_nil _ atStart] at isLast
      have inReference : .char '(' ∈ reference ++ (")" : Text) := by
        rw [isRest]
        exact List.mem_append_left _ (List.mem_of_getLast? isLast)
      rcases List.mem_append.mp inReference with isName | isClosing
      · exact absurd (isReference.isNameChar _ isName) (by decide)
      · exact absurd isClosing (by decide)
  · by_cases atEnd : inner = []
    · rw [isSecond, atEnd, List.nil_append]
    · have shorter : first.length ≤ ("var" : Text).length := by
        have sameLength := congrArg List.length isOpening
        have positive := List.length_pos_of_ne_nil atEnd
        have isFour : ("var(" : Text).length = ("var" : Text).length + 1 := rfl
        rw [List.length_append] at sameLength
        omega
      have isPart : first <+: ("var" : Text) :=
        List.prefix_of_prefix_length_le ⟨inner, isOpening.symm⟩
          (⟨[CodePoint.char '('], rfl⟩ : ("var" : Text) <+: ("var(" : Text)) shorter
      exact absurd (isPart.subset isMember) (by decide)

theorem singleAt_use (isReference : IsReference reference)
    (notOpened : ¬("var(" : Text) <:+ written) (isUse : Naming.use reference = first ++ second) :
    SingleAt (written ++ first) (second ++ rest) := by
  rintro ⟨opened, calls⟩
  by_cases atStart : first = []
  · rw [atStart, List.append_nil] at opened
    exact notOpened opened
  · have isLast := getLast?_of_opened opened
    rw [List.getLast?_append_of_ne_nil _ atStart] at isLast
    rw [eq_opening_of_use isReference isUse isLast] at calls
    rcases isReference with ⟨start, more, rfl, _⟩
    exact not_callsNext_of_head? rfl (by decide) (by decide) calls

theorem keptAt_reference (isReference : IsReference reference) (bare : ¬IsGuarded before)
    (isBoth : reference = first ++ second) : KeptAt (before ++ first) (second ++ rest) := by
  rintro ⟨⟨opened, _⟩, _⟩
  by_cases atStart : first = []
  · rw [atStart, List.append_nil] at opened
    exact bare (.inl opened)
  · have isLast := getLast?_of_opened opened
    rw [List.getLast?_append_of_ne_nil _ atStart] at isLast
    have isMember : .char '(' ∈ reference := by
      rw [isBoth]
      exact List.mem_append_left _ (List.mem_of_getLast? isLast)
    exact absurd (isReference.isNameChar _ isMember) (by decide)

theorem Cut.everywhere_singleAt_iff (cut : Cut before rest pieces)
    (tracks : Tracks rest before written) :
    Everywhere SingleAt written (pieces.flatMap (Piece.render Naming.use)) ↔
      Everywhere KeptAt before rest := by
  induction cut generalizing written with
  | nil before =>
      refine iff_of_true ?_ ?_
      · intro front back isNothing
        rw [(List.append_eq_nil_iff.mp isNothing.symm).2]
        exact fun nests => absurd nests.2 (by decide)
      · intro front back isNothing
        rw [(List.append_eq_nil_iff.mp isNothing.symm).2]
        rintro ⟨_, calls | ⟨⟨_, _, isText, _⟩, _⟩⟩
        · exact absurd calls (by decide)
        · simp at isText
  | @char before rest c pieces passed onwards ih =>
      have whole := Cut.char passed onwards
      have calls := whole.callsNext_iff
      rw [List.flatMap_cons, Piece.render, List.singleton_append] at calls ⊢
      rw [everywhere_cons, everywhere_cons, ih (tracks.concat passed), SingleAt,
        KeptAt, tracks.opensCall_iff, calls]
  | @reference before rest reference pieces isReference bare ends _ ih =>
      have notOpened : ¬("var(" : Text) <:+ written := by
        rw [tracks.opensCall_iff]
        exact fun opens => bare (.inl opens.1)
      rw [List.flatMap_cons, Piece.render,
        everywhere_append fun first second isUse _ => singleAt_use isReference notOpened isUse,
        everywhere_append fun first second isBoth _ => keptAt_reference isReference bare isBoth,
        ih (tracks_use isReference ends bare)]

theorem not_nestsCall_iff : ¬NestsCall text ↔ Everywhere SingleAt [] text := by
  simp only [NestsCall, Everywhere, SingleAt, List.nil_append]
  constructor
  · intro single front back isText nests
    exact single ⟨front, back, isText, nests⟩
  · rintro single ⟨front, back, isText, nests⟩
    exact single front back isText nests

/-- Wrapping leads to a call in a call exactly if an opened call is followed, up to blanks, by a
further call or by a bare reference. -/
theorem nestsCall_wrapVariables {value : Text} :
    NestsCall (wrapVariables value) ↔ ∃ before after, value = before ++ after ∧
      OpensCall before ∧ (CallsNext after ∨ RefersNext before after) := by
  rcases exists_cut [] value with ⟨pieces, cut⟩
  have isWrapped : wrapVariables value = pieces.flatMap (Piece.render Naming.use) :=
    cut.wrapVariablesAfter_eq
  rw [← not_iff_not, not_nestsCall_iff, isWrapped,
    cut.everywhere_singleAt_iff (.start (passes_nil [] value))]
  simp only [Everywhere, KeptAt, List.nil_append, not_exists]
  constructor
  · rintro kept before after ⟨isValue, nests⟩
    exact kept before after isValue nests
  · intro kept front back isValue nests
    exact kept front back ⟨isValue, nests⟩

/-- After an opened call, a reference is bare exactly if blanks come first. -/
theorem OpensCall.refersNext_iff {after : Text} (opens : OpensCall before) :
    RefersNext before after ↔ ∃ gap reference, after = gap ++ reference ∧ gap ≠ [] ∧
      (∀ c ∈ gap, isBlank c = true) ∧ Begins reference := by
  constructor
  · rintro ⟨begins, bare⟩
    refine ⟨after.takeWhile isBlank, after.dropWhile isBlank,
      List.takeWhile_append_dropWhile.symm, ?_, fun c => List.mem_takeWhile_imp, begins⟩
    intro noGap
    rw [noGap, List.append_nil] at bare
    exact bare (.inl opens.1)
  · rintro ⟨gap, reference, rfl, nonempty, blanks, begins⟩
    have notBlank : ¬isBlank (.char '-') = true := by decide
    have isAfter : (gap ++ reference).dropWhile isBlank = reference ∧
        (gap ++ reference).takeWhile isBlank = gap := by
      rcases begins with ⟨first, more, rfl, _⟩
      rw [List.dropWhile_append_of_pos blanks, List.takeWhile_append_of_pos blanks,
        List.dropWhile_cons_of_neg notBlank, List.takeWhile_cons_of_neg notBlank, List.append_nil]
      exact ⟨rfl, rfl⟩
    rw [RefersNext, isAfter.1, isAfter.2]
    exact ⟨begins, not_isGuarded_gap nonempty blanks⟩

/-- The reference of a call is left alone exactly if no blank stands before it. -/
theorem wrapVariables_eq_self_iff_of_call {value front gap after : Text}
    (isValue : value = front ++ "var(" ++ gap ++ after) (blanks : ∀ c ∈ gap, isBlank c = true)
    (begins : Begins after)
    (others : ∀ before rest, value = before ++ rest → before ≠ front ++ "var(" ++ gap →
      GuardedAt before rest) :
    wrapVariables value = value ↔ gap = [] := by
  rw [wrapVariables_eq_self_iff]
  constructor
  · intro settled
    by_contra nonempty
    exact not_isGuarded_gap nonempty blanks (settled _ _ isValue begins)
  · rintro rfl before rest isBoth beginsHere
    by_cases isCall : before = front ++ ("var(" : Text) ++ []
    · rw [isCall, List.append_nil]
      exact .inl (List.suffix_append _ _)
    · exact others before rest isBoth isCall beginsHere

/-- The values of statements in which no call follows an opened one: after wrapping one does exactly
if spaces separate a custom property from the call that is opened before it. Only a call without
such spaces is left as it is. -/
theorem nestsCall_wrapVariables_iff {body statement value : Text} {found : List Text}
    (scanned : statements body = .ok found) (isStatement : statement ∈ found)
    (isValue : value <:+: statement) (single : ¬NestsCall value) :
    (NestsCall (wrapVariables value) ↔ ∃ before count after,
      value = before ++ List.replicate (count + 1) (CodePoint.char ' ') ++ after ∧
        OpensCall before ∧ Begins after) ∧
    ∀ front gap after, value = front ++ "var(" ++ gap ++ after →
      (∀ c ∈ gap, isBlank c = true) → Begins after →
      (∀ before rest, value = before ++ rest → before ≠ front ++ "var(" ++ gap →
        GuardedAt before rest) →
      (wrapVariables value = value ↔ gap = []) := by
  have spaces : ∀ c ∈ value, isBlank c = true → c = .char ' ' := by
    intro c isChar
    exact (isWhole_of_statements scanned statement isStatement).isCompact.spaces c
      (isValue.subset isChar)
  refine ⟨?_, fun front gap after => wrapVariables_eq_self_iff_of_call⟩
  rw [nestsCall_wrapVariables]
  constructor
  · rintro ⟨before, after, rfl, opens, calls | refers⟩
    · exact absurd ⟨before, after, rfl, opens.1, calls⟩ single
    · rcases opens.refersNext_iff.mp refers with ⟨gap, reference, rfl, nonempty, blanks, begins⟩
      refine ⟨before, gap.length - 1, reference, ?_, opens, begins⟩
      have areSpaces : gap = List.replicate (gap.length - 1 + 1) (.char ' ') := by
        rw [Nat.sub_add_cancel (List.length_pos_of_ne_nil nonempty)]
        apply List.eq_replicate_of_mem
        intro c isChar
        exact spaces c (by simp [isChar]) (blanks c isChar)
      rw [← areSpaces, List.append_assoc]
  · rintro ⟨before, count, after, rfl, opens, begins⟩
    refine ⟨before, _, List.append_assoc _ _ _, opens, .inr ?_⟩
    apply opens.refersNext_iff.mpr
    refine ⟨_, after, rfl, by simp, ?_, begins⟩
    intro c isChar
    rw [List.eq_of_mem_replicate isChar]
    decide

/-- In the second call the name is on a line of its own; the first parenthesis after a name opens no
call. -/
theorem nestsCall_wrapVariables_lines :
    let body : Text := "bg[--xvar( --y) var(--z)\n var(\n--w)]"
    let value : Text := "--xvar( --y) var(--z)  var( --w)"
    statements body = .ok ["bg[" ++ value ++ "]"] ∧ ¬NestsCall value ∧
      wrapVariables value = "var(--xvar)( var(--y)) var(--z)  var( var(--w))" ∧
      ∃ before count after,
        value = before ++ List.replicate (count + 1) (CodePoint.char ' ') ++ after ∧
          OpensCall before ∧ Begins after := by
  intro body value
  have scanned : statements body = .ok ["bg[" ++ value ++ "]"] := by decide +kernel
  have single : ¬NestsCall value := by decide +kernel
  refine ⟨scanned, single, by decide +kernel, ?_⟩
  have nests := nestsCall_wrapVariables_iff scanned (List.mem_singleton_self _)
    (List.infix_append _ _ _) single
  exact nests.1.mp (by decide +kernel)

/-- A call over two lines is put into a further call. -/
theorem nestsCall_wrapVariables_break :
    let body : Text := "bg[var(\n--x)]"
    let declaration : Declaration :=
      { sigil := .plain, name := "bg", value := "var( --x)", important := false }
    statements body = .ok ["bg[var( --x)]"] ∧
      Declaration.parse "bg[var( --x)]" = .ok declaration ∧ ¬NestsCall declaration.value ∧
      wrapVariables declaration.value = "var( var(--x))" ∧
      NestsCall (wrapVariables declaration.value) := by
  decide +kernel

end Value

end TerseStyle

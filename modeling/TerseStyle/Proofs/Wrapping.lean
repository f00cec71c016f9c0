import TerseStyle.Proofs.FirstWord
import TerseStyle.Proofs.Layout

/-!
# Wrapping custom properties once

A custom property in a value is bare unless `var(` or a character of a name stands directly before
it. A value is cut, from left to right, into its bare references and the characters between them
(`Value.Cut`), and wrapping it puts each of these references into a call and touches nothing else.

What is written need not be settled, though: the guard is looked for in the text that is read. In
`--xvar(--y)` the end of the first reference and the parenthesis after it read like an opened call,
so the second reference is left bare, while in what is written the first one is closed before the
parenthesis. This is the only way in which a wrapped value can change when it is wrapped again
(`Value.wrapVariables_stable_iff`).
-/

namespace TerseStyle

namespace Value

/-! ## Bare references -/

/-- Directly before this place stands an opened call or a character of a name. -/
def IsGuarded (before : Text) : Prop :=
  ("var(" : Text) <:+ before ∨ ∃ c ∈ before.getLast?, isNameChar c = true

/-- The text begins like a custom property: two hyphens and the start of an identifier. -/
def Begins (text : Text) : Prop :=
  ∃ first rest, text = .char '-' :: .char '-' :: first :: rest ∧ isIdentifierStart first = true

/-- A custom property as it is written in a value. -/
def IsReference (reference : Text) : Prop :=
  ∃ first more, reference = .char '-' :: .char '-' :: first :: more ∧
    isIdentifierStart first = true ∧ ∀ c ∈ more, isNameChar c = true

variable {before text reference rest value tail written front : Text} {c : CodePoint}
  {pieces : List (Piece Text)}

theorem startsVariable_eq_true_iff :
    startsVariable before.reverse text = true ↔ Begins text ∧ ¬IsGuarded before := by
  have opened :
      (("(rav" : Text).isPrefixOf before.reverse = true) ↔ ("var(" : Text) <:+ before := by
    rw [List.isPrefixOf_iff_prefix, ← List.reverse_prefix]
    rfl
  have afterName : (before.reverse.head?.any isNameChar = true) ↔
      ∃ c ∈ before.getLast?, isNameChar c = true := by
    rw [List.head?_reverse, Option.any_eq_true]
    simp
  unfold startsVariable
  split
  · next first rest =>
    rw [Bool.and_eq_true, Bool.and_eq_true, Bool.not_eq_true', Bool.not_eq_true',
      Bool.eq_false_iff, Bool.eq_false_iff, Ne, Ne, opened, afterName, IsGuarded, not_or]
    constructor
    · rintro ⟨⟨isStart, notName⟩, notOpened⟩
      exact ⟨⟨first, rest, rfl, isStart⟩, notOpened, notName⟩
    · rintro ⟨⟨_, _, same, isStart⟩, notOpened, notName⟩
      simp only [List.cons.injEq, true_and] at same
      exact ⟨⟨same.1 ▸ isStart, notName⟩, notOpened⟩
  · next different =>
    refine ⟨fun starts => absurd starts Bool.false_ne_true, ?_⟩
    rintro ⟨⟨first, rest, same, _⟩, _⟩
    exact absurd same (different first rest)

theorem isGuarded_concat (isName : isNameChar c = true) : IsGuarded (before ++ [c]) :=
  .inr ⟨c, by simp, isName⟩

theorem isNameChar_hyphen : isNameChar (.char '-') = true := by decide

theorem IsReference.isNameChar (isReference : IsReference reference) :
    ∀ c ∈ reference, TerseStyle.isNameChar c = true := by
  obtain ⟨first, more, rfl, isStart, areNames⟩ := isReference
  simp only [List.forall_mem_cons]
  exact ⟨isNameChar_hyphen, isNameChar_hyphen, Source.isNameChar_of_isIdentifierStart isStart,
    areNames⟩

theorem IsReference.begins (isReference : IsReference reference) (rest : Text) :
    Begins (reference ++ rest) := by
  obtain ⟨first, more, rfl, isStart, _⟩ := isReference
  exact ⟨first, more ++ rest, rfl, isStart⟩

/-! ## Cutting a value at its references -/

/-- The rest of a value after some text, cut into its bare references and the other characters. A
reference is as long as it can be. -/
inductive Cut : Text → Text → List (Piece Text) → Prop where
  | nil (before : Text) : Cut before [] []
  | char {before rest : Text} {c : CodePoint} {pieces : List (Piece Text)}
      (passed : Begins (c :: rest) → IsGuarded before) (onwards : Cut (before ++ [c]) rest pieces) :
      Cut before (c :: rest) (.char c :: pieces)
  | reference {before rest reference : Text} {pieces : List (Piece Text)}
      (isReference : IsReference reference) (bare : ¬IsGuarded before)
      (ends : ∀ c ∈ rest.head?, isNameChar c = false)
      (onwards : Cut (before ++ reference) rest pieces) :
      Cut before (reference ++ rest) (.found reference :: pieces)

theorem exists_cut (before rest : Text) : ∃ pieces, Cut before rest pieces := by
  induction hasLength : rest.length using Nat.strong_induction_on generalizing before rest with
  | _ length ih =>
      by_cases starts : Begins rest ∧ ¬IsGuarded before
      · obtain ⟨⟨first, more, rfl, isStart⟩, bare⟩ := starts
        have isText := List.takeWhile_append_dropWhile (p := isNameChar) (l := more)
        have shorter := (List.dropWhile_sublist isNameChar (l := more)).length_le
        obtain ⟨pieces, cut⟩ := ih (more.dropWhile isNameChar).length
          (by simp only [← hasLength, List.length_cons]; omega)
          (before ++ CodePoint.char '-' :: .char '-' :: first :: more.takeWhile isNameChar) _ rfl
        refine ⟨.found (.char '-' :: .char '-' :: first :: more.takeWhile isNameChar) :: pieces, ?_⟩
        have whole := Cut.reference
          ⟨first, _, rfl, isStart, fun c => List.mem_takeWhile_imp⟩ bare ?_ cut
        · simpa only [List.cons_append, isText] using whole
        · intro c isHead
          have notName := List.head?_dropWhile_not isNameChar more
          rw [Option.mem_def] at isHead
          rw [isHead] at notName
          simpa using notName
      · cases rest with
        | nil => exact ⟨[], .nil before⟩
        | cons c rest =>
            obtain ⟨pieces, cut⟩ := ih rest.length (by simp [← hasLength])
              (before ++ [c]) rest rfl
            exact ⟨_, .char (fun begins => not_not.mp fun bare => starts ⟨begins, bare⟩) cut⟩

theorem Cut.flatMap_eq (cut : Cut before rest pieces) :
    pieces.flatMap (Piece.render id) = rest := by
  induction cut with
  | nil => rfl
  | char _ _ ih =>
      rw [List.flatMap_cons, ih, Piece.render, List.singleton_append]
  | reference _ _ _ _ ih =>
      rw [List.flatMap_cons, ih, Piece.render, id]

theorem wrapVariablesAfter_closing (ends : ∀ c ∈ rest.head?, isNameChar c = false) :
    wrapVariablesAfter before true rest = .char ')' :: wrapVariablesAfter before false rest := by
  cases rest with
  | nil => rfl
  | cons c rest =>
      have notName : isNameChar c = false := ends c rfl
      have notStarts : startsVariable before (c :: rest) = false := by
        rw [Bool.eq_false_iff]
        intro starts
        rw [startsVariable_hyphen starts, isNameChar_hyphen] at notName
        exact absurd notName.symm Bool.false_ne_true
      simp [wrapVariablesAfter, notName, notStarts]

theorem wrapVariablesAfter_opening (starts : startsVariable before text = true) :
    wrapVariablesAfter before false text = "var(" ++ wrapVariablesAfter before true text := by
  cases text with
  | nil => simp [startsVariable] at starts
  | cons c rest =>
      have isName : isNameChar c = true := by
        rw [startsVariable_hyphen starts]
        exact isNameChar_hyphen
      rw [wrapVariablesAfter, if_neg Bool.false_ne_true, if_pos starts, wrapVariablesAfter,
        if_pos rfl, if_pos isName]

/-- Wrapping puts the references of a cut into calls. -/
theorem Cut.wrapVariablesAfter_eq (cut : Cut before rest pieces) :
    wrapVariablesAfter before.reverse false rest = pieces.flatMap (Piece.render Naming.use) := by
  induction cut with
  | nil => rfl
  | @char before rest c pieces passed _ ih =>
      have notStarts : ¬startsVariable before.reverse (c :: rest) = true := by
        rw [startsVariable_eq_true_iff]
        exact fun starts => starts.2 (passed starts.1)
      rw [List.reverse_append, List.reverse_singleton, List.singleton_append] at ih
      rw [wrapVariablesAfter, if_neg Bool.false_ne_true, if_neg notStarts, ih,
        List.flatMap_cons, Piece.render, List.singleton_append]
  | @reference before rest reference pieces isReference bare ends _ ih =>
      have inName := @wrapVariablesAfter_name reference isReference.isNameChar before.reverse true
        (.inl rfl) rest
      have starts : startsVariable before.reverse (reference ++ rest) = true :=
        startsVariable_eq_true_iff.mpr ⟨isReference.begins rest, bare⟩
      rw [wrapVariablesAfter_opening starts, inName, wrapVariablesAfter_closing ends,
        ← List.reverse_append, ih, List.flatMap_cons, Piece.render, Naming.use]
      simp only [List.append_assoc]
      rfl

/-! ## Places of a text -/

/-- A property of the texts before and after a place holds at all places of a rest. -/
def Everywhere (holds : Text → Text → Prop) (before rest : Text) : Prop :=
  ∀ front back, rest = front ++ back → holds (before ++ front) back

variable {holds : Text → Text → Prop} {before front rest : Text}

theorem everywhere_cons :
    Everywhere holds before (c :: rest) ↔
      holds before (c :: rest) ∧ Everywhere holds (before ++ [c]) rest := by
  constructor
  · intro everywhere
    refine ⟨by simpa using everywhere [] (c :: rest) rfl, ?_⟩
    rintro front back rfl
    simpa using everywhere (c :: front) back rfl
  · rintro ⟨here, later⟩ front back isRest
    cases front with
    | nil =>
        rw [List.nil_append] at isRest
        simpa [← isRest] using here
    | cons d front =>
        rw [List.cons_append, List.cons.injEq] at isRest
        simpa [← isRest.1] using later front back isRest.2

/-- Where nothing can fail inside the front, only the places after it count. -/
theorem everywhere_append
    (inFront : ∀ first second, front = first ++ second → second ≠ [] →
      holds (before ++ first) (second ++ rest)) :
    Everywhere holds before (front ++ rest) ↔ Everywhere holds (before ++ front) rest := by
  induction front generalizing before with
  | nil => simp
  | cons c front ih =>
      rw [List.cons_append, everywhere_cons, ih]
      · have here := inFront [] (c :: front) rfl (by simp)
        rw [List.append_nil] at here
        simp only [List.append_assoc, List.singleton_append]
        exact and_iff_right here
      · rintro first second rfl nonempty
        simpa using inFront (c :: first) second rfl nonempty

/-! ## Settled texts -/

/-- If a custom property begins at this place, it is not bare. -/
def GuardedAt (before after : Text) : Prop :=
  Begins after → IsGuarded before

/-- No custom property of the text is bare. -/
def IsSettled (text : Text) : Prop :=
  ∀ before after, text = before ++ after → Begins after → IsGuarded before

theorem isSettled_iff : IsSettled text ↔ Everywhere GuardedAt [] text := Iff.rfl

theorem Cut.length_le (cut : Cut before rest pieces) :
    rest.length ≤ (pieces.flatMap (Piece.render Naming.use)).length := by
  induction cut with
  | nil => simp
  | char _ _ ih =>
      simpa [Piece.render] using ih
  | reference _ _ _ _ ih =>
      simp only [List.flatMap_cons, Piece.render, Naming.use, List.length_append]
      omega

/-- Wrapping changes nothing exactly if there is no bare reference. -/
theorem Cut.eq_self_iff (cut : Cut before rest pieces) :
    pieces.flatMap (Piece.render Naming.use) = rest ↔ Everywhere GuardedAt before rest := by
  induction cut with
  | nil before =>
      refine iff_of_true rfl ?_
      rintro front back isNothing ⟨first, more, rfl, _⟩
      simp at isNothing
  | @char before rest c pieces passed _ ih =>
      rw [everywhere_cons, ← ih, List.flatMap_cons, Piece.render,
        List.singleton_append, List.cons.injEq]
      exact ⟨fun same => ⟨passed, same.2⟩, fun guarded => ⟨rfl, guarded.2⟩⟩
  | @reference before rest reference pieces isReference bare _ onwards _ =>
      constructor
      · intro same
        have longer := congrArg List.length same
        have notShorter := onwards.length_le
        have inserted : 0 < ("var(" : Text).length := by decide
        simp only [List.flatMap_cons, Piece.render, Naming.use, List.length_append] at longer
        omega
      · intro everywhere
        have guarded := everywhere [] _ rfl (isReference.begins rest)
        rw [List.append_nil] at guarded
        exact absurd guarded bare

/-! ## References that read like calls -/

/-- The text ends with a bare reference and a parenthesis that together read like an opened call. -/
def EndsCall (before : Text) : Prop :=
  ∃ front reference, before = front ++ (reference ++ [CodePoint.char '(']) ∧ ¬IsGuarded front ∧
    IsReference reference ∧ ("var" : Text) <:+ reference

/-- A custom property does not follow a reference that reads like a call. -/
def FreeAt (before after : Text) : Prop :=
  Begins after → ¬EndsCall before

/-- A bare reference whose name ends in `var` is followed by a parenthesis and a further custom
property. -/
def ReadsLikeCall (value : Text) : Prop :=
  ∃ before after, value = before ++ after ∧ Begins after ∧ EndsCall before

theorem not_readsLikeCall_iff : ¬ReadsLikeCall value ↔ Everywhere FreeAt [] value := by
  simp only [ReadsLikeCall, Everywhere, FreeAt, List.nil_append]
  exact ⟨fun free before after isValue begins ends => free ⟨before, after, isValue, begins, ends⟩,
    fun free => fun ⟨before, after, isValue, begins, ends⟩ => free before after isValue begins ends⟩

/-- No bare reference was passed between a place and the rest. -/
def Passes (start tail rest : Text) : Prop :=
  ∀ front back, tail = front ++ back → back ≠ [] → GuardedAt (start ++ front) (back ++ rest)

theorem passes_nil (start rest : Text) : Passes start [] rest := by
  intro front back isNothing nonempty
  exact absurd (List.append_eq_nil_iff.mp isNothing.symm).2 nonempty

theorem Passes.concat {start : Text} (passes : Passes start tail (c :: rest))
    (here : GuardedAt (start ++ tail) (c :: rest)) : Passes start (tail ++ [c]) rest := by
  intro front back isTail nonempty
  obtain ⟨back, last, rfl⟩ := List.eq_nil_or_concat back |>.resolve_left nonempty
  rw [List.concat_eq_append, ← List.append_assoc] at isTail
  obtain ⟨rfl, same⟩ := List.append_inj' isTail rfl
  rw [List.singleton_inj] at same
  rw [List.concat_eq_append, ← same, List.append_assoc]
  by_cases isEmpty : back = []
  · simpa [isEmpty] using here
  · exact passes front back rfl isEmpty

/-- What is read and what is written before a rest are the same since the last reference, or from
the start if there was none. -/
inductive Tracks (rest : Text) : Text → Text → Prop where
  | start {tail : Text} (passes : Passes [] tail rest) : Tracks rest tail tail
  | since {front reference tail written : Text} (isReference : IsReference reference)
      (ends : ∀ c ∈ (tail ++ rest).head?, isNameChar c = false)
      (bare : ¬IsGuarded front) (passes : Passes (front ++ reference) tail rest) :
      Tracks rest (front ++ reference ++ tail) (written ++ CodePoint.char ')' :: tail)

theorem Tracks.concat (tracks : Tracks (c :: rest) before written)
    (here : GuardedAt before (c :: rest)) : Tracks rest (before ++ [c]) (written ++ [c]) := by
  cases tracks with
  | start passes => exact .start (passes.concat here)
  | @since front reference tail written isReference ends bare passes =>
      rw [List.append_assoc _ tail, List.append_assoc written, List.cons_append]
      exact .since isReference (by simpa using ends) bare (passes.concat here)

theorem tracks_use (isReference : IsReference reference)
    (ends : ∀ c ∈ rest.head?, isNameChar c = false) (bare : ¬IsGuarded before) :
    Tracks rest (before ++ reference) (written ++ Naming.use reference) := by
  have since := @Tracks.since rest before reference [] (written ++ "var(" ++ reference)
    isReference ends bare (passes_nil _ rest)
  rw [List.append_nil, List.append_assoc, List.append_assoc] at since
  exact since

theorem Passes.isGuarded {start : Text} (passes : Passes start tail rest)
    (isTail : tail = front ++ (reference ++ [CodePoint.char '(']))
    (isReference : IsReference reference) : IsGuarded (start ++ front) := by
  refine passes front _ isTail (by simp) ?_
  rw [List.append_assoc]
  exact isReference.begins _

/-- Of a name with a parenthesis, only the parenthesis begins with no character of a name. -/
theorem eq_parenthesis_of_suffix {name : Text} (areNames : ∀ c ∈ name, isNameChar c = true)
    (isSuffix : tail <:+ name ++ [CodePoint.char '('])
    (ends : ∀ c ∈ tail.head?, isNameChar c = false) (nonempty : tail ≠ []) :
    tail = [.char '('] := by
  obtain ⟨inName, rfl, isEnd⟩ := (List.suffix_concat_iff.mp isSuffix).resolve_left nonempty
  cases inName with
  | nil => rfl
  | cons c inName =>
      have notName : isNameChar c = false := ends c rfl
      rw [areNames c (isEnd.subset List.mem_cons_self)] at notName
      exact absurd notName.symm Bool.false_ne_true

theorem IsReference.suffix_of_append (isReference : IsReference reference)
    (isSuffix : ("var" : Text) <:+ front ++ reference) : ("var" : Text) <:+ reference := by
  rcases List.suffix_or_suffix_of_suffix isSuffix (List.suffix_append front reference) with
    isEnd | isPart
  · exact isEnd
  · obtain ⟨first, more, rfl, _⟩ := isReference
    exact absurd (isPart.subset List.mem_cons_self) (by decide)

/-- No opened call reaches back over a closing parenthesis. -/
theorem suffix_of_closing (isSuffix : ("var(" : Text) <:+ written ++ CodePoint.char ')' :: tail) :
    ("var(" : Text) <:+ tail := by
  rcases List.suffix_or_suffix_of_suffix isSuffix (List.suffix_append written _) with
    isEnd | isPart
  · rcases List.suffix_cons_iff.mp isEnd with same | isEnd
    · exact absurd (congrArg List.head? same) (by simp; decide)
    · exact isEnd
  · exact absurd (isPart.subset List.mem_cons_self) (by decide)

section AfterReference

variable {start front reference tail written : Text}

/-- A guard that is still there in what is written is no end of a reference. -/
theorem not_endsCall_of_isGuarded (passes : Passes start tail rest) (nonempty : tail ≠ [])
    (ends : ∀ c ∈ tail.head?, isNameChar c = false)
    (guarded : IsGuarded (written ++ CodePoint.char ')' :: tail)) : ¬EndsCall (start ++ tail) := by
  rintro ⟨otherFront, other, isBefore, bare, isOther, _⟩
  have isLast : tail.getLast? = some (.char '(') := by
    rw [← List.getLast?_append_of_ne_nil start nonempty, isBefore, ← List.append_assoc,
      List.getLast?_concat]
  have opened : ("var(" : Text) <:+ tail := by
    rcases guarded with isSuffix | ⟨c, isChar, isName⟩
    · exact suffix_of_closing isSuffix
    · rw [List.append_cons, List.getLast?_append_of_ne_nil _ nonempty, isLast,
        Option.mem_some_iff] at isChar
      rw [← isChar] at isName
      exact absurd isName (by decide)
  -- The other reference lies within the tail, where none was passed, or the tail within it.
  have isSuffix : other ++ [CodePoint.char '('] <:+ start ++ tail :=
    isBefore ▸ List.suffix_append _ _
  rcases List.suffix_or_suffix_of_suffix isSuffix (List.suffix_append _ tail) with
    ⟨between, isTail⟩ | isPart
  · have isFront : otherFront = start ++ between := by
      rw [← isTail, ← List.append_assoc] at isBefore
      exact (List.append_cancel_right isBefore).symm
    exact bare (isFront ▸ passes.isGuarded isTail.symm isOther)
  · rw [eq_parenthesis_of_suffix isOther.isNameChar isPart ends nonempty] at opened
    exact absurd opened.length_le (by decide)

/-- A guard that is no end of a reference is still there in what is written. -/
theorem isGuarded_of_not_endsCall (isReference : IsReference reference) (bare : ¬IsGuarded front)
    (nonempty : tail ≠ []) (ends : ∀ c ∈ tail.head?, isNameChar c = false)
    (guarded : IsGuarded (front ++ reference ++ tail))
    (notCall : ¬EndsCall (front ++ reference ++ tail)) :
    IsGuarded (written ++ CodePoint.char ')' :: tail) := by
  rcases guarded with opened | ⟨c, isChar, isName⟩
  · rcases List.suffix_or_suffix_of_suffix opened (List.suffix_append _ tail) with inTail | isPart
    · exact .inl (inTail.trans ((List.suffix_cons _ _).trans (List.suffix_append _ _)))
    · have isParenthesis : tail = [.char '('] :=
        @eq_parenthesis_of_suffix tail "var" (by decide) isPart ends nonempty
      rw [isParenthesis] at opened notCall
      have endsVar : ("var" : Text) <:+ front ++ reference := by
        have isCall : ("var(" : Text) = ("var" : Text) ++ [CodePoint.char '('] := rfl
        obtain ⟨before, isVar, isSuffix⟩ :=
          (List.suffix_concat_iff.mp opened).resolve_left (by decide)
        rw [isCall] at isVar
        rwa [List.append_cancel_right isVar]
      exact absurd ⟨front, reference, List.append_assoc _ _ _, bare, isReference,
        isReference.suffix_of_append endsVar⟩ notCall
  · refine .inr ⟨c, ?_, isName⟩
    rw [List.append_cons, List.getLast?_append_of_ne_nil _ nonempty]
    rwa [List.getLast?_append_of_ne_nil _ nonempty] at isChar

end AfterReference

/-- A guard in what is read is one in what is written, unless it is the end of a reference. -/
theorem Tracks.isGuarded_iff (tracks : Tracks rest before written) (begins : Begins rest)
    (guarded : IsGuarded before) : IsGuarded written ↔ ¬EndsCall before := by
  cases tracks with
  | start passes =>
      refine iff_of_true guarded ?_
      rintro ⟨front, reference, isTail, bare, isReference, _⟩
      exact bare (passes.isGuarded isTail isReference)
  | @since front reference tail written isReference ends bare passes =>
      -- The rest begins with a hyphen, so something stands between the reference and the rest.
      have nonempty : tail ≠ [] := by
        rintro rfl
        obtain ⟨first, more, rfl, _⟩ := begins
        exact absurd (ends (.char '-') rfl) (by decide)
      rw [List.head?_append_of_ne_nil _ nonempty] at ends
      exact ⟨not_endsCall_of_isGuarded passes nonempty ends,
        isGuarded_of_not_endsCall isReference bare nonempty ends guarded⟩

/-! ## What is written -/

/-- After a character of a name comes a single character again. -/
theorem Cut.cases_of_isNameChar (isName : isNameChar c = true)
    (cut : Cut (before ++ [c]) rest pieces) :
    (rest = [] ∧ pieces = []) ∨ ∃ next more others, rest = next :: more ∧
      pieces = .char next :: others ∧ Cut (before ++ [c] ++ [next]) more others := by
  cases cut with
  | nil => exact .inl ⟨rfl, rfl⟩
  | char _ onwards => exact .inr ⟨_, _, _, rfl, rfl, onwards⟩
  | reference _ bare => exact absurd (isGuarded_concat isName) bare

theorem Cut.begins_iff (cut : Cut (before ++ [c]) rest pieces) :
    Begins (c :: pieces.flatMap (Piece.render Naming.use)) ↔ Begins (c :: rest) := by
  by_cases isHyphen : c = .char '-'
  · subst isHyphen
    rcases cut.cases_of_isNameChar isNameChar_hyphen with
      ⟨rfl, rfl⟩ | ⟨next, more, others, rfl, rfl, onwards⟩
    · rfl
    · by_cases isSecond : next = .char '-'
      · subst isSecond
        rcases onwards.cases_of_isNameChar isNameChar_hyphen with
          ⟨rfl, rfl⟩ | ⟨third, more, others, rfl, rfl, _⟩
        · rfl
        · simp [Begins, Piece.render]
      · simp [Begins, Piece.render, isSecond]
  · simp [Begins, isHyphen]

theorem isGuarded_append_of_name (areNames : ∀ c ∈ front, isNameChar c = true)
    (nonempty : front ≠ []) : IsGuarded (before ++ front) := by
  obtain ⟨inner, last, rfl⟩ := (List.eq_nil_or_concat front).resolve_left nonempty
  rw [List.concat_eq_append] at areNames ⊢
  rw [← List.append_assoc]
  exact isGuarded_concat (areNames last (by simp))

/-- What is written for a reference is guarded all through. -/
theorem guardedAt_use {first second : Text} (isReference : IsReference reference)
    (isUse : Naming.use reference = first ++ second) (nonempty : second ≠ []) :
    GuardedAt (written ++ first) (second ++ rest) := by
  intro begins
  have isHyphen : second.head? = some (.char '-') := by
    obtain ⟨_, _, isText, _⟩ := begins
    rw [← List.head?_append_of_ne_nil second nonempty, isText, List.head?_cons]
  rw [Naming.use, List.append_assoc] at isUse
  rcases List.append_eq_append_iff.mp isUse with ⟨inner, rfl, isRest⟩ | ⟨inner, isOpening, isSecond⟩
  · by_cases atStart : inner = []
    · rw [atStart, List.append_nil]
      exact .inl (List.suffix_append _ _)
    · rcases List.append_eq_append_iff.mp isRest with ⟨last, rfl, isClosing⟩ | ⟨last, rfl, _⟩
      · have isMember : .char '-' ∈ (")" : Text) := by
          rw [isClosing]
          exact List.mem_append_right _ (List.mem_of_mem_head? isHyphen)
        exact absurd isMember (by decide)
      · rw [← List.append_assoc]
        exact isGuarded_append_of_name
          (fun c isChar => isReference.isNameChar c (List.mem_append_left _ isChar)) atStart
  · cases inner with
    | nil =>
        rw [List.append_nil] at isOpening
        exact .inl (isOpening ▸ List.suffix_append _ _)
    | cons c inner =>
        rw [isSecond, List.cons_append, List.head?_cons, Option.some.injEq] at isHyphen
        have isMember : .char '-' ∈ ("var(" : Text) := by
          rw [isOpening, isHyphen]
          simp
        exact absurd isMember (by decide)

theorem EndsCall.isGuarded (ends : EndsCall before) : IsGuarded before := by
  obtain ⟨front, reference, rfl, _, _, ⟨start, rfl⟩⟩ := ends
  exact .inl ⟨front ++ start, by simp [Text.ofString, Text.ofChars]⟩

theorem freeAt_reference {first second : Text} (isReference : IsReference reference)
    (bare : ¬IsGuarded before) (isBoth : reference = first ++ second) :
    FreeAt (before ++ first) (second ++ rest) := by
  intro _ ends
  by_cases atStart : first = []
  · rw [atStart, List.append_nil] at ends
    exact bare ends.isGuarded
  · obtain ⟨front, other, isText, _⟩ := ends
    have isLast : first.getLast? = some (.char '(') := by
      rw [← List.getLast?_append_of_ne_nil before atStart, isText, ← List.append_assoc,
        List.getLast?_concat]
    have isName := isReference.isNameChar (.char '(')
      (by rw [isBoth]; exact List.mem_append_left _ (List.mem_of_getLast? isLast))
    exact absurd isName (by decide)

/-- What is written is settled exactly if no reference reads like a call. -/
theorem Cut.everywhere_iff (cut : Cut before rest pieces) (tracks : Tracks rest before written) :
    Everywhere GuardedAt written (pieces.flatMap (Piece.render Naming.use)) ↔
      Everywhere FreeAt before rest := by
  induction cut generalizing written with
  | nil before =>
      refine iff_of_true ?_ ?_ <;>
      · rintro front back isNothing ⟨first, more, rfl, _⟩
        simp at isNothing
  | @char before rest c pieces passed onwards ih =>
      have here : GuardedAt written (c :: pieces.flatMap (Piece.render Naming.use)) ↔
          FreeAt before (c :: rest) := by
        rw [GuardedAt, FreeAt, onwards.begins_iff]
        exact imp_congr_right fun begins => tracks.isGuarded_iff begins (passed begins)
      rw [List.flatMap_cons, Piece.render, List.singleton_append, everywhere_cons, everywhere_cons,
        here, ih (tracks.concat passed)]
  | @reference before rest reference pieces isReference bare ends _ ih =>
      rw [List.flatMap_cons, Piece.render,
        everywhere_append fun first second => guardedAt_use isReference,
        everywhere_append fun first second isBoth _ => freeAt_reference isReference bare isBoth,
        ih (tracks_use isReference ends bare)]

theorem isSettled_wrapVariables_iff : IsSettled (wrapVariables value) ↔ ¬ReadsLikeCall value := by
  obtain ⟨pieces, cut⟩ := exists_cut [] value
  have isWrapped : wrapVariables value = pieces.flatMap (Piece.render Naming.use) :=
    cut.wrapVariablesAfter_eq
  rw [isSettled_iff, isWrapped, cut.everywhere_iff (.start (passes_nil [] value)),
    not_readsLikeCall_iff]

theorem wrapVariables_eq_self_iff : wrapVariables value = value ↔ IsSettled value := by
  obtain ⟨pieces, cut⟩ := exists_cut [] value
  have isWrapped : wrapVariables value = pieces.flatMap (Piece.render Naming.use) :=
    cut.wrapVariablesAfter_eq
  rw [isWrapped, cut.eq_self_iff, isSettled_iff]

/-- Wrapping puts the bare references of a value into calls and changes nothing else. It leaves no
bare reference, and then changes nothing when it is done again, exactly if no reference of the value
reads like an opened call with what follows it. -/
theorem wrapVariables_stable_iff (value : Text) :
    (∃ pieces, Cut [] value pieces ∧ value = pieces.flatMap (Piece.render id) ∧
      wrapVariables value = pieces.flatMap (Piece.render Naming.use)) ∧
    (wrapVariables (wrapVariables value) = wrapVariables value ↔ ¬ReadsLikeCall value) ∧
    (IsSettled (wrapVariables value) ↔ ¬ReadsLikeCall value) := by
  obtain ⟨pieces, cut⟩ := exists_cut [] value
  refine ⟨⟨pieces, cut, cut.flatMap_eq.symm, cut.wrapVariablesAfter_eq⟩, ?_,
    isSettled_wrapVariables_iff⟩
  rw [wrapVariables_eq_self_iff, isSettled_wrapVariables_iff]

/-- The first reference ends like an opened call, so the second one is wrapped only by a second
pass. -/
theorem wrapVariables_unstable_call :
    let value : Text := "--xvar(--y)"
    wrapVariables value = "var(--xvar)(--y)" ∧
      wrapVariables (wrapVariables value) = "var(--xvar)(var(--y))" ∧
      wrapVariables (wrapVariables value) ≠ wrapVariables value ∧
      ¬IsSettled (wrapVariables value) := by
  intro value
  have isChanged : wrapVariables (wrapVariables value) ≠ wrapVariables value := by decide +kernel
  exact ⟨by decide +kernel, by decide +kernel, isChanged,
    mt wrapVariables_eq_self_iff.mpr isChanged⟩

end Value

end TerseStyle

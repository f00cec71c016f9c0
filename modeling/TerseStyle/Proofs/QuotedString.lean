import TerseStyle.Proofs.Naming
import TerseStyle.Proofs.Wrapping

/-!
# Quoted strings

A string ends at the first quotation mark that no backslash takes away. Quoting a value puts a
backslash before each of its quotation marks and leaves its own backslashes alone, so what is
written is read as one string exactly if no quotation mark of the value, and not its end, follows an
odd number of backslashes (`Value.readString?_content_iff`). Parts of a value that have neither
quotation marks nor backslashes may be written anew: this changes nothing about how it is read.
-/

namespace TerseStyle

namespace Value

open Reference (Within)

variable {text value rest following left right : Text} {escaped : Bool}

/-! ## Reading a string -/

/-- What follows the string in double quotation marks of which the text is the rest. A backslash
takes away the meaning of the character after it. -/
def afterString? (escaped : Bool) : Text → Option Text
  | [] => none
  | c :: rest =>
    if escaped then afterString? false rest
    else if c = .char '"' then some rest
    else afterString? (c == .char '\\') rest

/-- What follows the string that the text begins with. -/
def readString? : Text → Option Text
  | .char '"' :: rest => afterString? false rest
  | _ => none

/-- The text has a quotation mark at both ends. -/
def IsQuoted (text : Text) : Prop :=
  ∃ mark middle, (mark = .char '"' ∨ mark = .char '\'') ∧ text = mark :: (middle ++ [mark])

/-- No quotation mark of the value, and not its end, stands directly after an odd number of
backslashes. -/
def KeepsString (value : Text) : Prop :=
  ∀ before after, value = before ++ after → (∀ c ∈ after.head?, c = .char '"') →
    Even (before.reverse.takeWhile (· == .char '\\')).length

/-- Whether a backslash takes away the meaning of what follows the text. There is no answer if it
does so for a quotation mark of the text. -/
def escapedAfter? (escaped : Bool) : Text → Option Bool
  | [] => some escaped
  | c :: rest =>
    if escaped && c == .char '"' then none
    else escapedAfter? (!escaped && c == .char '\\') rest

theorem length_afterString? (reads : afterString? escaped text = some rest) :
    rest.length < text.length := by
  induction text generalizing escaped with
  | nil => simp [afterString?] at reads
  | cons c more ih =>
      rw [afterString?] at reads
      rw [List.length_cons]
      split at reads
      · exact Nat.lt_succ_of_lt (ih reads)
      · split at reads
        · rw [Option.some.injEq] at reads
          rw [reads]
          exact Nat.lt_succ_self _
        · exact Nat.lt_succ_of_lt (ih reads)

/-- The quotation marks of a value with a backslash before each. -/
def escape (value : Text) : Text :=
  Text.replaceChar '"' ['\\', '"'] value

theorem escape_cons (c : CodePoint) (rest : Text) : escape (c :: rest) =
    if c = .char '"' then .char '\\' :: .char '"' :: escape rest else c :: escape rest := by
  rw [escape, Text.replaceChar, List.flatMap_cons]
  split
  · rfl
  · rfl

/-- The mark that closes an escaped value ends the string exactly if the backslashes of the value
leave every mark as it is. -/
theorem afterString?_escape_iff :
    afterString? escaped (escape value ++ .char '"' :: following) = some following ↔
      escapedAfter? escaped value = some false := by
  induction value generalizing escaped with
  | nil =>
      have isMark : escape [] ++ .char '"' :: following = .char '"' :: following := rfl
      rw [isMark, afterString?, escapedAfter?]
      cases escaped with
      | false => simp
      | true =>
          simp only [if_true, Option.some.injEq, Bool.true_eq_false, iff_false]
          intro reads
          exact absurd (length_afterString? reads) (lt_irrefl _)
  | cons c more ih =>
      rw [escape_cons, escapedAfter?]
      by_cases isMark : c = .char '"'
      · have notBackslash : (CodePoint.char '"' == .char '\\') = false := by decide
        have isBackslash : (CodePoint.char '\\' == .char '\\') = true := by decide
        have notMark : CodePoint.char '\\' ≠ .char '"' := by decide
        rw [if_pos isMark, isMark, List.cons_append, List.cons_append, afterString?]
        cases escaped with
        | false =>
            rw [if_neg Bool.false_ne_true, if_neg notMark, isBackslash, afterString?, if_pos rfl,
              ih]
            simp [notBackslash]
        | true =>
            -- The backslash that is put in is taken away itself, and the mark ends the string.
            rw [if_pos rfl, afterString?, if_neg Bool.false_ne_true, if_pos rfl]
            simp only [Bool.true_and, beq_self_eq_true, if_true, reduceCtorEq, iff_false,
              Option.some.injEq]
            intro same
            have sameLength := congrArg List.length same
            rw [List.length_append, List.length_cons] at sameLength
            omega
      · rw [if_neg isMark, List.cons_append, afterString?]
        have notMark : (c == CodePoint.char '"') = false := beq_eq_false_iff_ne.mpr isMark
        cases escaped with
        | false => simp [isMark, ih]
        | true => simp [notMark, ih]

theorem escapedAfter?_eq_some_false_iff (before : Text) :
    escapedAfter? (decide (Odd (before.reverse.takeWhile (· == .char '\\')).length)) value =
      some false ↔
    ∀ inner after, value = inner ++ after → (∀ c ∈ after.head?, c = .char '"') →
      Even ((before ++ inner).reverse.takeWhile (· == .char '\\')).length := by
  induction value generalizing before with
  | nil =>
      rw [escapedAfter?, Option.some.injEq, decide_eq_false_iff_not, Nat.not_odd_iff_even]
      constructor
      · intro isEven inner after isNothing _
        rwa [(List.append_eq_nil_iff.mp isNothing.symm).1, List.append_nil]
      · intro areEven
        simpa using areEven [] [] rfl (by simp)
  | cons c more ih =>
      have onwards : (!decide (Odd (before.reverse.takeWhile (· == .char '\\')).length) &&
          c == .char '\\') =
          decide (Odd ((before ++ [c]).reverse.takeWhile (· == .char '\\')).length) := by
        rw [List.reverse_append, List.reverse_singleton, List.singleton_append, List.takeWhile_cons]
        by_cases isBackslash : (c == CodePoint.char '\\') = true
        · rw [if_pos isBackslash, isBackslash, Bool.and_true, List.length_cons, ← decide_not,
            decide_eq_decide]
          exact Nat.odd_add_one.symm
        · simp [isBackslash]
      rw [escapedAfter?]
      split
      · next isTaken =>
        rw [Bool.and_eq_true, decide_eq_true_eq, beq_iff_eq] at isTaken
        refine iff_of_false (by simp) fun areEven => ?_
        have isEven := areEven [] (c :: more) rfl (by simp [isTaken.2])
        rw [List.append_nil] at isEven
        exact Nat.not_even_iff_odd.mpr isTaken.1 isEven
      · next isKept =>
        rw [onwards, ih]
        constructor
        · intro areEven inner after isValue isMark
          cases inner with
          | nil =>
              rw [List.nil_append] at isValue
              rw [← isValue] at isMark
              rw [Bool.and_eq_true, decide_eq_true_eq, beq_iff_eq, not_and'] at isKept
              rw [List.append_nil]
              exact Nat.not_odd_iff_even.mp (isKept (isMark c (by simp)))
          | cons d inner =>
              rw [List.cons_append, List.cons.injEq] at isValue
              rw [← isValue.1, List.append_cons]
              exact areEven inner after isValue.2 isMark
        · intro areEven inner after isMore isMark
          have isEven := areEven (c :: inner) after (by rw [isMore, List.cons_append]) isMark
          rwa [List.append_cons] at isEven

theorem keepsString_iff : KeepsString value ↔ escapedAfter? false value = some false :=
  (escapedAfter?_eq_some_false_iff []).symm

instance (value : Text) : Decidable (KeepsString value) :=
  decidable_of_iff _ keepsString_iff.symm

/-! ## Quoting -/

theorem quoted_of_not_isQuoted (notQuoted : ¬IsQuoted value) :
    quoted value = CodePoint.char '"' :: (escape value ++ [CodePoint.char '"']) := by
  have written : ("\"" : Text) ++ Text.replaceChar '"' ['\\', '"'] value ++ ("\"" : Text) =
      .char '"' :: (escape value ++ [CodePoint.char '"']) := rfl
  unfold quoted
  rw [← written]
  apply if_neg
  simp only [Bool.not_eq_true]
  split
  · next first second others =>
    rw [Bool.and_eq_false_iff]
    by_contra isQuoted
    rw [not_or, Bool.not_eq_false, Bool.not_eq_false, Bool.or_eq_true, beq_iff_eq, beq_iff_eq,
      beq_iff_eq] at isQuoted
    rw [List.getLast?_cons_cons] at isQuoted
    rcases List.getLast?_eq_some_iff.mp isQuoted.2 with ⟨middle, isRest⟩
    exact notQuoted ⟨first, middle, isQuoted.1, by rw [isRest]⟩
  · rfl

/-! ## Parts that are written anew -/

/-- No character of the text has a meaning in strings. -/
def IsInert (text : Text) : Prop :=
  ∀ c ∈ text, c ∉ ("\"'\\" : Text)

/-- The second text is the first with some parts written anew, before and after which they have no
quotation mark and no backslash. -/
inductive Alike : Text → Text → Prop where
  | nil : Alike [] []
  | char (c : CodePoint) {left right : Text} (onwards : Alike left right) :
      Alike (c :: left) (c :: right)
  | part {old new left right : Text} (oldNonempty : old ≠ []) (newNonempty : new ≠ [])
      (oldInert : IsInert old) (newInert : IsInert new) (onwards : Alike left right) :
      Alike (old ++ left) (new ++ right)

theorem escapedAfter?_append (nonempty : left ≠ []) (inert : IsInert left) :
    escapedAfter? escaped (left ++ right) = escapedAfter? false right := by
  induction left generalizing escaped with
  | nil => exact absurd rfl nonempty
  | cons c more ih =>
      have notSpecial := inert c List.mem_cons_self
      have notMark : (c == CodePoint.char '"') = false := by
        rw [beq_eq_false_iff_ne]
        rintro rfl
        exact notSpecial (by decide)
      have notBackslash : (c == CodePoint.char '\\') = false := by
        rw [beq_eq_false_iff_ne]
        rintro rfl
        exact notSpecial (by decide)
      rw [List.cons_append, escapedAfter?, notMark, notBackslash, Bool.and_false, Bool.and_false,
        if_neg Bool.false_ne_true]
      by_cases atEnd : more = []
      · rw [atEnd, List.nil_append]
      · exact ih atEnd fun d isChar => inert d (List.mem_cons_of_mem _ isChar)

theorem Alike.escapedAfter?_eq (alike : Alike left right) :
    escapedAfter? escaped left = escapedAfter? escaped right := by
  induction alike generalizing escaped with
  | nil => rfl
  | char c _ ih =>
      rw [escapedAfter?, escapedAfter?, ih]
  | part oldNonempty newNonempty oldInert newInert _ ih =>
      rw [escapedAfter?_append oldNonempty oldInert, escapedAfter?_append newNonempty newInert,
        ih]

theorem Alike.eq_nil (alike : Alike left []) : left = [] := by
  generalize isRight : ([] : Text) = right at alike
  cases alike with
  | nil => rfl
  | char c _ => simp at isRight
  | part _ newNonempty _ _ _ => exact absurd (List.append_eq_nil_iff.mp isRight.symm).1 newNonempty

theorem Alike.getLast? (alike : Alike left right) {mark : CodePoint}
    (isMark : mark ∈ ("\"'\\" : Text)) (isLast : right.getLast? = some mark) :
    left.getLast? = some mark := by
  induction alike with
  | nil => exact isLast
  | @char c left right onwards ih =>
      by_cases atEnd : right = []
      · rw [atEnd] at onwards isLast
        rw [onwards.eq_nil]
        exact isLast
      · rw [← List.singleton_append, List.getLast?_append_of_ne_nil _ atEnd] at isLast
        rw [← List.singleton_append, List.getLast?_append, ih isLast]
        rfl
  | @part old new left right _ _ _ newInert onwards ih =>
      by_cases atEnd : right = []
      · rw [atEnd, List.append_nil] at isLast
        exact absurd isMark (newInert mark (List.mem_of_getLast? isLast))
      · rw [List.getLast?_append_of_ne_nil _ atEnd] at isLast
        rw [List.getLast?_append, ih isLast]
        rfl

theorem Alike.isQuoted (alike : Alike left right) (isQuoted : IsQuoted right) : IsQuoted left := by
  rcases isQuoted with ⟨mark, middle, isMark, isRight⟩
  have inMarks : mark ∈ ("\"'\\" : Text) := by
    rcases isMark with rfl | rfl <;> decide
  cases alike with
  | nil => simp at isRight
  | char c onwards =>
      rw [List.cons.injEq] at isRight
      have isLast := onwards.getLast? inMarks (by rw [isRight.2, List.getLast?_concat])
      rcases List.getLast?_eq_some_iff.mp isLast with ⟨inner, rfl⟩
      exact ⟨mark, inner, isMark, by rw [isRight.1]⟩
  | @part old new left right _ newNonempty _ newInert _ =>
      cases new with
      | nil => exact absurd rfl newNonempty
      | cons first others =>
          rw [List.cons_append, List.cons.injEq] at isRight
          rw [← isRight.1] at inMarks
          exact absurd inMarks (newInert first List.mem_cons_self)

/-- Two values are read alike once they are quoted. -/
structure QuotesAlike (left right : Text) : Prop where
  isQuoted : IsQuoted right → IsQuoted left
  escapedAfter : ∀ escaped, escapedAfter? escaped left = escapedAfter? escaped right

theorem Alike.quotesAlike (alike : Alike left right) : QuotesAlike left right :=
  ⟨alike.isQuoted, fun _ => alike.escapedAfter?_eq⟩

theorem QuotesAlike.trans {middle : Text} (first : QuotesAlike left middle)
    (second : QuotesAlike middle right) : QuotesAlike left right where
  isQuoted isQuoted := first.isQuoted (second.isQuoted isQuoted)
  escapedAfter escaped := (first.escapedAfter escaped).trans (second.escapedAfter escaped)

theorem not_mem_of_isNameChar {c : CodePoint} (isName : isNameChar c = true) :
    c ∉ ("\"'\\" : Text) := by
  have noneIsName : ∀ c ∈ ("\"'\\" : Text), isNameChar c = false := by decide
  intro isSpecial
  rw [noneIsName c isSpecial] at isName
  exact absurd isName (by simp)

theorem isInert_of_isNameChar (areNames : ∀ c ∈ text, isNameChar c = true) : IsInert text :=
  fun c isChar => not_mem_of_isNameChar (areNames c isChar)

instance (text : Text) : Decidable (IsInert text) :=
  inferInstanceAs (Decidable (∀ c ∈ text, c ∉ ("\"'\\" : Text)))

theorem isInert_append : IsInert (left ++ right) ↔ IsInert left ∧ IsInert right :=
  List.forall_mem_append

theorem isInert_render {reference : Reference} (wellNamed : reference.WellNamed) :
    IsInert reference.render := by
  have noneIsSpecial : IsInert (Reference.opening :: Reference.closing :: ("$&@:" : Text)) := by
    decide
  intro c isChar
  rcases Reference.mem_render wellNamed isChar with isName | isOther
  · exact not_mem_of_isNameChar isName
  · exact noneIsSpecial c isOther

/-- A text in which a recogniser finds inert parts only, and they are written as such. -/
theorem alike_replaceItems {α : Type} {recognise : Recogniser α} {write : α → Text}
    (covers : ∀ {text item width}, recognise text = some (item, width) →
      ∃ covered rest, text = covered ++ rest ∧ covered.length = width ∧ covered ≠ [] ∧
        IsInert covered ∧ write item ≠ [] ∧ IsInert (write item)) (text : Text) :
    Alike text (Text.replaceItems recognise write text) := by
  induction hasLength : text.length using Nat.strong_induction_on generalizing text with
  | _ length ih =>
      cases text with
      | nil => exact .nil
      | cons c rest =>
          cases found : recognise (c :: rest) with
          | none =>
              rw [Text.replaceItems, Text.pieces_cons_of_none found, List.flatMap_cons]
              exact .char c (ih rest.length (by simp [← hasLength]) rest rfl)
          | some result =>
              rcases covers found with
                ⟨covered, after, isText, isWidth, nonempty, inert, newNonempty, newInert⟩
              cases covered with
              | nil => exact absurd rfl nonempty
              | cons first covered =>
                  have isFound : recognise (first :: covered ++ after) =
                      some (result.1, (first :: covered).length) := by
                    rw [← isText, found, isWidth]
                  have shorter : after.length < length := by
                    rw [← hasLength, isText, List.length_append, List.length_cons]
                    omega
                  rw [isText, Text.replaceItems, Text.pieces_append_of_some isFound,
                    List.flatMap_cons]
                  exact .part nonempty newNonempty inert newInert
                    (ih after.length shorter after rfl)

theorem alike_referLocals (text : Text) : Alike text (referLocals text) := by
  apply alike_replaceItems
  intro text name width found
  have isName := isName_of_recogniseLocal found
  have wellNamed : (Reference.localVariable name).WellNamed := isName
  unfold recogniseLocal at found
  split at found
  · next rest =>
    simp only at found
    split at found
    · simp at found
    · simp only [Option.some.injEq, Prod.mk.injEq] at found
      refine ⟨("--&" : Text) ++ name, rest.dropWhile isNameChar, ?_, ?_,
        List.append_ne_nil_of_left_ne_nil (by decide) _, ?_, List.cons_ne_nil _ _,
        isInert_render wellNamed⟩
      · rw [← found.1, List.append_assoc, List.takeWhile_append_dropWhile]
        rfl
      · rw [← found.2, found.1, List.length_append, Nat.add_comm]
        rfl
      · rw [isInert_append]
        exact ⟨by decide, isInert_of_isNameChar isName.2⟩
  · simp at found

theorem Cut.alike {before : Text} {pieces : List (Piece Text)} (cut : Cut before text pieces) :
    Alike text (pieces.flatMap (Piece.render Naming.use)) := by
  induction cut with
  | nil => exact .nil
  | char _ _ ih => exact .char _ ih
  | @reference _ _ reference _ isReference _ _ _ ih =>
      have inert := isInert_of_isNameChar isReference.isNameChar
      rw [List.flatMap_cons, Piece.render]
      refine .part ?_ (List.append_ne_nil_of_right_ne_nil _ (by decide)) inert ?_
        ih
      · rcases isReference with ⟨first, more, rfl, _⟩
        exact List.cons_ne_nil _ _
      · rw [Naming.use, isInert_append, isInert_append]
        exact ⟨⟨by decide, inert⟩, by decide⟩

theorem alike_wrapVariables (value : Text) : Alike value (wrapVariables value) := by
  rcases exists_cut [] value with ⟨pieces, cut⟩
  have isWrapped : wrapVariables value = pieces.flatMap (Piece.render Naming.use) :=
    cut.wrapVariablesAfter_eq
  rw [isWrapped]
  exact cut.alike

/-! ## What is written for a value -/

variable {used : Names} {owner : Text}

theorem isInert_use (ofOwner : ∀ c ∈ owner, isNameChar c = true) {name : Text}
    (ofName : ∀ c ∈ name, isNameChar c = true) :
    IsInert (Naming.use (Naming.localVariable name owner)) := by
  simp only [Naming.use, Naming.localVariable, isInert_append]
  exact ⟨⟨by decide, ⟨⟨by decide, isInert_of_isNameChar ofName⟩, by decide⟩,
    isInert_of_isNameChar ofOwner⟩, by decide⟩

theorem escape_append (left right : Text) : escape (left ++ right) = escape left ++ escape right :=
  List.flatMap_append

theorem escape_of_isInert (inert : IsInert text) : escape text = text := by
  apply replaceChar_of_notMem
  intro isMark
  exact inert _ isMark (by decide)

section

variable {allowed : Reference → Prop} {write : Reference → Text} (within : Within allowed text)
  (writes : ∀ reference, allowed reference → reference.WellNamed →
    write reference ≠ [] ∧ IsInert (write reference))
include within writes

theorem alike_rewrite : Alike text (Reference.rewrite write text) := by
  induction within with
  | nil => exact .nil
  | char unreserved _ ih =>
      rw [Reference.rewrite_cons unreserved.1]
      exact .char _ ih
  | @reference reference rest wellNamed isAllowed _ ih =>
      rw [Reference.rewrite_render_append wellNamed]
      have isWritten := writes reference isAllowed wellNamed
      refine .part ?_ isWritten.1 (isInert_render wellNamed) isWritten.2 ih
      cases reference <;> exact List.cons_ne_nil _ _

/-- References are written alike before and after the text around them is escaped. -/
theorem rewrite_escape_append (ending : Text) :
    Reference.rewrite write (escape text ++ ending) =
      escape (Reference.rewrite write text) ++ Reference.rewrite write ending := by
  induction within with
  | nil => rfl
  | @char c rest unreserved _ ih =>
      rw [Reference.rewrite_cons unreserved.1, escape_cons, escape_cons]
      split
      · rw [List.cons_append, List.cons_append, Reference.rewrite_cons (by decide),
          Reference.rewrite_cons (by decide), ih, List.cons_append,
          List.cons_append]
      · rw [List.cons_append, Reference.rewrite_cons unreserved.1, ih,
          List.cons_append]
  | @reference reference rest wellNamed isAllowed _ ih =>
      have isWritten := writes reference isAllowed wellNamed
      rw [Reference.rewrite_render_append wellNamed, escape_append, escape_append,
        escape_of_isInert (isInert_render wellNamed), escape_of_isInert isWritten.2,
        List.append_assoc, Reference.rewrite_render_append wellNamed, ih,
        List.append_assoc]

end

/-- The content of a pseudo-element of a class, once its local variables have their names: it is
read as one string exactly if the value that was declared keeps the string. -/
theorem readString?_content_iff {resolved : Text} (alike : QuotesAlike value resolved)
    (within : Within (Reference.IsLocalOf used) resolved) (notQuoted : ¬IsQuoted value)
    (ofOwner : ∀ c ∈ owner, isNameChar c = true) (important : Bool) (following : Text) :
    readString? (Reference.resolveLocal
        (fun name => Naming.use (Naming.localVariable name owner))
        (withImportance important (quoted resolved)) ++ following) =
      some (withImportance important [] ++ following) ↔ KeepsString value := by
  have notQuotedNow : ¬IsQuoted resolved := fun isQuoted => notQuoted (alike.isQuoted isQuoted)
  have writes : ∀ reference, Reference.IsLocalOf used reference → reference.WellNamed →
      Reference.final owner reference ≠ [] ∧ IsInert (Reference.final owner reference) := by
    intro reference isLocal wellNamed
    obtain ⟨name, _, rfl⟩ := isLocal.exists_eq
    exact ⟨List.append_ne_nil_of_right_ne_nil _ (by decide), isInert_use ofOwner wellNamed.2⟩
  have isRewritten : ∀ {text : Text}, Within (Reference.IsLocalOf used) text →
      Reference.resolveLocal (fun name => Naming.use (Naming.localVariable name owner)) text =
        Reference.rewrite (Reference.final owner) text := by
    intro text within
    apply within.rewrite_congr
    intro reference isLocal _
    obtain ⟨name, _, rfl⟩ := isLocal.exists_eq
    rfl
  have isEnding : Reference.Unmarked (.char '"' :: withImportance important []) := by
    cases important <;> decide
  have isWritten : withImportance important (quoted resolved) =
      .char '"' :: (escape resolved ++ .char '"' :: withImportance important []) := by
    rw [quoted_of_not_isQuoted notQuotedNow]
    cases important <;> simp [withImportance]
  rw [isRewritten (within_withImportance important (within_quoted within)), isWritten,
    Reference.rewrite_cons (by decide), rewrite_escape_append within writes,
    Reference.rewrite_of_unmarked isEnding, List.cons_append, List.append_assoc, List.cons_append,
    readString?, afterString?_escape_iff, ← (alike_rewrite within writes).escapedAfter?_eq,
    ← alike.escapedAfter, keepsString_iff]

end Value

end TerseStyle

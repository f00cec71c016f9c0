import TerseStyle.Proofs.Reference
import TerseStyle.Value

/-!
# References in values

A value that holds no reserved character gets references to local variables and nothing else. Making
a value important or quoting it keeps its references. Wrapping the custom properties of a value
never makes a local variable out of something that was none.
-/

namespace TerseStyle

namespace Value

open Reference (Unmarked Within)

/-! ## Wrapping custom properties -/

variable {before text value : Text} {inside : Bool} {c : CodePoint}

theorem mem_wrapVariablesAfter (isChar : c ∈ wrapVariablesAfter before inside text) :
    c ∈ text ∨ c ∈ ("var()" : Text) := by
  have parenthesis : CodePoint.char ')' ∈ ("var()" : Text) := by decide
  induction text generalizing before inside with
  | nil =>
      cases inside with
      | false => simp [wrapVariablesAfter] at isChar
      | true =>
          right
          simp only [wrapVariablesAfter, if_true, List.mem_singleton] at isChar
          rw [isChar]
          exact parenthesis
  | cons first rest ih =>
      have later : ∀ {before inside}, c ∈ wrapVariablesAfter before inside rest →
          c ∈ first :: rest ∨ c ∈ ("var()" : Text) := by
        intro before inside isLater
        rcases ih isLater with inRest | inserted
        · exact Or.inl (List.mem_cons_of_mem _ inRest)
        · exact Or.inr inserted
      rw [wrapVariablesAfter] at isChar
      split at isChar
      · split at isChar
        · rcases List.mem_cons.mp isChar with rfl | isLater
          · exact Or.inl List.mem_cons_self
          · exact later isLater
        · rcases List.mem_cons.mp isChar with rfl | isNext
          · exact Or.inr parenthesis
          · rcases List.mem_cons.mp isNext with rfl | isLater
            · exact Or.inl List.mem_cons_self
            · exact later isLater
      · split at isChar
        · rcases List.mem_append.mp isChar with inserted | isNext
          · right
            have opened : ∀ d ∈ ("var(" : Text), d ∈ ("var()" : Text) := by decide
            exact opened c inserted
          · rcases List.mem_cons.mp isNext with rfl | isLater
            · exact Or.inl List.mem_cons_self
            · exact later isLater
        · rcases List.mem_cons.mp isChar with rfl | isLater
          · exact Or.inl List.mem_cons_self
          · exact later isLater

theorem madeOf_wrapVariables {Good : CodePoint → Prop} (inserted : Text.MadeOf Good "var()")
    (madeOf : Text.MadeOf Good value) : Text.MadeOf Good (wrapVariables value) :=
  fun c isChar => (mem_wrapVariablesAfter isChar).elim (madeOf c) (inserted c)

/-- The beginning of a wrapped rest is the beginning of the rest, unless something is inserted. -/
theorem wrapVariablesAfter_head {rest : Text}
    (begins : wrapVariablesAfter before inside text = c :: rest) (notClosing : c ≠ .char ')')
    (notWrapped : c ≠ .char 'v') :
    ∃ more, text = c :: more ∧ rest = wrapVariablesAfter (c :: before) inside more ∧
      (inside = true → isNameChar c = true) := by
  cases text with
  | nil =>
      cases inside with
      | false => simp [wrapVariablesAfter] at begins
      | true =>
          simp only [wrapVariablesAfter, if_true, List.cons.injEq] at begins
          exact absurd begins.1.symm notClosing
  | cons first more =>
      rw [wrapVariablesAfter] at begins
      split at begins
      · next isInside =>
        split at begins
        · next isName =>
          rw [List.cons.injEq] at begins
          obtain ⟨rfl, rfl⟩ := begins
          exact ⟨more, rfl, by rw [isInside], fun _ => isName⟩
        · rw [List.cons.injEq] at begins
          exact absurd begins.1.symm notClosing
      · next isOutside =>
        split at begins
        · have starts : ("var(" : Text) = .char 'v' :: ("ar(" : Text) := by decide
          rw [starts, List.cons_append, List.cons.injEq] at begins
          exact absurd begins.1.symm notWrapped
        · rw [List.cons.injEq] at begins
          obtain ⟨rfl, rfl⟩ := begins
          refine ⟨more, rfl, ?_, fun isInside => absurd isInside isOutside⟩
          rw [Bool.not_eq_true] at isOutside
          rw [isOutside]

theorem startsVariable_hyphen {rest : Text} (starts : startsVariable before (c :: rest) = true) :
    c = .char '-' := by
  unfold startsVariable at starts
  split at starts
  · next same => exact (List.cons.inj same).1
  · exact absurd starts Bool.false_ne_true

theorem isPrefixOf_wrapVariablesAfter
    (begins : (['-', '-', '&'] : Text).isPrefixOf (wrapVariablesAfter before inside text) = true) :
    (['-', '-', '&'] : Text).isPrefixOf text = true := by
  rw [List.isPrefixOf_iff_prefix] at begins ⊢
  obtain ⟨rest, wrapped⟩ := begins
  obtain ⟨afterFirst, rfl, second, -⟩ :=
    wrapVariablesAfter_head wrapped.symm (by decide) (by decide)
  obtain ⟨afterSecond, rfl, third, -⟩ :=
    wrapVariablesAfter_head second.symm (by decide) (by decide)
  obtain ⟨afterThird, rfl, -, -⟩ :=
    wrapVariablesAfter_head third.symm (by decide) (by decide)
  exact ⟨afterThird, rfl⟩

/-- Whether a wrapped rest mentions a local variable can be seen before it is wrapped. -/
theorem occursIn_wrapVariablesAfter
    (occurs : Text.occursIn ['-', '-', '&'] (wrapVariablesAfter before inside text) = true) :
    Text.occursIn ['-', '-', '&'] text = true := by
  -- A character that does not begin the sigil can be passed over.
  have passed : ∀ {c : CodePoint} {rest : Text}, c ≠ .char '-' →
      Text.occursIn ['-', '-', '&'] (c :: rest) = true →
      Text.occursIn ['-', '-', '&'] rest = true := by
    intro c rest different found
    have notHere : ((['-', '-', '&'] : Text).isPrefixOf (c :: rest)) = false := by
      simp [List.isPrefixOf, Ne.symm different]
    simpa only [Text.occursIn, notHere, Bool.false_or] using found
  induction text generalizing before inside with
  | nil => cases inside <;> simp [wrapVariablesAfter, Text.occursIn] at occurs
  | cons first rest ih =>
      have onwards : ∀ {before inside},
          Text.occursIn ['-', '-', '&'] (wrapVariablesAfter before inside rest) = true →
          Text.occursIn ['-', '-', '&'] (first :: rest) = true := by
        intro before inside later
        rw [Text.occursIn, ih later, Bool.or_true]
      have here : ∀ {before inside}, wrapVariablesAfter before inside (first :: rest) =
            first :: wrapVariablesAfter (first :: before) inside rest →
          Text.occursIn ['-', '-', '&'] (wrapVariablesAfter before inside (first :: rest)) = true →
          Text.occursIn ['-', '-', '&'] (first :: rest) = true := by
        intro before inside kept found
        rw [kept, Text.occursIn, Bool.or_eq_true] at found
        rcases found with begins | later
        · rw [← kept] at begins
          rw [Text.occursIn, isPrefixOf_wrapVariablesAfter begins, Bool.true_or]
        · exact onwards later
      by_cases isInside : inside = true
      · by_cases isName : isNameChar first = true
        · exact here (by rw [wrapVariablesAfter, if_pos isInside, if_pos isName, isInside]) occurs
        · rw [wrapVariablesAfter, if_pos isInside, if_neg isName] at occurs
          have notHyphen : first ≠ .char '-' := by
            rintro rfl
            exact isName (by decide)
          exact onwards (passed notHyphen (passed (by decide) occurs))
      · by_cases starts : startsVariable before (first :: rest) = true
        · rw [wrapVariablesAfter, if_neg isInside, if_pos starts] at occurs
          have opened : ("var(" : Text) = [.char 'v', .char 'a', .char 'r', .char '('] := by decide
          rw [opened] at occurs
          have afterCall := passed (by decide) (passed (by decide) (passed (by decide)
            (passed (by decide) occurs)))
          -- What follows the inserted text reads as if the name had begun before it.
          have kept : wrapVariablesAfter before true (first :: rest) =
              first :: wrapVariablesAfter (first :: before) true rest := by
            have isName : isNameChar first = true := by
              rw [startsVariable_hyphen starts]
              decide
            rw [wrapVariablesAfter, if_pos rfl, if_pos isName]
          exact here kept (by rw [kept]; exact afterCall)
        · rw [Bool.not_eq_true] at isInside
          exact here (by rw [wrapVariablesAfter, if_neg (by simp [isInside]), if_neg starts, isInside])
            occurs

theorem mentionsLocal_wrapVariables (plain : mentionsLocal value = false) :
    mentionsLocal (wrapVariables value) = false := by
  rw [Bool.eq_false_iff] at plain ⊢
  intro mentions
  exact plain (occursIn_wrapVariablesAfter mentions)

/-! ## Local variables -/

theorem isName_of_recogniseLocal {name : Text} {width : Nat}
    (found : recogniseLocal text = some (name, width)) : Reference.IsName name := by
  unfold recogniseLocal at found
  split at found
  · next rest =>
    simp only at found
    split at found
    · simp at found
    · next notEmpty =>
      simp only [Option.some.injEq, Prod.mk.injEq] at found
      rw [← found.1]
      refine ⟨by simpa using notEmpty, ?_⟩
      intro c isChar
      exact List.mem_takeWhile_imp isChar
  · simp at found

theorem within_referLocals (unmarked : Unmarked value) :
    Within (fun reference => ∃ name ∈ localNames value, reference = .localVariable name)
      (referLocals value) := by
  apply Within.flatMap
  intro piece isPiece
  rcases Text.mem_pieces isPiece with ⟨c, isChar, rfl⟩ | ⟨suffix, width, name, _, found, rfl⟩
  · exact Within.of_unmarked (by simpa [Piece.render] using unmarked c isChar)
  · have isMentioned : name ∈ localNames value := List.mem_filterMap.mpr ⟨_, isPiece, rfl⟩
    have wellNamed : (Reference.localVariable name).WellNamed := isName_of_recogniseLocal found
    exact Within.of_render wellNamed ⟨name, isMentioned, rfl⟩

/-! ## Importance and quotation -/

variable {allowed : Reference → Prop} {value : Text}

theorem within_withImportance (important : Bool) (within : Within allowed value) :
    Within allowed (withImportance important value) := by
  cases important with
  | false => exact within
  | true => exact within.append (Within.of_unmarked (by decide))

theorem withImportance_inj {important : Bool} {left right : Text} :
    withImportance important left = withImportance important right ↔ left = right := by
  cases important <;> simp [withImportance]

theorem quote_notMem_render {reference : Reference} (wellNamed : reference.WellNamed) :
    CodePoint.char '"' ∉ reference.render := by
  intro isChar
  rcases Reference.mem_render wellNamed isChar with isName | isOther
  · exact absurd isName (by decide)
  · exact absurd isOther (by decide)

theorem replaceChar_of_notMem {old : CodePoint} {new : Text} (absent : old ∉ text) :
    Text.replaceChar old new text = text := by
  induction text with
  | nil => rfl
  | cons c rest ih =>
      rw [List.mem_cons, not_or] at absent
      have unchanged := ih absent.2
      simp only [Text.replaceChar] at unchanged
      simp [Text.replaceChar, Ne.symm absent.1, unchanged]

theorem within_quoted (within : Within allowed value) : Within allowed (quoted value) := by
  have escaped : Within allowed (Text.replaceChar '"' ['\\', '"'] value) := by
    induction within with
    | nil => exact Within.nil
    | @char c rest unreserved _ ih =>
        rw [Text.replaceChar, List.flatMap_cons]
        refine Within.append ?_ ih
        split
        · exact Within.of_unmarked (by decide)
        · exact Within.of_unmarked (by simpa using unreserved)
    | reference wellNamed isAllowed _ ih =>
        rw [Text.replaceChar, List.flatMap_append]
        refine Within.append ?_ ih
        refine Eq.subst (motive := Within allowed) ?_ (Within.of_render wellNamed isAllowed)
        exact (replaceChar_of_notMem (quote_notMem_render wellNamed)).symm
  have quotationMark : Within allowed ("\"" : Text) := Within.of_unmarked (by decide)
  have isQuotedOrNot : quoted value = value ∨
      quoted value = "\"" ++ Text.replaceChar '"' ['\\', '"'] value ++ "\"" := by
    unfold quoted
    exact ite_eq_or_eq _ _ _
  rcases isQuotedOrNot with kept | written
  · rw [kept]
    exact within
  · rw [written]
    exact (quotationMark.append escaped).append quotationMark

end Value

end TerseStyle

import TerseStyle.Naming
import TerseStyle.Proofs.Outcome
import TerseStyle.Proofs.Scan
import TerseStyle.Proofs.Value

/-!
# The first word of a value

Resolving a value replaces what is recognised in it and wraps its bare custom properties. A first
word in which nothing is recognised stays, and so does a name: it is wrapped as a whole if it begins
like a custom property, and not at all otherwise.
-/

namespace TerseStyle

open Reference (Unmarked IsName)

/-- The value is a word, or goes on with a space after it. -/
def Value.LedBy (word value : Text) : Prop :=
  value = word ∨ ∃ rest, value = word ++ .char ' ' :: rest

namespace Value

variable {word value : Text}

theorem ledBy_joinWith (rest : List Text) : LedBy word (Text.joinWith [' '] (word :: rest)) := by
  cases rest with
  | nil => exact Or.inl rfl
  | cons next rest =>
      rw [Text.joinWith, List.append_assoc]
      exact Or.inr ⟨_, rfl⟩

theorem LedBy.withImportance (led : LedBy word value) (important : Bool) :
    LedBy word (Value.withImportance important value) := by
  cases important with
  | false => exact led
  | true =>
      right
      rcases led with rfl | ⟨rest, rfl⟩
      · exact ⟨_, rfl⟩
      · exact ⟨rest ++ " !important", by simp [Value.withImportance]⟩

theorem LedBy.head?_words (led : LedBy word value) (nonempty : word ≠ [])
    (noBlank : ∀ c ∈ word, isBlank c = false) : (Text.words value).head? = some word := by
  have isWord : Text.words word = [word] := by
    rw [Text.words, List.splitOnP_eq_singleton noBlank]
    simp [nonempty]
  rcases led with rfl | ⟨rest, rfl⟩
  · rw [isWord, List.head?_cons]
  · rw [Text.words, List.splitOnP_append_cons _ _ (by decide), List.filter_append]
    change (Text.words word ++ _).head? = _
    rw [isWord]
    rfl

/-! ## Wrapping custom properties -/

variable {name : Text}

/-- Inside a name nothing is wrapped. -/
theorem wrapVariablesAfter_name (isName : ∀ c ∈ name, isNameChar c = true) {before : Text}
    {inside : Bool} (entered : inside = true ∨ before.head?.any isNameChar = true) (rest : Text) :
    wrapVariablesAfter before inside (name ++ rest) =
      name ++ wrapVariablesAfter (name.reverse ++ before) inside rest := by
  induction name generalizing before with
  | nil => rfl
  | cons c name ih =>
      rw [List.forall_mem_cons] at isName
      have onwards : wrapVariablesAfter (c :: before) inside (name ++ rest) =
          name ++ wrapVariablesAfter (name.reverse ++ c :: before) inside rest :=
        ih isName.2 (Or.inr (by simp [isName.1]))
      have kept : wrapVariablesAfter before inside (c :: (name ++ rest)) =
          c :: wrapVariablesAfter (c :: before) inside (name ++ rest) := by
        cases inside with
        | true => rw [wrapVariablesAfter, if_pos rfl, if_pos isName.1]
        | false =>
            have starts : startsVariable before (c :: (name ++ rest)) = false := by
              have afterName : before.head?.any isNameChar = true := by simpa using entered
              unfold startsVariable
              split
              · simp [afterName]
              · rfl
            rw [wrapVariablesAfter, if_neg Bool.false_ne_true, starts, if_neg Bool.false_ne_true]
      rw [List.cons_append, kept, onwards]
      simp

theorem startsVariable_nil_iff {text : Text} : startsVariable [] text = true ↔
    ∃ c rest, text = .char '-' :: .char '-' :: c :: rest ∧ isIdentifierStart c = true := by
  constructor
  · intro starts
    unfold startsVariable at starts
    split at starts
    · next c rest =>
      refine ⟨c, rest, rfl, ?_⟩
      simp only [Bool.and_eq_true] at starts
      exact starts.1.1
    · exact absurd starts Bool.false_ne_true
  · rintro ⟨c, rest, rfl, isStart⟩
    simp only [startsVariable, isStart]
    decide

theorem startsVariable_append {rest : Text} (ends : ∀ c ∈ rest.head?, c = .char ' ') :
    startsVariable [] (name ++ rest) = startsVariable [] name := by
  rw [Bool.eq_iff_iff, startsVariable_nil_iff, startsVariable_nil_iff]
  constructor
  · rintro ⟨c, more, isText, isStart⟩
    rcases name with _ | ⟨first, _ | ⟨second, _ | ⟨third, name⟩⟩⟩
    · exact absurd (ends (.char '-') (by simpa using congrArg List.head? isText)) (by decide)
    · have isRest : rest = .char '-' :: c :: more := by simpa using (List.cons.inj isText).2
      exact absurd (ends (.char '-') (by simp [isRest])) (by decide)
    · have isRest : rest = c :: more := by simp_all
      rw [ends c (by simp [isRest])] at isStart
      exact absurd isStart (by decide)
    · simp only [List.cons_append, List.cons.injEq] at isText
      rcases isText with ⟨rfl, rfl, rfl, rfl⟩
      exact ⟨third, name, rfl, isStart⟩
  · rintro ⟨c, more, rfl, isStart⟩
    exact ⟨c, more ++ rest, rfl, isStart⟩

/-- A name at the beginning of a value is wrapped as a whole, or stays. -/
theorem wrapVariables_append {rest : Text} (isName : IsName name)
    (ends : ∀ c ∈ rest.head?, c = .char ' ') :
    wrapVariables (name ++ rest) =
      if startsVariable [] name then "var(" ++ name ++ wrapVariablesAfter name.reverse true rest
      else name ++ wrapVariablesAfter name.reverse false rest := by
  have sameStart : startsVariable [] (name ++ rest) = startsVariable [] name :=
    startsVariable_append ends
  cases name with
  | nil => exact absurd rfl isName.1
  | cons c name =>
      have inName := (List.forall_mem_cons.mp isName.2)
      have onwards : ∀ inside, wrapVariablesAfter [c] inside (name ++ rest) =
          name ++ wrapVariablesAfter (c :: name).reverse inside rest := by
        intro inside
        have kept := @wrapVariablesAfter_name name inName.2 [c] inside
          (Or.inr (by simp [inName.1])) rest
        simpa using kept
      rw [List.cons_append] at sameStart ⊢
      rw [wrapVariables, wrapVariablesAfter, if_neg Bool.false_ne_true, sameStart, onwards, onwards]
      split <;> simp

theorem wrapVariables_of_isName (isName : IsName name) :
    wrapVariables name = if startsVariable [] name then Naming.use name else name := by
  have alone := @wrapVariables_append name [] isName (by simp)
  rw [List.append_nil] at alone
  rw [alone]
  split
  · rfl
  · exact List.append_nil name

theorem not_mem_wrapVariables (isName : IsName name) {c : CodePoint}
    (isOther : isNameChar c = false ∧ c ∉ ("var()" : Text)) : c ∉ wrapVariables name := by
  intro isChar
  rcases mem_wrapVariablesAfter isChar with inName | isInserted
  · simp [isName.2 c inName] at isOther
  · exact isOther.2 isInserted

theorem wrapVariables_ne_nil (isName : IsName name) : wrapVariables name ≠ [] := by
  rw [wrapVariables_of_isName isName]
  split
  · intro isEmpty
    rw [Naming.use, List.append_eq_nil_iff, List.append_eq_nil_iff] at isEmpty
    exact isName.1 isEmpty.1.2
  · exact isName.1

theorem LedBy.wrapVariables (isName : IsName name) (led : LedBy name value) :
    LedBy (Value.wrapVariables name) (Value.wrapVariables value) := by
  rcases led with rfl | ⟨rest, rfl⟩
  · exact Or.inl rfl
  · right
    refine ⟨wrapVariablesAfter (.char ' ' :: name.reverse) false rest, ?_⟩
    rw [wrapVariables_append isName (by simp), wrapVariables_of_isName isName]
    split
    · rw [wrapVariablesAfter, if_pos rfl, if_neg (by decide), Naming.use,
        List.append_assoc _ (")" : Text)]
      rfl
    · rw [wrapVariablesAfter, if_neg Bool.false_ne_true, if_neg (by simp [startsVariable])]

end Value

/-! ## Replacing what is recognised -/

theorem Text.pieces_append_of_none {α : Type} {recognise : Recogniser α} {front rest : Text}
    (nothing : ∀ c back, c :: back <:+ front → recognise (c :: back ++ rest) = none) :
    pieces recognise (front ++ rest) = front.map .char ++ pieces recognise rest := by
  induction front with
  | nil => rfl
  | cons c front ih =>
      have onwards := ih fun d back isSuffix =>
        nothing d back (isSuffix.trans (List.suffix_cons c front))
      have here : recognise (c :: (front ++ rest)) = none := nothing c front List.suffix_rfl
      rw [List.cons_append, pieces_cons_of_none here, onwards]
      rfl

theorem Text.mapM_renderM_char {α ε : Type} (write : α → Except ε Text) (text : Text) :
    (text.map Piece.char).mapM (Piece.renderM write) = .ok (text.map ([·])) := by
  induction text with
  | nil => rfl
  | cons c rest ih =>
      rw [List.map_cons, List.mapM_cons, ih]
      rfl

/-- Nothing is recognised that begins in a word or at the space after it. -/
structure Recogniser.Passes {α : Type} (recognise : Recogniser α) (word : Text) : Prop where
  alone : ∀ c back, c :: back <:+ word → recognise (c :: back) = none
  space : ∀ c back rest, c :: back <:+ word ++ [.char ' '] → recognise (c :: back ++ rest) = none

theorem Reference.passes_recognise {word : Text} (unmarked : Unmarked word) :
    recognise.Passes word := by
  have nothing : ∀ c rest, c ≠ opening → recognise (c :: rest) = none := by
    intro c rest notOpening
    rw [recognise, read?_cons_of_ne notOpening, Option.map_none]
  constructor
  · intro c back isSuffix
    exact nothing c back (unmarked c (isSuffix.mem List.mem_cons_self)).1
  · intro c back rest isSuffix
    apply nothing c (back ++ rest)
    rcases List.mem_append.mp (isSuffix.mem List.mem_cons_self) with inWord | isSpace
    · exact (unmarked c inWord).1
    · rw [List.mem_singleton.mp isSpace]
      decide

namespace Value

variable {word value : Text}

theorem eq_of_recogniseLocal {text : Text} (found : recogniseLocal text ≠ none) :
    ∃ rest, text = .char '-' :: .char '-' :: .char '&' :: rest := by
  unfold recogniseLocal at found
  split at found
  · exact ⟨_, rfl⟩
  · exact absurd rfl found

theorem passes_recogniseLocal (noSigil : .char '&' ∉ word) : recogniseLocal.Passes word := by
  constructor
  · intro c back isSuffix
    by_contra found
    rcases eq_of_recogniseLocal found with ⟨rest, isText⟩
    exact noSigil (isSuffix.mem (by simp [isText]))
  · intro c back rest isSuffix
    by_contra found
    rcases eq_of_recogniseLocal found with ⟨more, isText⟩
    have endsBlank : (c :: back).getLast? = some (.char ' ') := by
      rcases isSuffix with ⟨front, isWord⟩
      have isLast := congrArg List.getLast? isWord
      simpa using isLast
    rcases back with _ | ⟨second, _ | ⟨third, back⟩⟩
    · simp_all
    · simp_all
    · have isSigil : third = .char '&' := by simp_all
      have inWord := isSuffix.mem (show third ∈ c :: second :: third :: back by simp)
      rw [isSigil] at inWord
      simp [noSigil] at inWord

theorem LedBy.pieces {α : Type} {recognise : Recogniser α} (passes : recognise.Passes word)
    (led : LedBy word value) : Text.pieces recognise value = word.map .char ∨
      ∃ rest, Text.pieces recognise value = word.map .char ++ .char (.char ' ') :: rest := by
  rcases led with rfl | ⟨rest, rfl⟩
  · left
    have alone := @Text.pieces_append_of_none α recognise value [] (by simpa using passes.alone)
    simpa using alone
  · right
    have onwards := @Text.pieces_append_of_none α recognise (word ++ [CodePoint.char ' ']) rest
      fun c back => passes.space c back rest
    exact ⟨_, by simpa using onwards⟩

theorem LedBy.replaceItems {α : Type} {recognise : Recogniser α} (passes : recognise.Passes word)
    (led : LedBy word value) (write : α → Text) :
    LedBy word (Text.replaceItems recognise write value) := by
  have kept : (word.map Piece.char).flatMap (Piece.render write) = word := by
    rw [List.flatMap_map]
    exact List.flatMap_singleton' word
  rcases led.pieces passes with alone | ⟨rest, space⟩
  · left
    rw [Text.replaceItems, alone, kept]
  · right
    rw [Text.replaceItems, space, List.flatMap_append, kept]
    exact ⟨_, rfl⟩

theorem LedBy.replaceItemsM {α ε : Type} {recognise : Recogniser α}
    (passes : recognise.Passes word) (led : LedBy word value) {write : α → Except ε Text}
    {replaced : Text} (replaces : Text.replaceItemsM recognise write value = .ok replaced) :
    LedBy word replaced := by
  have kept : (word.map Piece.char).mapM (Piece.renderM write) = .ok (word.map ([·])) :=
    Text.mapM_renderM_char write word
  have isWord : (word.map ([·])).flatten = word := by
    rw [← List.flatMap_def]
    exact List.flatMap_singleton' word
  rw [Text.replaceItemsM, map_eq_ok] at replaces
  rcases replaces with ⟨parts, makes, rfl⟩
  rcases led.pieces passes with alone | ⟨rest, space⟩
  · left
    rw [alone, kept, Except.ok.injEq] at makes
    rw [← makes, isWord]
  · right
    rw [space, List.mapM_append, kept, List.mapM_cons] at makes
    simp only [bind_eq_ok, Except.ok.injEq, Piece.renderM, pure, Except.pure] at makes
    rcases makes with ⟨_, rfl, _, ⟨_, rfl, others, _, rfl⟩, rfl⟩
    rw [List.flatten_append, isWord]
    exact ⟨others.flatten, rfl⟩

end Value

end TerseStyle

import TerseStyle.Proofs.Encoding
import TerseStyle.Proofs.Outcome
import TerseStyle.Reference

/-!
# Texts with references

A text is *unmarked* if it holds neither of the characters reserved for references, and it is
*within* a set of references if it is put together from unmarked characters and written references
of that set. Such a text reads back as it was put together: no reference starts or ends across the
border of a part. Writing its references anew is therefore a map over the parts, and it respects the
concatenation of texts.
-/

namespace TerseStyle

namespace Text

variable {α : Type} {recognise : Recogniser α} {write : α → Text} {c : CodePoint} {text rest : Text}

theorem piecesAfter_eq_drop (recognise : Recogniser α) (skip : Nat) (text : Text) :
    piecesAfter recognise skip text = pieces recognise (text.drop skip) := by
  induction text generalizing skip with
  | nil => simp [pieces, piecesAfter]
  | cons c rest ih =>
      cases skip with
      | zero => rfl
      | succ skip => simp [piecesAfter, ih]

@[simp]
theorem pieces_nil (recognise : Recogniser α) : pieces recognise [] = [] := rfl

theorem pieces_cons_of_none (nothing : recognise (c :: rest) = none) :
    pieces recognise (c :: rest) = .char c :: pieces recognise rest := by
  simp only [pieces, piecesAfter, nothing]

theorem pieces_append_of_some {covered : Text} {item : α}
    (found : recognise (c :: covered ++ rest) = some (item, (c :: covered).length)) :
    pieces recognise (c :: covered ++ rest) = .found item :: pieces recognise rest := by
  rw [pieces, List.cons_append, piecesAfter, ← List.cons_append, found]
  simp [piecesAfter_eq_drop]

theorem mem_pieces {piece : Piece α} (isPiece : piece ∈ pieces recognise text) :
    (∃ c ∈ text, piece = .char c) ∨
      ∃ suffix width item, suffix <:+ text ∧ recognise suffix = some (item, width) ∧
        piece = .found item := by
  suffices general : ∀ skip, piece ∈ piecesAfter recognise skip text →
      (∃ c ∈ text, piece = .char c) ∨
        ∃ suffix width item, suffix <:+ text ∧ recognise suffix = some (item, width) ∧
          piece = .found item from general 0 isPiece
  clear isPiece
  induction text with
  | nil => intro skip isPiece; simp [piecesAfter] at isPiece
  | cons first rest ih =>
      intro skip isPiece
      have later : ∀ skip, piece ∈ piecesAfter recognise skip rest →
          (∃ c ∈ first :: rest, piece = .char c) ∨
            ∃ suffix width item, suffix <:+ first :: rest ∧
              recognise suffix = some (item, width) ∧ piece = .found item := by
        intro skip isLater
        rcases ih skip isLater with ⟨c, isChar, same⟩ |
          ⟨suffix, width, item, isSuffix, found, same⟩
        · exact Or.inl ⟨c, List.mem_cons_of_mem _ isChar, same⟩
        · exact Or.inr ⟨suffix, width, item, isSuffix.trans (List.suffix_cons first rest), found,
            same⟩
      cases skip with
      | succ skip => exact later skip isPiece
      | zero =>
          rw [piecesAfter] at isPiece
          split at isPiece
          · next item width found =>
            rcases List.mem_cons.mp isPiece with same | isLater
            · exact Or.inr ⟨first :: rest, width, item, List.suffix_refl _, found, same⟩
            · exact later _ isLater
          · rcases List.mem_cons.mp isPiece with same | isLater
            · exact Or.inl ⟨first, List.mem_cons_self, same⟩
            · exact later _ isLater

theorem MadeOf.replaceItems {Good : CodePoint → Prop} (madeOf : MadeOf Good text)
    (ofItem : ∀ {suffix item width}, MadeOf Good suffix → recognise suffix = some (item, width) →
      MadeOf Good (write item)) : MadeOf Good (Text.replaceItems recognise write text) := by
  apply MadeOf.flatMap
  intro piece isPiece
  rcases mem_pieces isPiece with ⟨c, inText, rfl⟩ | ⟨suffix, width, item, isSuffix, found, rfl⟩
  · simpa [Piece.render] using madeOf c inText
  · exact ofItem (madeOf.of_subset fun c isChar => isSuffix.subset isChar) found

/-- A text grows by at least what its items grow by. -/
theorem length_add_weights_le (weight : α → Nat)
    (grows : ∀ {text item width}, recognise text = some (item, width) →
      max width 1 + weight item ≤ (write item).length) (text : Text) :
    text.length + ((items recognise text).map weight).sum ≤
      (replaceItems recognise write text).length := by
  suffices general : ∀ skip, (text.drop skip).length +
      (((piecesAfter recognise skip text).filterMap Piece.item?).map weight).sum ≤
        ((piecesAfter recognise skip text).flatMap (Piece.render write)).length from general 0
  induction text with
  | nil => simp [piecesAfter]
  | cons c rest ih =>
      intro skip
      cases skip with
      | succ skip => exact ih skip
      | zero =>
          rw [piecesAfter]
          split
          · next item width found =>
            have isLonger := grows found
            have onwards := ih (width - 1)
            simp only [List.drop_zero, List.length_cons, List.filterMap_cons, Piece.item?,
              List.map_cons, List.sum_cons, List.flatMap_cons, Piece.render, List.length_append,
              List.length_drop] at onwards ⊢
            omega
          · have onwards := ih 0
            simp only [List.drop_zero, List.length_cons, List.filterMap_cons, Piece.item?,
              List.flatMap_cons, Piece.render, List.length_append, List.length_nil] at onwards ⊢
            omega

theorem replaceItems_of_items_eq_nil (noItems : items recognise text = []) :
    replaceItems recognise write text = text := by
  suffices general : ∀ skip, (piecesAfter recognise skip text).filterMap Piece.item? = [] →
      (piecesAfter recognise skip text).flatMap (Piece.render write) = text.drop skip from
    general 0 noItems
  clear noItems
  induction text with
  | nil => simp [piecesAfter]
  | cons c rest ih =>
      intro skip noItems
      cases skip with
      | succ skip => exact ih skip noItems
      | zero =>
          rw [piecesAfter] at noItems ⊢
          split at noItems
          · simp [Piece.item?] at noItems
          · have onwards := ih 0 (by simpa [Piece.item?] using noItems)
            simp [Piece.render, onwards]

end Text

namespace Reference

/-! ## Unmarked texts -/

/-- No character of the text is reserved for references. -/
abbrev Unmarked (text : Text) : Prop :=
  Text.MadeOf (fun c => c ≠ opening ∧ c ≠ closing) text

variable {text rest name : Text} {c last : CodePoint} {reference : Reference}

theorem hasMarker_eq_false_iff : hasMarker text = false ↔ Unmarked text := by
  simp [hasMarker, Text.MadeOf]

theorem isNameChar_opening : isNameChar opening = false := by
  decide +kernel

theorem isNameChar_closing : isNameChar closing = false := by
  decide +kernel

theorem ne_marker_of_isNameChar (isName : isNameChar c = true) : c ≠ opening ∧ c ≠ closing := by
  constructor
  · rintro rfl
    simp [isNameChar_opening] at isName
  · rintro rfl
    simp [isNameChar_closing] at isName

theorem unmarked_of_isNameChar (isName : ∀ c ∈ name, isNameChar c = true) : Unmarked name := by
  intro c isChar
  exact ne_marker_of_isNameChar (isName c isChar)

/-! ## Reading a written reference -/

/-- A name as it may stand in a reference: not empty, and of name characters. -/
def IsName (name : Text) : Prop :=
  name ≠ [] ∧ ∀ c ∈ name, isNameChar c = true

/-- The names of the reference can be read back. Only a block may be without a name. -/
def WellNamed : Reference → Prop
  | runtime abbreviation block => IsName abbreviation ∧ ∀ c ∈ block, isNameChar c = true
  | localVariable name => IsName name
  | scope name => IsName name

/-- The characters of a written reference are name characters and a few others. -/
theorem mem_render (wellNamed : reference.WellNamed) (isChar : c ∈ reference.render) :
    isNameChar c = true ∨ c ∈ opening :: closing :: ("$&@:" : Text) := by
  have inKind : ∀ c ∈ ("$:" ++ "&:" ++ "@:" ++ ":" : Text), c ∈ ("$&@:" : Text) := by decide
  cases reference with
  | runtime name block =>
      simp only [render, List.mem_append, List.mem_singleton] at isChar
      have := wellNamed.1.2 c
      have := wellNamed.2 c
      have := inKind c
      simp only [List.mem_append, List.mem_cons] at this ⊢
      grind
  | localVariable name | scope name =>
      simp only [render, List.mem_append, List.mem_singleton] at isChar
      have := wellNamed.2 c
      have := inKind c
      simp only [List.mem_append, List.mem_cons] at this ⊢
      grind

theorem exists_render_eq_append_closing (reference : Reference) :
    ∃ before, reference.render = before ++ [closing] := by
  cases reference <;> exact ⟨_, rfl⟩

theorem takeWhile_name (isName : ∀ c ∈ name, isNameChar c = true) (ends : isNameChar last = false) :
    (name ++ last :: rest).takeWhile isNameChar = name := by
  rw [List.takeWhile_append_of_pos isName, List.takeWhile_cons, ends]
  simp

theorem dropWhile_name (isName : ∀ c ∈ name, isNameChar c = true) (ends : isNameChar last = false) :
    (name ++ last :: rest).dropWhile isNameChar = last :: rest := by
  rw [List.dropWhile_append_of_pos isName, List.dropWhile_cons, ends]
  simp

theorem readName?_append (isName : IsName name) (ends : isNameChar last = false) :
    readName? (name ++ last :: rest) = some (name, last :: rest) := by
  simp [readName?, takeWhile_name isName.2 ends, dropWhile_name isName.2 ends, isName.1]

theorem read?_render_append (wellNamed : reference.WellNamed) (rest : Text) :
    read? (reference.render ++ rest) = some reference := by
  cases reference with
  | runtime abbreviation block =>
      obtain ⟨isName, isBlock⟩ := wellNamed
      have shape : (runtime abbreviation block).render ++ rest =
          opening :: .char '$' :: .char ':' ::
            (abbreviation ++ .char ':' :: (block ++ closing :: rest)) := by
        simp [render, Text.ofString, Text.ofChars]
      rw [shape, read?, if_neg (by simp), readName?_append isName (by decide)]
      simp [takeWhile_name isBlock isNameChar_closing, dropWhile_name isBlock isNameChar_closing]
  | localVariable name =>
      have shape : (localVariable name).render ++ rest =
          opening :: .char '&' :: .char ':' :: (name ++ closing :: rest) := by
        simp [render, Text.ofString, Text.ofChars]
      rw [shape, read?, if_neg (by simp), readName?_append wellNamed isNameChar_closing]
      simp
  | scope name =>
      have shape : (scope name).render ++ rest =
          opening :: .char '@' :: .char ':' :: (name ++ closing :: rest) := by
        simp [render, Text.ofString, Text.ofChars]
      rw [shape, read?, if_neg (by simp), readName?_append wellNamed isNameChar_closing]
      simp

theorem readName?_eq_some {after : Text} (isRead : readName? text = some (name, after)) :
    IsName name ∧ text = name ++ after := by
  simp only [readName?] at isRead
  split at isRead
  · simp at isRead
  · next nonempty =>
    simp only [Option.some.injEq, Prod.mk.injEq] at isRead
    rw [← isRead.1, ← isRead.2]
    refine ⟨⟨by simpa using nonempty, ?_⟩, List.takeWhile_append_dropWhile.symm⟩
    intro c isChar
    exact List.mem_takeWhile_imp isChar

theorem eq_append_of_head?_dropWhile (ends : (text.dropWhile isNameChar).head? = some closing) :
    ∃ rest, text = text.takeWhile isNameChar ++ closing :: rest := by
  obtain ⟨rest, isRest⟩ := List.head?_eq_some_iff.mp ends
  refine ⟨rest, ?_⟩
  rw [← isRest]
  exact List.takeWhile_append_dropWhile.symm

theorem read?_eq_some (isRead : read? text = some reference) :
    reference.WellNamed ∧ ∃ rest, text = reference.render ++ rest := by
  unfold read? at isRead
  split at isRead
  · next c kind rest =>
    split at isRead
    · simp at isRead
    · next isOpening =>
      rw [not_not] at isOpening
      split at isRead
      · simp at isRead
      · next name after isName =>
        obtain ⟨wellNamed, isRest⟩ := readName?_eq_some isName
        split at isRead
        · next more =>
          split at isRead
          · next ends =>
            obtain ⟨tail, isMore⟩ := eq_append_of_head?_dropWhile ends
            simp only [Option.some.injEq] at isRead
            rw [← isRead]
            refine ⟨⟨wellNamed, fun c isChar => List.mem_takeWhile_imp isChar⟩, tail, ?_⟩
            rw [isOpening, isRest]
            conv_lhs => rw [isMore]
            simp [render, Text.ofString, Text.ofChars]
          · simp at isRead
        · next last tail =>
          split at isRead
          · next ends =>
            simp only [Option.some.injEq] at isRead
            rw [← isRead, isOpening, isRest, ends]
            exact ⟨wellNamed, tail, by simp [render, Text.ofString, Text.ofChars]⟩
          · simp at isRead
        · next last tail =>
          split at isRead
          · next ends =>
            simp only [Option.some.injEq] at isRead
            rw [← isRead, isOpening, isRest, ends]
            exact ⟨wellNamed, tail, by simp [render, Text.ofString, Text.ofChars]⟩
          · simp at isRead
        · simp at isRead
  · simp at isRead

theorem read?_cons_of_ne (notOpening : c ≠ opening) (rest : Text) : read? (c :: rest) = none := by
  unfold read?
  split
  · next same =>
    simp only [List.cons.injEq] at same
    rw [← same.1, if_pos notOpening]
  · rfl

theorem pieces_cons (notOpening : c ≠ opening) (rest : Text) :
    Text.pieces recognise (c :: rest) = .char c :: Text.pieces recognise rest := by
  apply Text.pieces_cons_of_none
  simp [recognise, read?_cons_of_ne notOpening]

theorem pieces_render_append (wellNamed : reference.WellNamed) (rest : Text) :
    Text.pieces recognise (reference.render ++ rest) =
      .found reference :: Text.pieces recognise rest := by
  have startsWith : ∃ covered, reference.render = opening :: covered := by
    cases reference <;> exact ⟨_, rfl⟩
  obtain ⟨covered, written⟩ := startsWith
  have isRead := read?_render_append wellNamed rest
  rw [written] at isRead ⊢
  apply Text.pieces_append_of_some
  rw [recognise, isRead, Option.map_some, written]

/-! ## Writing references anew -/

/-- The text with every reference written anew. -/
abbrev rewrite (write : Reference → Text) (text : Text) : Text :=
  Text.replaceItems recognise write text

variable {write : Reference → Text}

@[simp]
theorem rewrite_nil : rewrite write [] = [] := rfl

theorem rewrite_cons (notOpening : c ≠ opening) (rest : Text) :
    rewrite write (c :: rest) = c :: rewrite write rest := by
  simp [rewrite, Text.replaceItems, pieces_cons notOpening, Piece.render]

theorem rewrite_render_append (wellNamed : reference.WellNamed) (rest : Text) :
    rewrite write (reference.render ++ rest) = write reference ++ rewrite write rest := by
  simp [rewrite, Text.replaceItems, pieces_render_append wellNamed, Piece.render]

/-! ## The references of a text -/

/-- Texts are read from left to right: a reference that is written here is passed as a whole, and
any other character by itself. -/
theorem text_induction {motive : Text → Prop} (nil : motive [])
    (char : ∀ c rest, read? (c :: rest) = none → motive rest → motive (c :: rest))
    (reference : ∀ (reference : Reference) (rest : Text), reference.WellNamed → motive rest →
      motive (reference.render ++ rest))
    (text : Text) : motive text := by
  induction isLength : text.length using Nat.strong_induction_on generalizing text with
  | _ length ih =>
      cases text with
      | nil => exact nil
      | cons c rest =>
          cases isRead : read? (c :: rest) with
          | none =>
              apply char c rest isRead
              exact ih rest.length (by simp [← isLength]) rest rfl
          | some found =>
              obtain ⟨wellNamed, after, isAppend⟩ := read?_eq_some isRead
              have shorter : after.length < length := by
                have nonempty : found.render ≠ [] := by cases found <;> simp [render]
                rw [← isLength, isAppend, List.length_append]
                have := List.length_pos_iff.mpr nonempty
                omega
              rw [isAppend]
              exact reference found after wellNamed (ih _ shorter after rfl)

theorem pieces_cons_of_read? (nothing : read? (c :: rest) = none) :
    Text.pieces recognise (c :: rest) = .char c :: Text.pieces recognise rest :=
  Text.pieces_cons_of_none (by simp [recognise, nothing])

theorem all_cons_of_read? (nothing : read? (c :: rest) = none) : all (c :: rest) = all rest := by
  simp [all, Text.items, pieces_cons_of_read? nothing, List.filterMap_cons, Piece.item?]

theorem all_render_append (wellNamed : reference.WellNamed) (rest : Text) :
    all (reference.render ++ rest) = reference :: all rest := by
  simp [all, Text.items, pieces_render_append wellNamed, Piece.item?]

theorem all_of_unmarked_append {left : Text} (unmarked : Unmarked left) (right : Text) :
    all (left ++ right) = all right := by
  induction left with
  | nil => rfl
  | cons c rest ih =>
      simp only [Text.madeOf_cons] at unmarked
      rw [List.cons_append, all_cons_of_read? (read?_cons_of_ne unmarked.1.1 _),
        ih unmarked.2]

theorem all_of_unmarked (unmarked : Unmarked text) : all text = [] := by
  have isAll := all_of_unmarked_append unmarked []
  rwa [List.append_nil] at isAll

theorem rewrite_congr {first second : Reference → Text}
    (same : ∀ reference ∈ all text, first reference = second reference) :
    rewrite first text = rewrite second text := by
  apply List.flatMap_congr
  intro piece isPiece
  cases piece with
  | char c => rfl
  | found item => exact same item (List.mem_filterMap.mpr ⟨_, isPiece, rfl⟩)

theorem rewrite_eq_self (kept : ∀ reference ∈ all text, write reference = reference.render) :
    rewrite write text = text := by
  rw [rewrite_congr kept]
  clear kept
  induction text using text_induction with
  | nil => rfl
  | char c rest nothing ih =>
      simp only [rewrite, Text.replaceItems] at ih
      simp [rewrite, Text.replaceItems, pieces_cons_of_read? nothing, Piece.render, ih]
  | reference reference rest wellNamed ih => rw [rewrite_render_append wellNamed, ih]

theorem rewrite_of_unmarked (unmarked : Unmarked text) : rewrite write text = text :=
  rewrite_eq_self (by simp [all_of_unmarked unmarked])

/-- A rewriting that may be refused is carried out if no reference of the text is refused. -/
theorem replaceItemsM_eq_ok {ε : Type} {attempt : Reference → Except ε Text}
    (accepts : ∀ reference ∈ all text, attempt reference = .ok (write reference)) :
    Text.replaceItemsM recognise attempt text = .ok (rewrite write text) := by
  have made : (Text.pieces recognise text).mapM (Piece.renderM attempt) =
      .ok ((Text.pieces recognise text).map (Piece.render write)) := by
    refine mapM_eq_ok_of_imp ?_ List.mapM_pure
    rintro piece isPiece _ ⟨⟩
    cases piece with
    | char c => rfl
    | found item => exact accepts item (List.mem_filterMap.mpr ⟨_, isPiece, rfl⟩)
  rw [Text.replaceItemsM, made]
  rfl

theorem replaceItemsM_cons {ε : Type} {attempt : Reference → Except ε Text}
    (notOpening : c ≠ opening) (rest : Text) :
    Text.replaceItemsM recognise attempt (c :: rest) =
      (Text.replaceItemsM recognise attempt rest).map (c :: ·) := by
  simp only [Text.replaceItemsM, pieces_cons notOpening, List.mapM_cons, Piece.renderM]
  cases (Text.pieces recognise rest).mapM (Piece.renderM attempt) <;> rfl

theorem replaceItemsM_render_append {ε : Type} {attempt : Reference → Except ε Text}
    (wellNamed : reference.WellNamed) (rest : Text) :
    Text.replaceItemsM recognise attempt (reference.render ++ rest) =
      attempt reference >>= fun written =>
        (Text.replaceItemsM recognise attempt rest).map (written ++ ·) := by
  simp only [Text.replaceItemsM, pieces_render_append wellNamed, List.mapM_cons, Piece.renderM]
  cases attempt reference with
  | error error => rfl
  | ok written => cases (Text.pieces recognise rest).mapM (Piece.renderM attempt) <;> rfl

/-! ## Texts within a set of references -/

/-- Texts put together from unmarked characters and references of a set. -/
inductive Within (allowed : Reference → Prop) : Text → Prop where
  | nil : Within allowed []
  | char {c : CodePoint} {rest : Text} (unreserved : c ≠ opening ∧ c ≠ closing)
      (onwards : Within allowed rest) : Within allowed (c :: rest)
  | reference {reference : Reference} {rest : Text} (wellNamed : reference.WellNamed)
      (isAllowed : allowed reference) (onwards : Within allowed rest) :
      Within allowed (reference.render ++ rest)

namespace Within

variable {allowed other : Reference → Prop} {text left right : Text}

theorem mono (within : Within allowed text)
    (weaker : ∀ reference, allowed reference → other reference) :
    Within other text := by
  induction within with
  | nil => exact nil
  | char unreserved _ ih => exact char unreserved ih
  | reference wellNamed isAllowed _ ih =>
      exact reference wellNamed (weaker _ isAllowed) ih

theorem append (within : Within allowed left) (withinRight : Within allowed right) :
    Within allowed (left ++ right) := by
  induction within with
  | nil => exact withinRight
  | char unreserved _ ih => exact char unreserved ih
  | reference wellNamed isAllowed _ ih =>
      rw [List.append_assoc]
      exact reference wellNamed isAllowed ih

theorem of_unmarked (unmarked : Unmarked text) : Within allowed text := by
  induction text with
  | nil => exact nil
  | cons c rest ih =>
      simp only [Text.madeOf_cons] at unmarked
      exact char unmarked.1 (ih unmarked.2)

theorem of_render {written : Reference} (wellNamed : written.WellNamed)
    (isAllowed : allowed written) : Within allowed written.render := by
  have single : Within allowed (written.render ++ []) := reference wellNamed isAllowed nil
  rwa [List.append_nil] at single

theorem flatMap {α : Type} {items : List α} {part : α → Text}
    (parts : ∀ item ∈ items, Within allowed (part item)) : Within allowed (items.flatMap part) := by
  induction items with
  | nil => exact nil
  | cons item rest ih =>
      rw [List.flatMap_cons]
      apply append
      · exact parts item List.mem_cons_self
      · apply ih
        intro later isLater
        exact parts later (List.mem_cons_of_mem _ isLater)

theorem unmarked (within : Within (fun _ => False) text) : Unmarked text := by
  induction within with
  | nil => exact Text.madeOf_nil
  | char unreserved _ ih => exact Text.madeOf_cons.mpr ⟨unreserved, ih⟩
  | reference _ isAllowed => exact absurd isAllowed id

theorem mem_all (within : Within allowed text) {found : Reference} (isFound : found ∈ all text) :
    allowed found ∧ found.WellNamed := by
  induction within with
  | nil => simp [all, Text.items] at isFound
  | char unreserved _ ih =>
      rw [all_cons_of_read? (read?_cons_of_ne unreserved.1 _)] at isFound
      exact ih isFound
  | reference wellNamed isAllowed _ ih =>
      rw [all_render_append wellNamed, List.mem_cons] at isFound
      rcases isFound with rfl | isLater
      · exact ⟨isAllowed, wellNamed⟩
      · exact ih isLater

theorem rewrite_append (within : Within allowed left) (right : Text) :
    rewrite write (left ++ right) = rewrite write left ++ rewrite write right := by
  induction within with
  | nil => rfl
  | char unreserved _ ih =>
      rw [List.cons_append, rewrite_cons unreserved.1, rewrite_cons unreserved.1,
        ih, List.cons_append]
  | reference wellNamed _ _ ih =>
      rw [List.append_assoc, rewrite_render_append wellNamed, rewrite_render_append wellNamed,
        ih, List.append_assoc]

theorem rewrite (within : Within allowed text)
    (writes : ∀ reference, allowed reference → reference.WellNamed →
      Within other (write reference)) :
    Within other (rewrite write text) := by
  induction within with
  | nil => exact nil
  | char unreserved _ ih =>
      rw [rewrite_cons unreserved.1]
      exact char unreserved ih
  | reference wellNamed isAllowed _ ih =>
      rw [rewrite_render_append wellNamed]
      exact append (writes _ isAllowed wellNamed) ih

theorem rewrite_congr {first second : Reference → Text} (within : Within allowed text)
    (same : ∀ reference, allowed reference → reference.WellNamed →
      first reference = second reference) :
    Reference.rewrite first text = Reference.rewrite second text := by
  apply Reference.rewrite_congr
  intro reference isFound
  exact same reference (within.mem_all isFound).1 (within.mem_all isFound).2

theorem rewrite_rewrite {first second : Reference → Text} (within : Within allowed text)
    (writes : ∀ reference, allowed reference → reference.WellNamed →
      Within other (first reference)) :
    Reference.rewrite second (Reference.rewrite first text) =
      Reference.rewrite (fun reference => Reference.rewrite second (first reference)) text := by
  induction within with
  | nil => rfl
  | char unreserved _ ih =>
      rw [rewrite_cons unreserved.1, rewrite_cons unreserved.1, rewrite_cons unreserved.1,
        ih]
  | reference wellNamed isAllowed _ ih =>
      rw [rewrite_render_append wellNamed, (writes _ isAllowed wellNamed).rewrite_append,
        ih, rewrite_render_append wellNamed]

theorem replaceItemsM_eq {ε : Type} {attempt : Reference → Except ε Text}
    (within : Within allowed text)
    (accepts : ∀ reference, allowed reference → reference.WellNamed →
      attempt reference = .ok (write reference)) :
    Text.replaceItemsM recognise attempt text = .ok (Reference.rewrite write text) := by
  apply replaceItemsM_eq_ok
  intro reference isFound
  exact accepts reference (within.mem_all isFound).1 (within.mem_all isFound).2

/-- What the references are rewritten to decides where the result is within, if there is one. -/
theorem of_replaceItemsM {ε : Type} {attempt : Reference → Except ε Text} {result : Text}
    (within : Within allowed text)
    (writes : ∀ reference written, allowed reference → attempt reference = .ok written →
      Within other written)
    (rewritten : Text.replaceItemsM recognise attempt text = .ok result) : Within other result := by
  induction within generalizing result with
  | nil =>
      simp only [Text.replaceItemsM, Text.pieces_nil, List.mapM_nil, Except.map, pure, Except.pure,
        List.flatten_nil, Except.ok.injEq] at rewritten
      rw [← rewritten]
      exact nil
  | @char c rest unreserved _ ih =>
      rw [replaceItemsM_cons unreserved.1] at rewritten
      cases onwards : Text.replaceItemsM recognise attempt rest with
      | error error => simp [onwards, Except.map] at rewritten
      | ok more =>
          simp only [onwards, Except.map, Except.ok.injEq] at rewritten
          rw [← rewritten]
          exact char unreserved (ih onwards)
  | @reference written rest wellNamed isAllowed _ ih =>
      rw [replaceItemsM_render_append wellNamed] at rewritten
      cases ofReference : attempt written with
      | error error => simp [ofReference, bind, Except.bind] at rewritten
      | ok final =>
          cases onwards : Text.replaceItemsM recognise attempt rest with
          | error error => simp [ofReference, onwards, bind, Except.bind, Except.map] at rewritten
          | ok more =>
              simp only [ofReference, onwards, bind, Except.bind, Except.map, Except.ok.injEq]
                at rewritten
              rw [← rewritten]
              exact append (writes _ _ isAllowed ofReference) (ih onwards)

end Within

theorem rewrite_render (wellNamed : reference.WellNamed) :
    rewrite write reference.render = write reference := by
  have single : rewrite write (reference.render ++ []) = write reference ++ rewrite write [] :=
    rewrite_render_append wellNamed []
  simpa using single

end Reference

end TerseStyle

import TerseStyle.Proofs.OrderedMap
import TerseStyle.Proofs.Vocabulary
import TerseStyle.Query.Selector

/-!
# Selectors of nested queries

Reading a selector makes up no reserved characters but those of references to classes of the source.
Cutting at blanks and trimming keep such a text in one piece, since a written reference holds no
blank. Once the classes are known, every selector is unmarked.
-/

namespace TerseStyle

namespace Reference

theorem notBlank_of_mem_render {reference : Reference} (wellNamed : reference.WellNamed) :
    ∀ c ∈ reference.render, isBlank c = false := by
  intro c isChar
  rcases mem_render wellNamed isChar with isName | isOther
  · by_contra blank
    rw [Bool.not_eq_false] at blank
    rw [isNameChar_of_isBlank blank] at isName
    simp at isName
  · have noneBlank : ∀ c ∈ opening :: closing :: ("$&@:" : Text), isBlank c = false := by decide
    exact noneBlank c isOther

namespace Within

variable {allowed : Reference → Prop} {text left right : Text}

/-- A part that is cut off, and is unmarked, does not cut through a reference. -/
theorem of_append_left (within : Within allowed (left ++ right)) (unmarked : Unmarked right) :
    Within allowed left := by
  generalize isWhole : left ++ right = whole at within
  induction within generalizing left with
  | nil =>
      rw [List.append_eq_nil_iff] at isWhole
      rw [isWhole.1]
      exact nil
  | char unreserved _ ih =>
      cases left with
      | nil => exact nil
      | cons first rest =>
          rw [List.cons_append, List.cons.injEq] at isWhole
          rw [isWhole.1]
          exact char unreserved (ih isWhole.2)
  | @reference written rest wellNamed isAllowed _ ih =>
      rcases List.append_eq_append_iff.mp isWhole with ⟨more, isRender, isRight⟩ |
        ⟨more, isLeft, isRest⟩
      · -- The cut would fall inside the reference, which ends with a reserved character.
        rcases List.eq_nil_or_concat more with rfl | ⟨before, last, rfl⟩
        · rw [List.append_nil] at isRender
          rw [← isRender]
          exact of_render wellNamed isAllowed
        · obtain ⟨inner, ends⟩ := exists_render_eq_append_closing written
          rw [isRender, List.concat_eq_append, ← List.append_assoc] at ends
          have isClosing : last = closing :=
            (List.append_inj_right' ends rfl) |> List.singleton_inj.mp
          have inRight : closing ∈ right := by
            rw [isRight, List.concat_eq_append, isClosing]
            simp
          exact absurd rfl (unmarked closing inRight).2
      · rw [isLeft]
        exact reference wellNamed isAllowed (ih isRest.symm)

theorem of_cons {c : CodePoint} {rest : Text} (within : Within allowed (c :: rest))
    (notOpening : c ≠ opening) : Within allowed rest := by
  generalize isWhole : c :: rest = whole at within
  cases within with
  | nil => simp at isWhole
  | char _ onwards =>
      rw [List.cons.injEq] at isWhole
      rw [isWhole.2]
      exact onwards
  | @reference written _ =>
      have begins : ∃ covered, written.render = opening :: covered := by
        cases written <;> exact ⟨_, rfl⟩
      obtain ⟨covered, isRender⟩ := begins
      rw [isRender, List.cons_append, List.cons.injEq] at isWhole
      exact absurd isWhole.1 notOpening

theorem ne_marker_of_isBlank {c : CodePoint} (blank : isBlank c = true) :
    c ≠ opening ∧ c ≠ closing := by
  constructor
  · rintro rfl
    exact absurd blank (by decide)
  · rintro rfl
    exact absurd blank (by decide)

theorem dropBlanks (within : Within allowed text) : Within allowed (text.dropWhile isBlank) := by
  induction text with
  | nil => exact nil
  | cons c rest ih =>
      rw [List.dropWhile_cons]
      split
      · next blank => exact ih (within.of_cons (ne_marker_of_isBlank blank).1)
      · exact within

theorem trim (within : Within allowed text) : Within allowed (Text.trim text) := by
  rw [Text.trim, Text.trimRight]
  generalize hStart : text.dropWhile isBlank = start
  have ofStart : Within allowed start := hStart ▸ within.dropBlanks
  have parts : (start.reverse.dropWhile isBlank).reverse ++
      (start.reverse.takeWhile isBlank).reverse = start := by
    rw [← List.reverse_append, List.takeWhile_append_dropWhile, List.reverse_reverse]
  rw [← parts] at ofStart
  apply ofStart.of_append_left
  intro c isChar
  exact ne_marker_of_isBlank (List.mem_takeWhile_imp (List.mem_reverse.mp isChar))

theorem splitOnP_append {front rest : Text} (noBlank : ∀ c ∈ front, isBlank c = false) :
    (front ++ rest).splitOnP isBlank = (rest.splitOnP isBlank).modifyHead (front ++ ·) := by
  induction front with
  | nil =>
      cases parts : rest.splitOnP isBlank with
      | nil => exact absurd parts (List.splitOnP_ne_nil _ _)
      | cons head tail => simp [parts]
  | cons c front ih =>
      rw [List.forall_mem_cons] at noBlank
      rw [List.cons_append, List.splitOnP_cons_eq_if_modifyHead, noBlank.1,
        ih noBlank.2]
      cases rest.splitOnP isBlank <;> simp

theorem of_mem_splitOnP (within : Within allowed text) :
    ∀ part ∈ text.splitOnP isBlank, Within allowed part := by
  induction within with
  | nil =>
      intro part isPart
      rw [List.splitOnP_nil, List.mem_singleton] at isPart
      rw [isPart]
      exact nil
  | @char c rest unreserved onwards ih =>
      intro part isPart
      rw [List.splitOnP_cons_eq_if_modifyHead] at isPart
      split at isPart
      · rcases List.mem_cons.mp isPart with rfl | isLater
        · exact nil
        · exact ih part isLater
      · cases parts : rest.splitOnP isBlank with
        | nil => exact absurd parts (List.splitOnP_ne_nil _ _)
        | cons head tail =>
            rw [parts, List.forall_mem_cons] at ih
            rw [parts, List.modifyHead_cons] at isPart
            rcases List.mem_cons.mp isPart with rfl | isLater
            · exact char unreserved ih.1
            · exact ih.2 part isLater
  | @reference written rest wellNamed isAllowed onwards ih =>
      intro part isPart
      rw [splitOnP_append (notBlank_of_mem_render wellNamed)] at isPart
      cases parts : rest.splitOnP isBlank with
      | nil => exact absurd parts (List.splitOnP_ne_nil _ _)
      | cons head tail =>
          rw [parts, List.forall_mem_cons] at ih
          rw [parts, List.modifyHead_cons] at isPart
          rcases List.mem_cons.mp isPart with rfl | isLater
          · exact reference wellNamed isAllowed ih.1
          · exact ih.2 part isLater

theorem joinWith {separator : Text} {texts : List Text} (ofSeparator : Within allowed separator)
    (ofTexts : ∀ text ∈ texts, Within allowed text) :
    Within allowed (Text.joinWith separator texts) := by
  induction texts using Text.joinWith.induct with
  | case1 => exact nil
  | case2 text => exact ofTexts text (List.mem_singleton_self text)
  | case3 text next rest ih =>
      rw [List.forall_mem_cons] at ofTexts
      exact (ofTexts.1.append ofSeparator).append (ih ofTexts.2)

theorem collapse (within : Within allowed text) : Within allowed (Text.collapse text) := by
  apply joinWith (of_unmarked (by decide))
  intro word isWord
  exact within.of_mem_splitOnP word (List.mem_of_mem_filter isWord)

end Within

/-- References to classes of the source. -/
def IsScope : Reference → Prop
  | .scope _ => True
  | _ => False

end Reference

open Reference (Unmarked Within)

namespace Selector

variable {text name : Text} {ofElement : Bool} {width : Nat}

theorem mem_of_readState? {isOfElement : Bool}
    (found : readState? ofElement text = some ((isOfElement, name), width)) :
    ∀ c ∈ name, c ∈ text := by
  unfold readState? at found
  split at found
  · next first more =>
    split at found
    · simp only [Option.some.injEq, Prod.mk.injEq] at found
      rw [← found.1.2]
      intro c isChar
      rcases List.mem_cons.mp isChar with rfl | isLater
      · simp
      · simp [(List.takeWhile_sublist _).subset isLater]
    · simp at found
  · simp at found

theorem mem_of_recogniseState (found : recogniseState text = some ((ofElement, name), width)) :
    ∀ c ∈ name, c ∈ text := by
  unfold recogniseState at found
  split at found
  · intro c isChar
    exact List.mem_cons_of_mem _ (mem_of_readState? found c isChar)
  · exact mem_of_readState? found

theorem madeOf_replaceStates {Good : CodePoint → Prop} (ofMarks : Text.MadeOf Good " &.:")
    (ofStates : ∀ {name selector}, Vocabulary.pluginStateSelector? name = some selector →
      Text.MadeOf Good selector) {written : Text} (madeOf : Text.MadeOf Good written) :
    Text.MadeOf Good (Text.replaceItems recogniseState writeState written) := by
  have inMarks : ∀ head ∈ [("&." : Text), " .", "&:", ":"], ∀ c ∈ head, c ∈ (" &.:" : Text) := by
    decide
  have ofHead : ∀ head ∈ [("&." : Text), " .", "&:", ":"], Text.MadeOf Good head :=
    fun head isHead => ofMarks.of_subset (inMarks head isHead)
  simp only [List.forall_mem_cons] at ofHead
  apply madeOf.replaceItems
  rintro suffix ⟨ofElement, name⟩ width ofSuffix found
  have ofName : Text.MadeOf Good name := ofSuffix.of_subset (mem_of_recogniseState found)
  simp only [writeState]
  split
  · next isState => cases ofElement <;> simp [ofHead, ofStates isState]
  · cases ofElement <;> simp [ofHead, ofName]

theorem isName_of_recogniseScope (found : recogniseScope text = some (name, width)) :
    Reference.IsName name := by
  unfold recogniseScope at found
  split at found
  · simp at found
  · simp only at found
    split at found
    · simp at found
    · next notEmpty =>
      simp only [Option.some.injEq, Prod.mk.injEq] at found
      rw [← found.1]
      refine ⟨by simpa using notEmpty, ?_⟩
      intro c isChar
      exact List.mem_takeWhile_imp isChar

theorem within_read {written : Text} (unmarked : Unmarked written) :
    Within Reference.IsScope (read written) := by
  apply Within.collapse
  apply Within.flatMap
  intro piece isPiece
  have unmarkedStates : Unmarked (Text.replaceItems recogniseState writeState written) :=
    madeOf_replaceStates (by decide)
      (fun isState => (Vocabulary.of_pluginStateSelector? isState).2.1) unmarked
  rcases Text.mem_pieces isPiece with ⟨c, isChar, rfl⟩ | ⟨suffix, width, name, _, found, rfl⟩
  · exact Within.of_unmarked (by simpa [Piece.render] using unmarkedStates c isChar)
  · have wellNamed : (Reference.scope name).WellNamed := isName_of_recogniseScope found
    exact Within.of_render wellNamed trivial

theorem unmarked_nest {names : OrderedMap Text Text}
    (unmarkedNames : ∀ name ∈ names.values, Unmarked name) {parent selector nested : Text}
    (unmarkedParent : Unmarked parent) (within : Within Reference.IsScope selector)
    (isNested : nest names parent selector = .ok nested) : Unmarked nested := by
  rw [nest] at isNested
  cases resolves : Reference.resolveScope (ofClass names) (Text.trim selector) with
  | error error => simp [resolves, Except.map] at isNested
  | ok resolved =>
      have unmarkedResolved : Unmarked resolved := by
        apply Within.unmarked
        apply within.trim.of_replaceItemsM _ resolves
        intro reference written isScope accepted
        cases reference with
        | runtime name block => exact isScope.elim
        | localVariable name => exact isScope.elim
        | scope name =>
            simp only [ofClass] at accepted
            split at accepted
            · next display isClass =>
              rw [Except.ok.injEq] at accepted
              rw [← accepted]
              apply Within.of_unmarked
              simp only [Text.madeOf_append]
              have isEntry := OrderedMap.get?_eq_some_iff.mp isClass
              exact ⟨by decide, unmarkedNames display (List.mem_map_of_mem isEntry)⟩
            · simp at accepted
      simp only [resolves, Except.map, Except.ok.injEq] at isNested
      rw [← isNested]
      split
      · exact unmarkedParent.replaceChar unmarkedResolved
      · have space : Unmarked (" " : Text) := by decide
        simp [unmarkedParent, unmarkedResolved, space]

end Selector

end TerseStyle

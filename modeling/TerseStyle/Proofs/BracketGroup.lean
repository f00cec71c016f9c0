import TerseStyle.Proofs.Grammar
import TerseStyle.Proofs.Spelling

/-!
# The value of a declaration as a bracket group

A declaration is read up to the last closing bracket of its statement, while statements are cut by
nesting. The two agree on one group: the group that opens right after the name is closed again at
some place (`Reads.exists_close`), and what follows that place is empty, a mark, or a further whole
statement. If a bracket follows, the value runs on to the end of it. So the brackets of the value
are balanced exactly if the statement is not two statements run together (`Text.RunsTogether`).
-/

namespace TerseStyle

namespace Text

/-- The square brackets are balanced: as many close as open, and no more close than open up to any
place. -/
structure IsBalanced (text : Text) : Prop where
  total : text.count (.char ']') = text.count (.char '[')
  prefixes : ∀ before, before <+: text → before.count (.char ']') ≤ before.count (.char '[')

/-- The text is one statement made of two, with a bracket in each and no blank between them. -/
def RunsTogether (statement : Text) : Prop :=
  ∃ first second, statement = first ++ second ∧
    (statements first = .ok [first] ∧ .char '[' ∈ first) ∧
    statements second = .ok [second] ∧ .char '[' ∈ second

end Text

open Text (IsBalanced RunsTogether)

namespace Scan

variable {scan next last : Scan} {c : CodePoint} {text : Text}

theorem count_of_step (steps : scan.step c = .ok next) :
    next.bracketDepth + [c].count (.char ']') = scan.bracketDepth + [c].count (.char '[') := by
  rcases bracketDepth_of_step steps with ⟨rfl, isMore⟩ | ⟨rfl, isLess⟩ | ⟨notOpen, notClose, same⟩
  · simp [isMore]
  · simp [isLess]
  · simp [notOpen, notClose, same]

/-- The open brackets and those that the text closes are as many as were open and it opens. -/
theorem Reads.bracketDepth (reads : Reads scan text last) :
    last.bracketDepth + text.count (.char ']') = scan.bracketDepth + text.count (.char '[') := by
  induction reads with
  | nil => rfl
  | @cons scan next last c rest steps _ _ ih =>
      have ofStep := count_of_step steps
      rw [← List.singleton_append, List.count_append, List.count_append]
      omega

/-- Inside a value a character closes it or leaves it open. -/
theorem closes_or_stays {inner : List Group} (isValue : scan.groups = inner ++ [.value])
    (steps : scan.step c = .ok next) :
    (c = CodePoint.char ']' ∧ next.groups = []) ∨
      ∃ inner, next.groups = inner ++ [.value] := by
  rcases cases_of_groupsAfter (groupsAfter_of_step steps).1 with ⟨group, _, isGroups, _⟩ |
    ⟨group, isCloser, isGroups⟩ | ⟨_, isGroups⟩
  · right
    exact ⟨group :: inner, by rw [isGroups, isValue, List.cons_append]⟩
  · rw [isValue] at isGroups
    cases inner with
    | nil =>
        rw [List.nil_append, List.cons.injEq] at isGroups
        left
        rw [isCloser, ← isGroups.1]
        exact ⟨rfl, isGroups.2.symm⟩
    | cons innermost inner =>
        rw [List.cons_append, List.cons.injEq] at isGroups
        exact Or.inr ⟨inner, isGroups.2.symm⟩
  · exact Or.inr ⟨inner, isGroups.trans isValue⟩

/-- A value that is open and is closed at the end is closed at some bracket, up to which more
brackets are open than closed. -/
theorem Reads.exists_close {inner : List Group} (reads : Reads scan text last)
    (isValue : scan.groups = inner ++ [.value]) (closed : last.groups = []) :
    ∃ body after middle, text = body ++ CodePoint.char ']' :: after ∧
      Reads scan (body ++ [CodePoint.char ']']) middle ∧ middle.groups = [] ∧
      Reads middle after last ∧
      ∀ before, before <+: body →
        before.count (.char ']') < scan.bracketDepth + before.count (.char '[') := by
  induction reads generalizing inner with
  | nil => simp [isValue] at closed
  | @cons scan next last c rest steps inGroup onwards ih =>
      have isOpen : 0 < scan.bracketDepth := by
        rw [Scan.bracketDepth, isValue]
        simp
      rcases closes_or_stays isValue steps with ⟨rfl, isClosed⟩ | ⟨_, isValueStill⟩
      · refine ⟨[], rest, next, rfl, .cons steps inGroup (.nil _), isClosed, onwards, ?_⟩
        intro before isPrefix
        rw [List.prefix_nil.mp isPrefix]
        simpa using isOpen
      · rcases ih isValueStill closed with
          ⟨body, after, middle, rfl, reads, isClosed, readsAfter, prefixes⟩
        refine ⟨c :: body, after, middle, rfl, .cons steps inGroup reads, isClosed, readsAfter, ?_⟩
        intro before isPrefix
        rcases List.prefix_cons_iff.mp isPrefix with rfl | ⟨shorter, rfl, isShorter⟩
        · simpa using isOpen
        · have ofStep := count_of_step steps
          have ofShorter := prefixes shorter isShorter
          rw [← List.singleton_append, List.count_append, List.count_append]
          omega

theorem Reads.groups_of_ordinary (reads : Reads scan text last)
    (ordinary : ∀ c ∈ text, c ∉ ("()[]" : Text)) : last.groups = scan.groups := by
  induction reads with
  | nil => rfl
  | @cons scan next last c rest steps _ _ ih =>
      rw [List.forall_mem_cons] at ordinary
      have isBracket : ∀ group : Group, group.opener ∈ ("()[]" : Text) ∧
          group.closer ∈ ("()[]" : Text) := by
        intro group
        cases group <;> decide
      rw [ih ordinary.2]
      rcases cases_of_groupsAfter (groupsAfter_of_step steps).1 with ⟨group, rfl, _⟩ |
        ⟨group, rfl, _⟩ | ⟨_, isGroups⟩
      · exact absurd (isBracket group).1 ordinary.1
      · exact absurd (isBracket group).2 ordinary.1
      · exact isGroups

end Scan

theorem IsWhole.count_eq {text : Text} (whole : IsWhole text) :
    text.count (.char ']') = text.count (.char '[') := by
  rcases whole with ⟨_, last, reads, closed⟩
  have depth := reads.bracketDepth
  simpa [Scan.bracketDepth, closed] using depth

namespace Declaration

variable {statement : Text} {declaration : Declaration}

theorem ordinary_head (found : read? statement = some declaration) :
    ∀ c ∈ declaration.sigil.text ++ declaration.name, c ∉ ("()[]" : Text) := by
  have notInName : ∀ c ∈ ("()[]" : Text), isAsciiNameChar c = false := by decide
  rw [List.forall_mem_append]
  constructor
  · cases declaration.sigil <;> decide
  · intro c inName isBracket
    have isAscii := isAscii_of_parse (parse_eq_ok_iff_read?.mpr found) c inName
    simp [notInName c isBracket] at isAscii

/-- The group after the name is closed again, and what follows it is a whole statement if it is
anything. -/
theorem exists_group (whole : IsWhole statement) (found : read? statement = some declaration) :
    ∃ body after, declaration.value ++ CodePoint.char ']' ::
        (if declaration.important then [.char '!'] else []) = body ++ CodePoint.char ']' :: after ∧
      IsBalanced body ∧
      IsWhole (declaration.sigil.text ++ declaration.name ++
        CodePoint.char '[' :: (body ++ [CodePoint.char ']'])) ∧
      (after ≠ [] → IsWhole after) := by
  rcases whole with ⟨_, last, reads, closed⟩
  rw [eq_render_of_read? found, render_eq, ← List.append_assoc] at reads
  rcases reads.split with ⟨afterHead, readsHead, readsGroup⟩
  cases readsGroup with
  | @cons _ opened _ _ _ opens notBlank readsRest =>
      have isValue : opened.groups = [] ++ [.value] := by
        have opensValue := Scan.groupsAfter_opener (.value (Level.ofGroups afterHead.groups) _)
        rw [Group.opener, (Scan.groupsAfter_of_step opens).1, Except.ok.injEq,
          readsHead.groups_of_ordinary (ordinary_head found)] at opensValue
        exact opensValue
      have depth : opened.bracketDepth = 1 := by simp [Scan.bracketDepth, isValue]
      rcases readsRest.exists_close isValue closed with
        ⟨body, after, middle, isText, readsBody, isClosed, readsAfter, prefixes⟩
      refine ⟨body, after, isText, ⟨?_, ?_⟩, ⟨by simp, middle, ?_, isClosed⟩, ?_⟩
      · have noDepth : middle.bracketDepth = 0 := by simp [Scan.bracketDepth, isClosed]
        have ofBody := readsBody.bracketDepth
        rw [depth, noDepth, List.count_append, List.count_append, List.count_singleton_self,
          List.count_singleton, if_neg (by decide)] at ofBody
        omega
      · intro before isPrefix
        have fewer := prefixes before isPrefix
        omega
      · exact readsHead.append (.cons opens notBlank readsBody)
      · intro nonempty
        have fresh : Scan.Similar middle {} := by
          refine ⟨isClosed, ?_⟩
          rcases readsBody.split with ⟨beforeCloser, _, readsCloser⟩
          cases readsCloser with
          | cons closes _ ends =>
              cases ends
              have notName : isNameChar (.char ']') = false := by decide
              rw [Scan.nameBefore_of_step closes, notName]
              rfl
        rcases readsAfter.similar fresh with ⟨lastOther, readsOther, similar⟩
        exact ⟨nonempty, lastOther, readsOther, similar.groups ▸ closed⟩

theorem not_mem_mark (important : Bool) {c : CodePoint} (isBracket : c ∈ ("[]" : Text)) :
    c ∉ (if important then [.char '!'] else [] : Text) := by
  rintro isMark
  split at isMark
  · rw [List.mem_singleton] at isMark
    subst isMark
    exact absurd isBracket (by decide)
  · simp at isMark

/-- The value ends with its group, or a further statement with a bracket follows the group. -/
theorem isBalanced_or_runsTogether (whole : IsWhole statement)
    (found : read? statement = some declaration) :
    IsBalanced declaration.value ∨ RunsTogether statement := by
  rcases exists_group whole found with ⟨body, after, sameText, balanced, wholeGroup, wholeAfter⟩
  rcases List.append_eq_append_iff.mp sameText with
    ⟨between, isBody, sameEnd⟩ | ⟨between, isValue, sameEnd⟩
  · -- The group ends no earlier than the value, so it ends with the value.
    left
    cases between with
    | nil =>
        rw [List.append_nil] at isBody
        exact isBody ▸ balanced
    | cons c between =>
        rw [List.cons_append, List.cons.injEq] at sameEnd
        have inMark : .char ']' ∈ (if declaration.important then [.char '!'] else [] : Text) := by
          rw [sameEnd.2]
          simp
        exact absurd inMark (not_mem_mark _ (by decide))
  · cases between with
    | nil =>
        rw [List.append_nil] at isValue
        exact Or.inl (isValue ▸ balanced)
    | cons c between =>
        rw [List.cons_append, List.cons.injEq] at sameEnd
        have closes : .char ']' ∈ after := by
          rw [sameEnd.2]
          simp
        have isWholeAfter := wholeAfter (List.ne_nil_of_mem closes)
        have opens : .char '[' ∈ after := by
          rw [← List.count_pos_iff, ← isWholeAfter.count_eq, List.count_pos_iff]
          exact closes
        refine Or.inr ⟨_, after, ?_, ⟨statements_of_isWhole wholeGroup, by simp⟩,
          statements_of_isWhole isWholeAfter, opens⟩
        rw [eq_render_of_read? found, render_eq, sameText]
        simp only [List.append_assoc, List.cons_append, List.nil_append]

/-- Up to the end of the first of two statements, the value closes more brackets than it opens. -/
theorem not_isBalanced_of_runsTogether (found : read? statement = some declaration)
    (together : RunsTogether statement) : ¬IsBalanced declaration.value := by
  rcases together with ⟨first, second, isBoth, ⟨isFirst, opensFirst⟩, _, opensSecond⟩
  intro balanced
  have notInHead : .char '[' ∉ declaration.sigil.text ++ declaration.name :=
    fun inHead => ordinary_head found _ inHead (by decide)
  have notCloserInHead : .char ']' ∉ declaration.sigil.text ++ declaration.name :=
    fun inHead => ordinary_head found _ inHead (by decide)
  have whole := isWhole_of_statements isFirst first (List.mem_singleton_self first)
  rw [eq_render_of_read? found, render_eq, ← List.append_assoc] at isBoth
  generalize declaration.sigil.text ++ declaration.name = head at isBoth notInHead notCloserInHead
  rcases List.append_eq_append_iff.mp isBoth with ⟨start, isStart, sameRest⟩ | ⟨start, isHead, _⟩
  · cases start with
    | nil =>
        rw [List.append_nil] at isStart
        exact notInHead (isStart ▸ opensFirst)
    | cons c start =>
        rw [List.cons_append, List.cons.injEq] at sameRest
        have counts := whole.count_eq
        rw [isStart, ← sameRest.1, List.count_append, List.count_append,
          List.count_eq_zero_of_not_mem notInHead, List.count_eq_zero_of_not_mem notCloserInHead,
          List.count_cons_self, List.count_cons_of_ne (by decide)] at counts
        rcases List.append_eq_append_iff.mp sameRest.2 with ⟨rest, _, isEnd⟩ | ⟨rest, isValue, _⟩
        · have inEnd : .char '[' ∈ rest ++ second := List.mem_append_right _ opensSecond
          rw [← isEnd, List.mem_cons] at inEnd
          rcases inEnd with isCloser | inMark
          · exact absurd isCloser (by decide)
          · exact not_mem_mark _ (by decide) inMark
        · have fewer := balanced.prefixes start ⟨rest, isValue.symm⟩
          omega
  · exact notInHead (isHead ▸ List.mem_append_left _ opensFirst)

/-- The brackets of a value are balanced exactly if its statement is not two run together. -/
theorem isBalanced_value_iff {text : Text} {found : List Text}
    (scanned : statements text = .ok found)
    (isStatement : statement ∈ found) (parsed : parse statement = .ok declaration) :
    IsBalanced declaration.value ↔ ¬RunsTogether statement := by
  have whole := isWhole_of_statements scanned statement isStatement
  have spelled := parse_eq_ok_iff_read?.mp parsed
  constructor
  · exact fun balanced together => not_isBalanced_of_runsTogether spelled together balanced
  · exact (isBalanced_or_runsTogether whole spelled).resolve_right

/-- Both cases in one body: a bracket group inside the value, and two groups side by side. -/
theorem isBalanced_value_iff_nested :
    let text : Text := "bg[url(a[1])]!\nc[d]e[f]"
    let found : List Text := ["bg[url(a[1])]!", "c[d]e[f]"]
    statements text = .ok found ∧ ∀ statement ∈ found, ∃ declaration,
      parse statement = .ok declaration ∧
        (IsBalanced declaration.value ↔ ¬RunsTogether statement) := by
  intro text found
  have scanned : statements text = .ok found := by decide +kernel
  refine ⟨scanned, ?_⟩
  rw [List.forall_mem_cons, List.forall_mem_singleton]
  exact ⟨⟨_, rfl, isBalanced_value_iff scanned (by simp [found]) rfl⟩,
    ⟨_, rfl, isBalanced_value_iff scanned (by simp [found]) rfl⟩⟩

/-- Two declarations with no blank between them are read as one value. -/
theorem not_isBalanced_value_adjacent :
    let statement : Text := "bg[red]c[blue]"
    statements statement = .ok [statement] ∧ ∃ declaration,
      parse statement = .ok declaration ∧ declaration.value = "red]c[blue" ∧
        ¬IsBalanced declaration.value := by
  refine ⟨by decide +kernel, _, rfl, rfl, ?_⟩
  intro balanced
  have fewer := balanced.prefixes "red]" ⟨"c[blue", rfl⟩
  exact absurd fewer (by decide)

end Declaration

end TerseStyle

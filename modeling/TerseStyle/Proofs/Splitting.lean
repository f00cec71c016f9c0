import TerseStyle.Proofs.Grammar

/-!
# Cutting and joining bodies

Cutting a body into statements loses nothing but the blanks outside every group. What is kept is
described without a scan: `squeeze` counts the open brackets of both kinds and does not tell them
apart. Since every statement of a body is a whole, it is a body on its own with itself as its only
statement. So all that can be said about joining follows from the law for two bodies with blanks
between them (`statements_append_gap`).
-/

namespace TerseStyle

namespace Text

/-- The text consists of blanks, and of at least one. -/
def IsGap (text : Text) : Prop :=
  text ≠ [] ∧ ∀ c ∈ text, isBlank c = true

/-- The text is not empty, has no blank at its ends, and no blank but spaces in between. -/
structure IsCompact (text : Text) : Prop where
  nonempty : text ≠ []
  first : ∀ c ∈ text.head?, isBlank c = false
  last : ∀ c ∈ text.getLast?, isBlank c = false
  spaces : ∀ c ∈ text, isBlank c = true → c = .char ' '

/-- The parts in order, with the gaps between neighbours. -/
def joinGaps : List Text → List Text → Text
  | part :: next :: rest, gap :: gaps => part ++ gap ++ joinGaps (next :: rest) gaps
  | parts, _ => parts.flatten

/-- The number of open brackets after a character. -/
def depthAfter (depth : Nat) (c : CodePoint) : Nat :=
  if c ∈ ("[(" : Text) then depth + 1
  else if c ∈ ("])" : Text) then depth - 1
  else depth

/-- The text without the blanks outside all brackets, and with a space for every other blank. -/
def squeeze (depth : Nat) : Text → Text
  | [] => []
  | c :: rest =>
    if isBlank c then
      if depth = 0 then squeeze depth rest else .char ' ' :: squeeze depth rest
    else c :: squeeze (depthAfter depth c) rest

end Text

open Text (IsGap IsCompact joinGaps squeeze depthAfter)

namespace Scan

variable {scan next last : Scan} {c : CodePoint} {text part : Text}

/-! ## What is kept -/

theorem depthAfter_of_groupsAfter {groups : List Group} (after : scan.groupsAfter c = .ok groups) :
    groups.length = depthAfter scan.groups.length c := by
  have openers : ("[(" : Text) = [.char '[', .char '('] := rfl
  have closers : ("])" : Text) = [.char ']', .char ')'] := rfl
  unfold depthAfter
  rw [openers, closers]
  rcases cases_of_groupsAfter after with ⟨group, rfl, rfl, _⟩ | ⟨group, rfl, isOpen⟩ |
    ⟨admitted, rfl⟩
  · cases group <;> simp [Group.opener]
  · cases group <;> simp [Group.closer, isOpen]
  · rcases (Level.admits_iff.mp admitted).1 with ⟨notOpen, notClose, notParen, notCloseParen⟩
    simp [notOpen, notClose, notParen, notCloseParen]

theorem flatten_ended (part : Text) : (ended part).flatten = part.reverse := by
  unfold ended
  split
  · next isEmpty => simp [List.isEmpty_iff.mp isEmpty]
  · simp

theorem flatten_statementsAfter {found : List Text}
    (scanned : scan.statementsAfter part text = .ok found) :
    found.flatten = part.reverse ++ squeeze scan.groups.length text := by
  induction text generalizing scan part found with
  | nil =>
      rcases statementsAfter_nil_eq_ok.mp scanned with ⟨_, rfl⟩
      rw [flatten_ended, squeeze, List.append_nil]
  | cons c rest ih =>
      rcases statementsAfter_cons_eq_ok.mp scanned with
        ⟨next, steps, ⟨⟨closed, blank⟩, later, scannedLater, rfl⟩ | ⟨goesOn, scannedRest⟩⟩
      · have stillClosed : next.groups = [] := (similar_of_break blank closed steps).groups.symm
        rw [List.flatten_append, flatten_ended, ih scannedLater, stillClosed,
          closed, squeeze, if_pos blank]
        rfl
      · have onwards := ih scannedRest
        rw [List.reverse_cons, List.append_assoc, List.singleton_append] at onwards
        rw [onwards, squeeze]
        by_cases blank : isBlank c = true
        · have isOpen : scan.groups.length ≠ 0 := by
            intro closed
            exact goesOn ⟨List.eq_nil_of_length_eq_zero closed, blank⟩
          rw [step_of_isBlank blank, Except.ok.injEq] at steps
          rw [if_pos blank, if_pos blank, if_neg isOpen, ← steps]
        · rw [if_neg blank, if_neg blank, depthAfter_of_groupsAfter (groupsAfter_of_step steps).1]

theorem Reads.spaces (reads : Reads scan text last) :
    ∀ c ∈ text, isBlank c = true → c = .char ' ' := by
  induction reads with
  | nil => simp
  | cons _ inGroup _ ih =>
      rw [List.forall_mem_cons]
      exact ⟨fun blank => (inGroup blank).1, ih⟩

end Scan

theorem IsWhole.isCompact {statement : Text} (whole : IsWhole statement) : IsCompact statement where
  nonempty := whole.1
  first := whole.first
  last := whole.last
  spaces := by
    rcases whole with ⟨_, last, reads, _⟩
    exact reads.spaces

/-! ## Joining -/

variable {body other gap : Text} {found more : List Text}

theorem statements_gap_append (blanks : ∀ c ∈ gap, isBlank c = true)
    (scanned : statements body = .ok found) : statements (gap ++ body) = .ok found := by
  induction gap with
  | nil => exact scanned
  | cons c gap ih =>
      have nothing : statements [] = .ok [] := rfl
      rw [List.forall_mem_cons] at blanks
      exact statements_append nothing blanks.1 (ih blanks.2)

/-- The statements of two bodies with blanks between them are those of the one and of the other. -/
theorem statements_append_gap (scanned : statements body = .ok found) (isGap : IsGap gap)
    (scannedOther : statements other = .ok more) :
    statements (body ++ gap ++ other) = .ok (found ++ more) := by
  rcases isGap with ⟨nonempty, blanks⟩
  cases gap with
  | nil => exact absurd rfl nonempty
  | cons c gap =>
      rw [List.forall_mem_cons] at blanks
      rw [List.append_assoc, List.cons_append]
      exact statements_append scanned blanks.1 (statements_gap_append blanks.2 scannedOther)

theorem statements_joinGaps {parts gaps : List Text} (whole : ∀ part ∈ parts, IsWhole part)
    (enough : gaps.length = parts.length - 1) (areGaps : ∀ gap ∈ gaps, IsGap gap) :
    statements (joinGaps parts gaps) = .ok parts := by
  induction parts generalizing gaps with
  | nil =>
      unfold joinGaps
      rfl
  | cons part rest ih =>
      rw [List.forall_mem_cons] at whole
      cases rest with
      | nil => simpa [joinGaps] using statements_of_isWhole whole.1
      | cons next rest =>
          cases gaps with
          | nil => simp at enough
          | cons gap gaps =>
              rw [List.forall_mem_cons] at areGaps
              have isEnough : gaps.length = (next :: rest).length - 1 := by simpa using enough
              rw [joinGaps]
              exact statements_append_gap (statements_of_isWhole whole.1) areGaps.1
                (ih whole.2 isEnough areGaps.2)

/-- Cutting a body loses nothing and is stable: the statements are compact and make up the body
without its blanks outside all brackets; joined by any gaps they are the statements of what comes
about; and a further body after a gap adds its own statements. -/
theorem statements_lossless_stable (scanned : statements body = .ok found) :
    (∀ statement ∈ found, IsCompact statement) ∧
      found.flatten = squeeze 0 body ∧
      (∀ gaps : List Text, gaps.length = found.length - 1 → (∀ gap ∈ gaps, IsGap gap) →
        statements (joinGaps found gaps) = .ok found) ∧
      ∀ (gap other : Text) (more : List Text), IsGap gap → statements other = .ok more →
        statements (body ++ gap ++ other) = .ok (found ++ more) := by
  have whole := isWhole_of_statements scanned
  refine ⟨fun statement isStatement => (whole statement isStatement).isCompact, ?_, ?_, ?_⟩
  · exact Scan.flatten_statementsAfter scanned
  · exact fun gaps => statements_joinGaps whole
  · exact fun gap other more => statements_append_gap scanned

/-- Groups side by side make one statement, and a line break inside them becomes a space. -/
theorem statements_lossless_stable_adjacent :
    let body : Text := "\n a[b\tc]calc(x\n[y])z  hover(\nw[calc(1px)]\n)\n"
    let found : List Text := ["a[b c]calc(x [y])z", "hover( w[calc(1px)] )"]
    statements body = .ok found ∧ found.flatten = squeeze 0 body ∧
      statements (joinGaps found ["\n\t"]) = .ok found ∧
      statements (body ++ " " ++ body) = .ok (found ++ found) := by
  intro body found
  have scanned : statements body = .ok found := by decide +kernel
  rcases statements_lossless_stable scanned with ⟨_, flattened, joined, appended⟩
  refine ⟨scanned, flattened, joined _ rfl ?_, appended _ _ _ ?_ scanned⟩
  · rw [List.forall_mem_singleton]
    exact ⟨by decide, by decide⟩
  · exact ⟨by decide, by decide⟩

end TerseStyle

import Mathlib
import TerseStyle.Scan.Brace
import TerseStyle.Scan.Statement

/-!
# What scanning takes from a text

Cutting a text into lines, words or statements makes up no characters but the space that stands for
a blank inside a group. Whatever holds of all characters of a text and of the space therefore holds
of all characters of its parts.
-/

namespace TerseStyle

/-- The numbers of the blanks. -/
def blankNumbers : List Nat :=
  [9, 10, 11, 12, 13, 28, 29, 30, 31, 32, 0x85, 0xa0, 0x1680, 0x2000, 0x2001, 0x2002, 0x2003,
    0x2004, 0x2005, 0x2006, 0x2007, 0x2008, 0x2009, 0x200a, 0x2028, 0x2029, 0x202f, 0x205f, 0x3000]

theorem isNameChar_of_isBlank {c : CodePoint} (blank : isBlank c = true) :
    isNameChar c = false := by
  have isNumber : c.toNat ∈ blankNumbers := by
    simp only [isBlank, Bool.or_eq_true, Bool.and_eq_true, decide_eq_true_eq, beq_iff_eq] at blank
    generalize c.toNat = number at blank ⊢
    rcases blank with (((((((((⟨least, most⟩ | ⟨least, most⟩) | rfl) | rfl) | rfl) |
      ⟨least, most⟩) | rfl) | rfl) | rfl) | rfl) | rfl
    any_goals decide
    all_goals interval_cases number <;> decide
  have noneIsName : ∀ number ∈ blankNumbers, isNameChar (.char (Char.ofNat number)) = false := by
    decide +kernel
  cases c with
  | char c =>
      have decoded := noneIsName _ isNumber
      rwa [CodePoint.toNat, Char.ofNat_toNat] at decoded
  | half index =>
      simp only [CodePoint.toNat, CodePoint.firstHalf, blankNumbers, List.mem_cons,
        List.not_mem_nil, or_false] at isNumber
      omega

namespace Text

variable {separator c : CodePoint} {text before after : Text}

theorem not_mem_of_splitAtChar? (found : splitAtChar? separator text = some (before, after)) :
    separator ∉ before := by
  induction text generalizing before with
  | nil => simp [splitAtChar?] at found
  | cons c rest ih =>
      rw [splitAtChar?] at found
      split at found
      · simp only [Option.some.injEq, Prod.mk.injEq] at found
        simp [← found.1]
      · next differs =>
        obtain ⟨⟨inner, innerAfter⟩, innerFound, same⟩ := Option.map_eq_some_iff.mp found
        simp only [Prod.mk.injEq] at same
        rcases same with ⟨rfl, rfl⟩
        rw [List.mem_cons, not_or]
        exact ⟨Ne.symm differs, ih innerFound⟩

theorem splitAtChar?_append (notIn : separator ∉ before) (after : Text) :
    splitAtChar? separator (before ++ separator :: after) = some (before, after) := by
  induction before with
  | nil => simp [splitAtChar?]
  | cons c before ih =>
      rw [List.mem_cons, not_or] at notIn
      rw [List.cons_append, splitAtChar?, if_neg (Ne.symm notIn.1),
        ih notIn.2]
      rfl

theorem mem_of_mem_trimRight (isChar : c ∈ trimRight text) : c ∈ text := by
  rw [trimRight, List.mem_reverse] at isChar
  exact List.mem_reverse.mp ((List.dropWhile_sublist _).subset isChar)

theorem mem_of_mem_trim (isChar : c ∈ trim text) : c ∈ text :=
  (List.dropWhile_sublist _).subset (mem_of_mem_trimRight isChar)

theorem mem_of_mem_splitOnP {isSeparator : CodePoint → Bool} {part : Text}
    (isPart : part ∈ text.splitOnP isSeparator) (isChar : c ∈ part) : c ∈ text := by
  induction text generalizing part with
  | nil =>
      simp only [List.splitOnP_nil, List.mem_singleton] at isPart
      rw [isPart] at isChar
      exact isChar
  | cons first rest ih =>
      rw [List.splitOnP_cons_eq_if_modifyHead] at isPart
      split at isPart
      · rcases List.mem_cons.mp isPart with rfl | isLater
        · simp at isChar
        · exact List.mem_cons_of_mem _ (ih isLater isChar)
      · cases parts : rest.splitOnP isSeparator with
        | nil => exact absurd parts (List.splitOnP_ne_nil _ _)
        | cons head tail =>
            rw [parts, List.modifyHead_cons] at isPart
            rcases List.mem_cons.mp isPart with rfl | isLater
            · rcases List.mem_cons.mp isChar with rfl | inHead
              · exact List.mem_cons_self
              · apply List.mem_cons_of_mem
                exact ih (by rw [parts]; exact List.mem_cons_self) inHead
            · apply List.mem_cons_of_mem
              exact ih (by rw [parts]; exact List.mem_cons_of_mem _ isLater) isChar

theorem mem_of_mem_words {word : Text} (isWord : word ∈ words text) (isChar : c ∈ word) :
    c ∈ text :=
  mem_of_mem_splitOnP (List.mem_of_mem_filter isWord) isChar

theorem mem_joinWith {separator : Text} {texts : List Text}
    (isChar : c ∈ joinWith separator texts) : c ∈ separator ∨ ∃ text ∈ texts, c ∈ text := by
  induction texts using joinWith.induct with
  | case1 => simp [joinWith] at isChar
  | case2 text => exact Or.inr ⟨text, List.mem_singleton_self text, isChar⟩
  | case3 text next rest ih =>
      simp only [joinWith, List.mem_append] at isChar
      rcases isChar with (inText | inSeparator) | isLater
      · exact Or.inr ⟨text, List.mem_cons_self, inText⟩
      · exact Or.inl inSeparator
      · rcases ih isLater with inSeparator | ⟨later, isText, inText⟩
        · exact Or.inl inSeparator
        · exact Or.inr ⟨later, List.mem_cons_of_mem _ isText, inText⟩

theorem flatten_linesWithBreaks (text : Text) : (linesWithBreaks text).flatten = text := by
  induction text using linesWithBreaks.induct with
  | case1 => rfl
  | case2 rest ih => simp [linesWithBreaks, ih]
  | case3 c rest notPair isBreak ih =>
      rw [linesWithBreaks, if_pos isBreak, List.flatten_cons, ih]
      · rfl
      · exact notPair
  | case4 c rest notPair notBreak noLine ih =>
      rw [noLine] at ih
      rw [linesWithBreaks, if_neg notBreak, noLine, ← ih]
      · rfl
      · exact notPair
  | case5 c rest notPair notBreak line more lines ih =>
      rw [lines] at ih
      rw [linesWithBreaks, if_neg notBreak, lines, ← ih]
      · rfl
      · exact notPair

theorem mem_of_mem_linesWithBreaks {line : Text} (isLine : line ∈ linesWithBreaks text)
    (isChar : c ∈ line) : c ∈ text := by
  rw [← flatten_linesWithBreaks text]
  exact List.mem_flatten.mpr ⟨line, isLine, isChar⟩

theorem mem_of_mem_lines {line : Text} (isLine : line ∈ lines text) (isChar : c ∈ line) :
    c ∈ text := by
  obtain ⟨whole, isWhole, rfl⟩ := List.mem_map.mp isLine
  exact mem_of_mem_linesWithBreaks isWhole ((List.takeWhile_sublist _).subset isChar)

end Text

namespace Scan

theorem mem_of_mem_statementsAfter {scan : Scan} {part text : Text} {found : List Text}
    (scanned : scan.statementsAfter part text = .ok found) {statement : Text} {c : CodePoint}
    (isStatement : statement ∈ found) (isChar : c ∈ statement) :
    c ∈ part ∨ c ∈ text ∨ c = .char ' ' := by
  induction text generalizing scan part found with
  | nil =>
      simp only [statementsAfter] at scanned
      split at scanned
      · simp at scanned
      · rw [Except.ok.injEq] at scanned
        rw [← scanned] at isStatement
        split at isStatement
        · simp at isStatement
        · rw [List.mem_singleton] at isStatement
          rw [isStatement, List.mem_reverse] at isChar
          exact Or.inl isChar
  | cons first rest ih =>
      have later : ∀ {next : Scan} {found : List Text} {part' : Text},
          next.statementsAfter part' rest = .ok found → statement ∈ found →
          c ∈ part' ∨ c ∈ first :: rest ∨ c = .char ' ' := by
        intro next found part' scanned isStatement
        rcases ih scanned isStatement with inPart | inRest | isSpace
        · exact Or.inl inPart
        · exact Or.inr (Or.inl (List.mem_cons_of_mem _ inRest))
        · exact Or.inr (Or.inr isSpace)
      simp only [statementsAfter] at scanned
      split at scanned
      · simp at scanned
      · next next _ =>
        split at scanned
        · split at scanned
          · exact (later scanned isStatement).imp (by simp) id
          · cases more : next.statementsAfter [] rest with
            | error error => simp [more, Except.map] at scanned
            | ok others =>
                simp only [more, Except.map, Except.ok.injEq] at scanned
                rw [← scanned] at isStatement
                rcases List.mem_cons.mp isStatement with rfl | isLater
                · exact Or.inl (List.mem_reverse.mp isChar)
                · exact (later more isLater).imp (by simp) id
        · rcases later scanned isStatement with inPart | inText
          · rcases List.mem_cons.mp inPart with same | inPart
            · right
              rw [same]
              split
              · exact Or.inr rfl
              · exact Or.inl List.mem_cons_self
            · exact Or.inl inPart
          · exact Or.inr inText

theorem mem_of_mem_splitTopLevelAfter {isSeparator : CodePoint → Bool} {scan : Scan}
    {text before after : Text}
    (found : scan.splitTopLevelAfter isSeparator text = .ok (some (before, after))) :
    ∀ c, c ∈ before ∨ c ∈ after → c ∈ scan.seen ∨ c ∈ text := by
  induction text generalizing scan with
  | nil => simp [splitTopLevelAfter] at found
  | cons first rest ih =>
      simp only [splitTopLevelAfter] at found
      split at found
      · simp at found
      · next next stepped =>
        split at found
        · simp only [Except.ok.injEq, Option.some.injEq, Prod.mk.injEq] at found
          rintro c (inBefore | inAfter)
          · rw [← found.1, List.mem_reverse] at inBefore
            exact Or.inl inBefore
          · rw [← found.2] at inAfter
            exact Or.inr (List.mem_cons_of_mem _ inAfter)
        · have seen : next.seen = first :: scan.seen := by
            simp only [step] at stepped
            split at stepped
            · rw [Except.ok.injEq] at stepped
              rw [← stepped]
            · simp at stepped
          intro c isChar
          rcases ih found c isChar with inSeen | inRest
          · rw [seen] at inSeen
            rcases List.mem_cons.mp inSeen with rfl | inSeen
            · exact Or.inr List.mem_cons_self
            · exact Or.inl inSeen
          · exact Or.inr (List.mem_cons_of_mem _ inRest)

end Scan

theorem mem_of_mem_statements {text : Text} {found : List Text}
    (scanned : statements text = .ok found)
    {statement : Text} {c : CodePoint} (isStatement : statement ∈ found) (isChar : c ∈ statement) :
    c ∈ text ∨ c = .char ' ' := by
  rcases Scan.mem_of_mem_statementsAfter scanned isStatement isChar with inNothing | inText
  · simp at inNothing
  · exact inText

theorem mem_of_mem_splitTopLevel {isSeparator : CodePoint → Bool} {text before after : Text}
    (found : splitTopLevel isSeparator text = .ok (some (before, after))) {c : CodePoint}
    (isChar : c ∈ before ∨ c ∈ after) : c ∈ text := by
  rcases Scan.mem_of_mem_splitTopLevelAfter found c isChar with inNothing | inText
  · simp at inNothing
  · exact inText

end TerseStyle

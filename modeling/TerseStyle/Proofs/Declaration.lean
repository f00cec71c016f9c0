import Mathlib
import TerseStyle.Declaration

/-!
# Spelling of declarations

A statement that spells a declaration is its written form, and the name of a declaration is an ASCII
identifier. So a declaration can be read off its statement and the statement written back.
-/

namespace TerseStyle

/-- An identifier: a letter or an underscore, perhaps after one hyphen, and more letters, digits,
underscores and hyphens, all of them ASCII. -/
inductive IsIdentifier : Text → Prop where
  | plain {first : CodePoint} {rest : Text} (starts : isIdentifierStart first = true)
      (follows : ∀ c ∈ rest, isAsciiNameChar c = true) : IsIdentifier (first :: rest)
  | hyphenated {first : CodePoint} {rest : Text} (starts : isIdentifierStart first = true)
      (follows : ∀ c ∈ rest, isAsciiNameChar c = true) : IsIdentifier (.char '-' :: first :: rest)

namespace Sigil

theorem read_eq (text : Text) : text = (read text).1.text ++ (read text).2 := by
  unfold read
  split <;> rfl

end Sigil

namespace Declaration

theorem isAscii_of_isIdentifierStart {c : CodePoint} (starts : isIdentifierStart c = true) :
    isAsciiNameChar c = true := by
  rw [isIdentifierStart, Bool.or_eq_true] at starts
  rcases starts with isLetter | isUnderscore
  · simp [isAsciiNameChar, isLetter]
  · simp [isAsciiNameChar, isUnderscore]

variable {text statement : Text} {declaration : Declaration}

theorem isIdentifier_of_readIdentifier? {name rest : Text}
    (found : readIdentifier? text = some (name, rest)) : IsIdentifier name := by
  unfold readIdentifier? at found
  split at found
  · split at found
    · next starts =>
      simp only [Option.some.injEq, Prod.mk.injEq] at found
      rw [← found.1]
      exact .hyphenated starts fun c => List.mem_takeWhile_imp
    · simp at found
  · split at found
    · next starts =>
      simp only [Option.some.injEq, Prod.mk.injEq] at found
      rw [← found.1]
      exact .plain starts fun c => List.mem_takeWhile_imp
    · simp at found
  · simp at found

theorem isIdentifier_of_read? (found : read? statement = some declaration) :
    IsIdentifier declaration.name := by
  unfold read? at found
  simp only at found
  split at found
  · simp at found
  · next name rest named =>
    rcases Option.map_eq_some_iff.mp found with ⟨_, _, rfl⟩
    exact isIdentifier_of_readIdentifier? named

theorem parse_eq_ok_iff_read? :
    parse statement = .ok declaration ↔ read? statement = some declaration := by
  unfold parse
  split
  · next found => simp [found]
  · next refused => simp [refused]

theorem isAscii_of_parse (parsed : parse statement = .ok declaration) :
    ∀ c ∈ declaration.name, isAsciiNameChar c = true := by
  have isIdentifier := isIdentifier_of_read? (parse_eq_ok_iff_read?.mp parsed)
  generalize declaration.name = name at isIdentifier ⊢
  cases isIdentifier with
  | plain starts follows =>
      exact List.forall_mem_cons.mpr ⟨isAscii_of_isIdentifierStart starts, follows⟩
  | hyphenated starts follows =>
      rw [List.forall_mem_cons, List.forall_mem_cons]
      exact ⟨by decide, isAscii_of_isIdentifierStart starts, follows⟩

theorem readIdentifier?_eq_some {name rest : Text}
    (found : readIdentifier? text = some (name, rest)) : text = name ++ rest := by
  unfold readIdentifier? at found
  split at found
  · split at found
    · simp only [Option.some.injEq, Prod.mk.injEq] at found
      rw [← found.1, ← found.2, List.cons_append, List.cons_append, List.takeWhile_append_dropWhile]
    · simp at found
  · split at found
    · simp only [Option.some.injEq, Prod.mk.injEq] at found
      rw [← found.1, ← found.2, List.cons_append, List.takeWhile_append_dropWhile]
    · simp at found
  · simp at found

theorem splitAtLastBracket?_eq_some {before after : Text}
    (found : splitAtLastBracket? text = some (before, after)) :
    text = before ++ .char ']' :: after := by
  unfold splitAtLastBracket? at found
  split at found
  · simp at found
  · next bracket rest fromBracket =>
    simp only [Option.some.injEq, Prod.mk.injEq] at found
    have isBracket : bracket = .char ']' := by
      have notDropped := List.head?_dropWhile_not (· ≠ CodePoint.char ']') text.reverse
      rw [fromBracket] at notDropped
      simpa using notDropped
    have parts := List.takeWhile_append_dropWhile (p := (· ≠ CodePoint.char ']'))
      (l := text.reverse)
    rw [fromBracket, isBracket] at parts
    have reversed := congrArg List.reverse parts
    rw [List.reverse_append, List.reverse_cons, List.reverse_reverse, List.append_assoc,
      List.singleton_append] at reversed
    rw [← reversed, ← found.1, ← found.2]

theorem readValue?_eq_some {value : Text} {important : Bool}
    (found : readValue? text = some (value, important)) :
    text = "[" ++ value ++ "]" ++ (if important then "!" else "") := by
  have opens : ("[" : Text) = [.char '['] := rfl
  have closes : ("]" : Text) = [.char ']'] := rfl
  have mark : ("!" : Text) = [.char '!'] := rfl
  have noMark : ("" : Text) = [] := rfl
  unfold readValue? at found
  split at found
  · split at found
    · next splits =>
      simp only [Option.some.injEq, Prod.mk.injEq] at found
      rw [splitAtLastBracket?_eq_some splits, found.1, ← found.2]
      simp [opens, closes, noMark]
    · next splits =>
      simp only [Option.some.injEq, Prod.mk.injEq] at found
      rw [splitAtLastBracket?_eq_some splits, found.1, ← found.2]
      simp [opens, closes, mark]
    · simp at found
  · simp at found

theorem eq_render_of_read? (found : read? statement = some declaration) :
    statement = declaration.render := by
  unfold read? at found
  simp only at found
  split at found
  · simp at found
  · next name rest named =>
    obtain ⟨⟨value, important⟩, valued, rfl⟩ := Option.map_eq_some_iff.mp found
    calc statement
        = (Sigil.read statement).1.text ++ (Sigil.read statement).2 := Sigil.read_eq statement
      _ = (Sigil.read statement).1.text ++ (name ++ rest) := by rw [readIdentifier?_eq_some named]
      _ = render { sigil := (Sigil.read statement).1, name, value, important } := by
          rw [readValue?_eq_some valued, render]
          simp only [List.append_assoc]

/-- A statement that spells a declaration has no parenthesis before its bracket. -/
theorem looksLike_of_read? (found : read? statement = some declaration) :
    looksLike statement = true := by
  have parsed : parse statement = .ok declaration := by rw [parse, found]
  have inSigil : declaration.sigil.text.find?
      (fun (c : CodePoint) => c == '[' || c == '(') = none := by
    cases declaration.sigil <;> rfl
  have inName : declaration.name.find? (fun (c : CodePoint) => c == '[' || c == '(') = none := by
    rw [List.find?_eq_none]
    intro c isChar isBracket
    rw [Bool.or_eq_true, beq_iff_eq, beq_iff_eq] at isBracket
    have isAscii := isAscii_of_parse parsed c isChar
    rcases isBracket with rfl | rfl
    · exact absurd isAscii (by decide)
    · exact absurd isAscii (by decide)
  have opens : ("[" : Text) = [.char '['] := rfl
  rw [looksLike, eq_render_of_read? found, render]
  simp only [List.find?_append, inSigil, inName, opens, Option.none_or]
  rfl

theorem mem_of_read? (found : read? statement = some declaration) :
    ∀ c ∈ declaration.value, c ∈ statement := by
  intro c isChar
  rw [eq_render_of_read? found, render]
  simp [isChar]

/-- The statement without the sigil of a runtime variable. -/
def withoutSigil : Text → Text
  | .char '$' :: rest => rest
  | statement => statement

theorem withoutSigil_cons_of_ne {c : CodePoint} (notSigil : c ≠ .char '$') (rest : Text) :
    withoutSigil (c :: rest) = c :: rest := by
  unfold withoutSigil
  split
  · next same =>
    rw [List.cons.injEq] at same
    exact absurd same.1 notSigil
  · rfl

theorem withoutSigil_append (nonempty : statement ≠ []) (more : Text) :
    withoutSigil (statement ++ more) = withoutSigil statement ++ more := by
  cases statement with
  | nil => exact absurd rfl nonempty
  | cons c rest =>
      by_cases isSigil : c = .char '$'
      · rw [isSigil]
        rfl
      · rw [List.cons_append, withoutSigil_cons_of_ne isSigil, withoutSigil_cons_of_ne isSigil,
          List.cons_append]

/-- Without its sigil a runtime declaration is a plain one. -/
theorem read?_withoutSigil (found : read? statement = some declaration)
    (isRuntime : declaration.sigil = .runtime) :
    read? (withoutSigil statement) = some { declaration with sigil := .plain } := by
  have noStart : isIdentifierStart (.char '$') = false ∧ isIdentifierStart (.char '-') = false := by
    decide
  have notSigil : ∀ {rest name more : Text}, readIdentifier? rest = some (name, more) →
      Sigil.read rest = (.plain, rest) := by
    intro rest name more named
    unfold Sigil.read
    split
    · exact absurd named (by simp [readIdentifier?, noStart])
    · exact absurd named (by simp [readIdentifier?, noStart])
    · exact absurd named (by simp [readIdentifier?, noStart])
    · rfl
  unfold read? at found ⊢
  simp only at found
  split at found
  · simp at found
  · next name more named =>
    rcases Option.map_eq_some_iff.mp found with ⟨⟨value, important⟩, valued, rfl⟩
    -- The sigil is read off the first characters, so that it is known from the pattern.
    unfold Sigil.read at named isRuntime
    split at named
    · simp only [withoutSigil, notSigil named, named, valued, Option.map_some]
    · simp at isRuntime
    · simp at isRuntime
    · simp at isRuntime

theorem withoutSigil_of_ne (found : read? statement = some declaration)
    (notRuntime : declaration.sigil ≠ .runtime) : withoutSigil statement = statement := by
  unfold withoutSigil
  split
  · unfold read? at found
    simp only [Sigil.read] at found
    split at found
    · simp at found
    · rcases Option.map_eq_some_iff.mp found with ⟨_, _, rfl⟩
      exact absurd rfl notRuntime
  · rfl

end Declaration

end TerseStyle

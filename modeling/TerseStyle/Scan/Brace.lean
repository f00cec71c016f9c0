import TerseStyle.Error

/-!
# Matching braces

Braces delimit the bodies of classes, constants, keyframes and queries. A brace inside square
brackets belongs to a value and delimits nothing; a closing square bracket without an opening one
is ignored.
-/

namespace TerseStyle

namespace Brace

/-- The text before the brace that brings the depth back to zero and the text after that brace,
where `depth` braces and `brackets` square brackets are open at the start. -/
def splitAtClosing (depth : Int) (brackets : Nat) : Text → Option (Text × Text)
  | [] => none
  | c :: rest =>
    let onwards := fun depth brackets =>
      (splitAtClosing depth brackets rest).map fun (body, after) => (c :: body, after)
    if c = '[' then onwards depth (brackets + 1)
    else if brackets ≠ 0 then onwards depth (if c = ']' then brackets - 1 else brackets)
    else if c = '{' then onwards (depth + 1) 0
    else if c = '}' then
      if depth = 1 then some ([], rest) else onwards (depth - 1) 0
    else onwards depth 0

theorem splitAtClosing_eq_some {depth : Int} {brackets : Nat} {text body after : Text}
    (found : splitAtClosing depth brackets text = some (body, after)) :
    text = body ++ .char '}' :: after := by
  induction text generalizing depth brackets body after with
  | nil => simp [splitAtClosing] at found
  | cons c rest ih =>
      have onwards : ∀ {depth : Int} {brackets : Nat},
          ((splitAtClosing depth brackets rest).map fun parts => (c :: parts.1, parts.2)) =
            some (body, after) → c :: rest = body ++ .char '}' :: after := by
        intro depth brackets mapped
        obtain ⟨⟨inner, innerAfter⟩, innerFound, same⟩ := Option.map_eq_some_iff.mp mapped
        simp only [Prod.mk.injEq] at same
        rw [ih innerFound, ← same.1, ← same.2, List.cons_append]
      simp only [splitAtClosing] at found
      split at found
      · exact onwards found
      · split at found
        · exact onwards found
        · split at found
          · exact onwards found
          · split at found
            · next isClosing =>
              split at found
              · simp only [Option.some.injEq, Prod.mk.injEq] at found
                rw [← found.1, ← found.2, isClosing, List.nil_append]
              · exact onwards found
            · exact onwards found

theorem length_splitAtClosing {depth : Int} {brackets : Nat} {text body after : Text}
    (found : splitAtClosing depth brackets text = some (body, after)) :
    body.length + after.length + 1 = text.length := by
  rw [splitAtClosing_eq_some found, List.length_append, List.length_cons, Nat.add_assoc]

/-- Reads a body whose opening brace was just read on the given line: the body and the text after
its closing brace. -/
def readBody (line : Nat) (text : Text) : Except Error (Text × Text) :=
  match splitAtClosing 1 0 text with
  | some parts => .ok parts
  | none => .error { cause := .missingBrace line, line := some line }

theorem readBody_eq_ok {line : Nat} {text body after : Text}
    (found : readBody line text = .ok (body, after)) : text = body ++ .char '}' :: after := by
  simp only [readBody] at found
  split at found
  · next parts split =>
    rw [Except.ok.injEq] at found
    rw [found] at split
    exact splitAtClosing_eq_some split
  · simp at found

theorem length_readBody {line : Nat} {text body after : Text}
    (found : readBody line text = .ok (body, after)) :
    body.length + after.length + 1 = text.length := by
  rw [readBody_eq_ok found, List.length_append, List.length_cons, Nat.add_assoc]

/-- The position of the brace that brings the depth back to zero, read from a position on. -/
def closingPosition (text : Text) (start : Nat) : Except Error Nat :=
  match splitAtClosing 0 0 (text.drop start) with
  | some (body, _) => .ok (start + body.length)
  | none =>
    let line := Text.lineFeeds (text.take start) + 1
    .error { cause := .missingBrace line, line := some line }

end Brace

end TerseStyle

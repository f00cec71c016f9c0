import TerseStyle.Proofs.PlainBody

/-!
# Reading what was written

The written form of a declaration determines it, whatever its value is: the sigil is told from the
name because no name begins with two hyphens or with the sign of a sigil, the name ends at the first
bracket, and the value at the last. So a statement spells a declaration exactly if it is the written
form of it, and such a statement is never taken for a block.
-/

namespace TerseStyle

theorem ne_of_isIdentifierStart {c other : CodePoint} (starts : isIdentifierStart c = true)
    (noStart : isIdentifierStart other = false) : c ≠ other := by
  rintro rfl
  rw [starts] at noStart
  contradiction

theorem isBlank_of_isIdentifierStart {c : CodePoint} (starts : isIdentifierStart c = true) :
    isBlank c = false := by
  rw [isIdentifierStart, Bool.or_eq_true, beq_iff_eq] at starts
  rcases starts with isLetterChar | rfl
  · simp only [isLetter, Bool.or_eq_true, Bool.and_eq_true, decide_eq_true_eq] at isLetterChar
    rw [← Bool.not_eq_true]
    simp only [isBlank, Bool.or_eq_true, Bool.and_eq_true, decide_eq_true_eq, beq_iff_eq]
    omega
  · decide

namespace Sigil

variable {name : Text}

/-- The sigil is read off, since no name continues it. -/
theorem read_append (isIdentifier : IsIdentifier name) (sigil : Sigil) (more : Text) :
    read (sigil.text ++ (name ++ more)) = (sigil, name ++ more) := by
  cases sigil with
  | runtime => rfl
  | localVariable => rfl
  | custom =>
      cases isIdentifier with
      | @plain first rest starts _ =>
          have notLocal : first ≠ .char '&' := ne_of_isIdentifierStart starts (by decide)
          simp [read, text, notLocal]
      | hyphenated => rfl
  | plain =>
      cases isIdentifier with
      | @plain first rest starts _ =>
          have notRuntime : first ≠ .char '$' := ne_of_isIdentifierStart starts (by decide)
          have notHyphen : first ≠ .char '-' := ne_of_isIdentifierStart starts (by decide)
          simp [read, text, notRuntime, notHyphen]
      | @hyphenated first rest starts _ =>
          have notHyphen : first ≠ .char '-' := ne_of_isIdentifierStart starts (by decide)
          simp [read, text, notHyphen]

end Sigil

namespace Declaration

variable {statement name : Text} {declaration : Declaration}

theorem readIdentifier?_append (isIdentifier : IsIdentifier name) (more : Text) :
    readIdentifier? (name ++ .char '[' :: more) = some (name, .char '[' :: more) := by
  have ends : isAsciiNameChar (.char '[') = false := by decide
  cases isIdentifier with
  | @plain first rest starts follows =>
      have notHyphen : first ≠ .char '-' := ne_of_isIdentifierStart starts (by decide)
      simp [readIdentifier?, notHyphen, starts, List.takeWhile_append_of_pos follows,
        List.dropWhile_append_of_pos follows, ends]
  | hyphenated starts follows =>
      simp [readIdentifier?, starts, List.takeWhile_append_of_pos follows,
        List.dropWhile_append_of_pos follows, ends]

theorem splitAtLastBracket?_append {after : Text} (noBracket : .char ']' ∉ after) (before : Text) :
    splitAtLastBracket? (before ++ .char ']' :: after) = some (before, after) := by
  have kept : ∀ c ∈ after.reverse, decide (c ≠ CodePoint.char ']') = true := by
    intro c isChar
    rw [decide_eq_true_eq]
    rintro rfl
    exact noBracket (List.mem_reverse.mp isChar)
  have reversed : (before ++ .char ']' :: after).reverse =
      after.reverse ++ .char ']' :: before.reverse := by simp
  rw [splitAtLastBracket?, reversed, List.dropWhile_append_of_pos kept,
    List.takeWhile_append_of_pos kept]
  simp

theorem render_eq (declaration : Declaration) :
    declaration.render = declaration.sigil.text ++ (declaration.name ++ CodePoint.char '[' ::
      (declaration.value ++ CodePoint.char ']' ::
        if declaration.important then [.char '!'] else [])) := by
  have opens : ("[" : Text) = [.char '['] := rfl
  have closes : ("]" : Text) = [.char ']'] := rfl
  have mark : ((if declaration.important then "!" else "" : String) : Text) =
      if declaration.important then [.char '!'] else [] := by
    split <;> rfl
  rw [render, opens, closes, mark]
  simp only [List.append_assoc, List.cons_append, List.nil_append]

theorem readValue?_append (value : Text) (important : Bool) :
    readValue? (.char '[' :: (value ++ CodePoint.char ']' ::
      if important then [.char '!'] else [])) = some (value, important) := by
  cases important with
  | true => simp [readValue?, splitAtLastBracket?_append]
  | false => simp [readValue?, splitAtLastBracket?_append]

theorem read?_render (isIdentifier : IsIdentifier declaration.name) :
    read? declaration.render = some declaration := by
  rw [render_eq, read?]
  simp only [Sigil.read_append isIdentifier, readIdentifier?_append isIdentifier,
    readValue?_append, Option.map_some]

/-! ## Dispatching a written declaration -/

theorem head_of_render (isIdentifier : IsIdentifier declaration.name) :
    ∀ c ∈ declaration.render.head?, isBlank c = false ∧ c ≠ .char '@' := by
  rw [render_eq]
  generalize declaration.name = name at isIdentifier
  cases declaration.sigil with
  | runtime => rintro c ⟨⟩; decide
  | localVariable => rintro c ⟨⟩; decide
  | custom => rintro c ⟨⟩; decide
  | plain =>
      cases isIdentifier with
      | plain starts _ =>
          rintro c ⟨⟩
          exact ⟨isBlank_of_isIdentifierStart starts, ne_of_isIdentifierStart starts (by decide)⟩
      | hyphenated => rintro c ⟨⟩; decide

theorem getLast_of_render (declaration : Declaration) :
    ∀ c ∈ declaration.render.getLast?, isBlank c = false := by
  have ends : ∃ front final, declaration.render = front ++ [final] ∧ isBlank final = false := by
    rw [render_eq]
    cases declaration.important with
    | true =>
        exact ⟨declaration.sigil.text ++ (declaration.name ++ CodePoint.char '[' ::
          (declaration.value ++ [CodePoint.char ']'])), .char '!', by simp, by decide⟩
    | false =>
        exact ⟨declaration.sigil.text ++ (declaration.name ++ CodePoint.char '[' ::
          declaration.value),
          .char ']', by simp, by decide⟩
  rcases ends with ⟨front, final, isRender, notBlank⟩
  rw [isRender, List.getLast?_concat]
  rintro c ⟨⟩
  exact notBlank

end Declaration

open Declaration

theorem Environment.contribution_of_parse {statement : Text} {declaration : Declaration}
    (parsed : Declaration.parse statement = .ok declaration) (environment : Environment)
    (isDeclared : Text → Bool) :
    environment.contribution isDeclared statement =
      environment.declare (.topLevel isDeclared) statement declaration := by
  have found := parse_eq_ok_iff_read?.mp parsed
  have head := head_of_render (isIdentifier_of_read? found)
  have last := getLast_of_render declaration
  rw [← eq_render_of_read? found] at head last
  rw [contribution, Text.trim_eq_self (fun c isFirst => (head c isFirst).1) last]
  split
  · simp [read?, Sigil.read, readIdentifier?] at found
  · exact absurd rfl (head _ rfl).2
  · rw [blockParts?_of_read? (by simp [found]), flat, parsed, Draft.lift_ok_andThen]

/-- Reading is the inverse of writing: a statement spells a declaration exactly if the name is an
identifier and the statement is the written form. Such a statement looks like a declaration, it is
no block, and in every context it is dispatched as the declaration, at the top level and in a block.
-/
theorem Declaration.parse_eq_ok_iff_render (statement : Text) (declaration : Declaration) :
    (Declaration.parse statement = .ok declaration ↔
        IsIdentifier declaration.name ∧ statement = declaration.render) ∧
      (Declaration.parse statement = .ok declaration →
        looksLike statement = true ∧ blockParts? statement = none ∧
          ∀ environment : Environment,
            (∀ isDeclared, environment.contribution isDeclared statement =
              environment.declare (.topLevel isDeclared) statement declaration) ∧
            ∀ target, environment.blockToken target statement =
              environment.declare target statement declaration) := by
  constructor
  · rw [parse_eq_ok_iff_read?]
    constructor
    · exact fun found => ⟨isIdentifier_of_read? found, eq_render_of_read? found⟩
    · rintro ⟨isIdentifier, rfl⟩
      exact read?_render isIdentifier
  · intro parsed
    have found := parse_eq_ok_iff_read?.mp parsed
    refine ⟨looksLike_of_read? found, blockParts?_of_read? (by simp [found]), ?_⟩
    intro environment
    exact ⟨environment.contribution_of_parse parsed,
      fun target => environment.blockToken_of_read? found⟩

/-- The value may hold brackets, marks, parentheses and line breaks. -/
theorem Declaration.parse_eq_ok_iff_render_brackets :
    let statement : Text := "---x_1[a]!(\n[!]!"
    let declaration : Declaration :=
      { sigil := .custom, name := "-x_1", value := "a]!(\n[!", important := true }
    IsIdentifier declaration.name ∧ statement = declaration.render ∧
      Declaration.parse statement = .ok declaration ∧ looksLike statement = true := by
  intro statement declaration
  have isIdentifier : IsIdentifier declaration.name := .hyphenated (by decide) (by decide)
  have isWritten : statement = declaration.render := by decide
  have parsed := (parse_eq_ok_iff_render statement declaration).1.mpr ⟨isIdentifier, isWritten⟩
  exact ⟨isIdentifier, isWritten, parsed,
    ((parse_eq_ok_iff_render statement declaration).2 parsed).1⟩

end TerseStyle

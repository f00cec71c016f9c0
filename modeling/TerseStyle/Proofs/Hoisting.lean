import TerseStyle.Compile
import TerseStyle.Proofs.Rendering

/-!
# The place of constants and queries in a body

A line `@use` and a query belong to the body in which they stand, and that is all that their place
decides: they are cut out of the body before its statements are scanned, so that they may even
interrupt a block. A class compiles as it does with all of them at the front of their bodies
(`Source.compileClass_hoistClass`), so that even one that has some inside a block is refused exactly
if it is refused then, too (`Source.refuses_hoistClass_iff`).
-/

namespace TerseStyle

namespace Query

/-! ## Where the next query stands -/

theorem splitAtQuery?_eq_none_iff {text : Text} :
    splitAtQuery? text = none ↔
      ∀ front back : Text, text = front ++ ("@query" ++ back) →
        back.head?.any isWordChar = true := by
  induction text with
  | nil =>
      refine ⟨fun _ front back isText => ?_, fun _ => rfl⟩
      have length := congrArg List.length isText
      simp [Text.ofString, Text.ofChars] at length
  | cons c rest ih =>
      constructor
      · intro isNone front back isText
        rw [splitAtQuery?] at isNone
        cases front with
        | nil =>
            rw [isText, List.nil_append, Text.dropBeginning?_append] at isNone
            simp only at isNone
            split at isNone
            · assumption
            · simp at isNone
        | cons first front =>
            rw [List.cons_append, List.cons.injEq] at isText
            apply ih.mp _ front back isText.2
            split at isNone
            · split at isNone
              · exact Option.map_eq_none_iff.mp isNone
              · simp at isNone
            · exact Option.map_eq_none_iff.mp isNone
      · intro areWords
        have ofRest : splitAtQuery? rest = none := by
          apply ih.mpr
          intro front back isRest
          exact areWords (c :: front) back (by rw [isRest, List.cons_append])
        rw [splitAtQuery?, ofRest]
        split
        · next after begins =>
          have isText := Text.dropBeginning?_eq_some begins
          rw [if_pos (areWords [] after isText), Option.map_none]
        · rfl

theorem any_head?_append_query (text after : Text) :
    (text ++ ("@query" ++ after)).head?.any isWordChar = text.head?.any isWordChar := by
  cases text with
  | nil =>
      change isWordChar '@' = false
      decide
  | cons c text => rfl

/-- Nothing before the first query is a query. -/
theorem noQuery_of_splitAtQuery? {text before after : Text}
    (found : splitAtQuery? text = some (before, after)) :
    splitAtQuery? before = none ∧ after.head?.any isWordChar = false := by
  have isText := splitAtQuery?_eq_some found
  induction text generalizing before with
  | nil => simp [splitAtQuery?] at found
  | cons c rest ih =>
      have later : ((splitAtQuery? rest).map fun parts => (c :: parts.1, parts.2)) =
            some (before, after) →
          (∀ longer, Text.dropBeginning? "@query" (c :: rest) = some longer →
            longer.head?.any isWordChar = true) →
          splitAtQuery? before = none ∧ after.head?.any isWordChar = false := by
        intro mapped areWords
        obtain ⟨⟨inner, innerAfter⟩, innerFound, same⟩ := Option.map_eq_some_iff.mp mapped
        simp only [Prod.mk.injEq] at same
        rcases same with ⟨rfl, rfl⟩
        rcases ih innerFound (splitAtQuery?_eq_some innerFound) with
          ⟨noQuery, notWord⟩
        refine ⟨?_, notWord⟩
        rw [splitAtQuery?, noQuery]
        split
        · next more begins =>
          have isLonger : Text.dropBeginning? "@query" (c :: rest) =
              some (more ++ ("@query" ++ innerAfter)) := by
            rw [isText, Text.dropBeginning?_eq_some begins, List.append_assoc,
              Text.dropBeginning?_append]
          have isWord := areWords _ isLonger
          rw [any_head?_append_query] at isWord
          rw [if_pos isWord, Option.map_none]
        · rfl
      rw [splitAtQuery?] at found
      split at found
      · next longer begins =>
        split at found
        · next isWord =>
          apply later found
          intro other beginsToo
          rw [begins, Option.some.injEq] at beginsToo
          rwa [← beginsToo]
        · next notWord =>
          simp only [Option.some.injEq, Prod.mk.injEq] at found
          rw [← found.1, ← found.2]
          exact ⟨rfl, Bool.eq_false_iff.mpr notWord⟩
      · next differs =>
        apply later found
        intro other begins
        simp [differs] at begins

theorem splitAtQuery?_of_noQuery {before after : Text} (noQuery : splitAtQuery? before = none)
    (notWord : after.head?.any isWordChar = false) :
    splitAtQuery? (before ++ ("@query" ++ after)) = some (before, after) := by
  induction before with
  | nil =>
      have begins := Text.dropBeginning?_append "@query" after
      change splitAtQuery? (.char '@' :: ("query" ++ after)) = _
      change Text.dropBeginning? "@query" (.char '@' :: ("query" ++ after)) = _ at begins
      rw [splitAtQuery?, begins]
      simp [notWord]
  | cons c before ih =>
      have areWords := splitAtQuery?_eq_none_iff.mp noQuery
      have noQueryLater : splitAtQuery? before = none := by
        apply splitAtQuery?_eq_none_iff.mpr
        intro front back isBefore
        exact areWords (c :: front) back (by rw [isBefore, List.cons_append])
      rw [List.cons_append, splitAtQuery?, ih noQueryLater]
      split
      · next longer begins =>
        have isWord : longer.head?.any isWordChar = true := by
          have isText := Text.dropBeginning?_eq_some begins
          rw [← List.cons_append, List.append_eq_append_iff] at isText
          rcases isText with ⟨rest, isWritten, isAfter⟩ | ⟨rest, isBefore, rfl⟩
          · cases rest with
            | nil =>
                have isLast : c :: before = [] ++ (("@query" : Text) ++ []) := by
                  rw [List.append_nil, List.nil_append, isWritten, List.append_nil]
                simpa using areWords [] [] isLast
            | cons first rest =>
                -- The word would start inside itself, but it has only one at sign.
                have isAt : first = .char '@' := (List.cons.inj isAfter).1.symm
                have isRest : ("query" : Text) = before ++ first :: rest :=
                  (List.cons.inj isWritten).2
                have inWord : first ∈ ("query" : Text) := by
                  rw [isRest]
                  simp
                rw [isAt] at inWord
                exact absurd inWord (by decide)
          · rw [any_head?_append_query]
            exact areWords [] rest isBefore
        rw [if_pos isWord]
        rfl
      · rfl

theorem splitAtQuery?_of_infix {front text back : Text}
    (noQuery : splitAtQuery? (front ++ (text ++ back)) = none)
    (notWord : back.head?.any isWordChar = false) : splitAtQuery? text = none := by
  rw [splitAtQuery?_eq_none_iff] at noQuery ⊢
  intro before after isText
  have isWord := noQuery (front ++ before) (after ++ back) (by simp [isText])
  cases after with
  | nil => simp [notWord] at isWord
  | cons c after => exact isWord

end Query

/-! ## Lines of a body -/

namespace Text

theorem trimRight_append (text : Text) :
    ∃ right : Text, text = trimRight text ++ right ∧ ∀ c ∈ right, isBlank c = true := by
  refine ⟨(text.reverse.takeWhile isBlank).reverse, ?_, ?_⟩
  · rw [trimRight, ← List.reverse_append, List.takeWhile_append_dropWhile, List.reverse_reverse]
  · intro c isChar
    exact List.mem_takeWhile_imp (List.mem_reverse.mp isChar)

theorem trim_append (text : Text) :
    ∃ left right : Text, text = left ++ (trim text ++ right) ∧ (∀ c ∈ left, isBlank c = true) ∧
      ∀ c ∈ right, isBlank c = true := by
  rcases trimRight_append (text.dropWhile isBlank) with ⟨right, isText, areBlank⟩
  refine ⟨text.takeWhile isBlank, right, ?_, fun c => List.mem_takeWhile_imp, areBlank⟩
  rw [trim, ← isText, List.takeWhile_append_dropWhile]

theorem trim_trim (text : Text) : trim (trim text) = trim text := by
  have sameLeft : (trim text).dropWhile isBlank = trim text := by
    obtain ⟨right, isText, _⟩ : ∃ right : Text, text.dropWhile isBlank = trim text ++ right ∧ _ :=
      trimRight_append _
    have notBlank := List.head?_dropWhile_not isBlank text
    rw [isText] at notBlank
    cases isTrimmed : trim text with
    | nil => rfl
    | cons c rest =>
        rw [isTrimmed] at notBlank
        exact List.dropWhile_cons_of_neg (Bool.eq_false_iff.mp notBlank)
  rw [trim, sameLeft, trim, trimRight, trimRight, List.reverse_reverse, List.dropWhile_idempotent]

/-- A line that other lines follow ends in a break. -/
theorem exists_break_of_linesWithBreaks {text line : Text} {front back : List Text}
    (isLines : linesWithBreaks text = front ++ line :: back) (goesOn : back ≠ []) :
    ∃ c ∈ line, isLineBreak c = true := by
  induction text using linesWithBreaks.induct generalizing front line with
  | case1 => simp [linesWithBreaks] at isLines
  | case2 rest ih =>
      rw [linesWithBreaks] at isLines
      cases front with
      | nil =>
          rw [List.nil_append, List.cons.injEq] at isLines
          exact ⟨.char '\r', by simp [← isLines.1], by decide⟩
      | cons first front =>
          exact ih (List.cons.inj isLines).2
  | case3 c rest notPair isBreak ih =>
      rw [linesWithBreaks, if_pos isBreak] at isLines
      · cases front with
        | nil =>
            rw [List.nil_append, List.cons.injEq] at isLines
            exact ⟨c, by simp [← isLines.1], isBreak⟩
        | cons first front => exact ih (List.cons.inj isLines).2
      · exact notPair
  | case4 c rest notPair notBreak isRest ih =>
      rw [linesWithBreaks_of_notBreak (Bool.eq_false_iff.mpr notBreak), isRest] at isLines
      cases front <;> simp_all
  | case5 c rest notPair notBreak first more isRest ih =>
      rw [linesWithBreaks_of_notBreak (Bool.eq_false_iff.mpr notBreak), isRest] at isLines
      cases front with
      | nil =>
          simp only [List.headD_cons, List.tail_cons, List.nil_append, List.cons.injEq] at isLines
          obtain ⟨last, isChar, isBreak⟩ := @ih first [] (by rw [isRest, isLines.2]; rfl)
          exact ⟨last, by simp [← isLines.1, isChar], isBreak⟩
      | cons _ front =>
          simp only [List.headD_cons, List.tail_cons, List.cons_append, List.cons.injEq] at isLines
          exact @ih line (first :: front) (by rw [isRest, isLines.2]; rfl)

theorem exists_append_of_mem_lines {text line : Text} (isLine : line ∈ lines text) :
    ∃ front back : Text, text = front ++ (line ++ back) ∧
      ∀ c ∈ back.head?, isLineBreak c = true := by
  obtain ⟨whole, isWhole, rfl⟩ := List.mem_map.mp isLine
  obtain ⟨front, back, isLines⟩ := List.append_of_mem isWhole
  refine ⟨front.flatten, whole.dropWhile (fun c => !isLineBreak c) ++ back.flatten, ?_, ?_⟩
  · rw [← List.append_assoc (whole.takeWhile _), List.takeWhile_append_dropWhile,
      ← flatten_linesWithBreaks text, isLines, List.flatten_append, List.flatten_cons]
  · have ending := List.head?_dropWhile_not (fun c => !isLineBreak c) whole
    cases isEnding : whole.dropWhile (fun c => !isLineBreak c) with
    | nil =>
        -- A line without a break is the last one.
        have isLast : back = [] := by
          by_contra goesOn
          obtain ⟨c, isChar, isBreak⟩ := exists_break_of_linesWithBreaks isLines goesOn
          have notBreak := List.dropWhile_eq_nil_iff.mp isEnding c isChar
          simp [isBreak] at notBreak
        simp [isLast]
    | cons c rest =>
        rw [isEnding] at ending
        simpa using ending

end Text

namespace Query

/-- A line that a body may have as a line of its own. -/
structure IsOwnLine (line : Text) : Prop where
  isTrimmed : Text.trim line = line
  nonempty : line ≠ []
  noBreak : ∀ c ∈ line, isLineBreak c = false
  noQuery : splitAtQuery? line = none

variable {text rest body : Text} {lines : List Text} {line : Nat} {queries : List (Text × Text)}

theorem isOwnLine_of_mem {line : Text} (noQuery : splitAtQuery? text = none)
    (isLine : line ∈ ownLines text) : IsOwnLine line := by
  obtain ⟨isTrimmed, nonempty⟩ := List.mem_filter.mp isLine
  obtain ⟨whole, isWhole, rfl⟩ := List.mem_map.mp isTrimmed
  refine ⟨Text.trim_trim whole, by simpa using nonempty, ?_, ?_⟩
  · intro c isChar
    obtain ⟨ended, _, rfl⟩ := List.mem_map.mp isWhole
    simpa using List.mem_takeWhile_imp (Text.mem_of_mem_trim isChar)
  · obtain ⟨front, back, isText, ending⟩ := Text.exists_append_of_mem_lines isWhole
    obtain ⟨left, right, isLine, _, areBlank⟩ := Text.trim_append whole
    -- Only a blank or nothing at all follows the line.
    have notWord : (right ++ back).head?.any isWordChar = false := by
      have isBlank : ∀ c ∈ (right ++ back).head?, isBlank c = true := by
        intro c isHead
        cases right with
        | nil => exact Source.isBlank_of_isLineBreak (ending c isHead)
        | cons first right =>
            exact areBlank c (List.mem_of_mem_head? (by simpa using isHead))
      cases isHead : (right ++ back).head? with
      | none => rfl
      | some c =>
          have notName := isNameChar_of_isBlank (isBlank c isHead)
          simp only [isNameChar, Bool.or_eq_false_iff] at notName
          exact notName.1
    have noneInText :
        splitAtQuery? ((front ++ left) ++ (Text.trim whole ++ (right ++ back))) = none := by
      rw [← noQuery, isText]
      nth_rewrite 2 [isLine]
      simp
    exact splitAtQuery?_of_infix noneInText notWord

theorem ownLines_append {front back : Text} (ends : Text.endsLine front back = true) :
    ownLines (front ++ back) = ownLines front ++ ownLines back := by
  rw [ownLines, Text.lines, Text.linesWithBreaks_append ends, List.map_append, List.map_append,
    List.filter_append]
  rfl

/-- Lines as a text. -/
def unlines (lines : List Text) : Text :=
  lines.flatMap (· ++ [.char '\n'])

theorem endsLine_unlines (lines : List Text) (rest : Text) :
    Text.endsLine (unlines lines) rest = true := by
  rcases List.eq_nil_or_concat lines with rfl | ⟨front, last, rfl⟩
  · rfl
  · rw [unlines, List.concat_eq_append, List.flatMap_append, List.flatMap_singleton,
      ← List.append_assoc]
    exact Text.endsLine_lineFeed _ rest

theorem ownLines_unlines (areLines : ∀ line ∈ lines, IsOwnLine line) :
    ownLines (unlines lines) = lines := by
  induction lines with
  | nil => rfl
  | cons line lines ih =>
      rw [List.forall_mem_cons] at areLines
      have isLine := areLines.1
      have first : ownLines (line ++ [CodePoint.char '\n']) = [line] := by
        have isTaken : (line ++ [CodePoint.char '\n']).takeWhile (fun c => !isLineBreak c) = line :=
          (span_append (by simpa using isLine.noBreak) (by decide)).1
        rw [ownLines, Text.lines, Source.linesWithBreaks_line isLine.noBreak]
        simp [isTaken, isLine.isTrimmed, isLine.nonempty]
      rw [unlines, List.flatMap_cons, ownLines_append (Text.endsLine_lineFeed _ _), first]
      exact congrArg (line :: ·) (ih areLines.2)

theorem noQuery_unlines (areLines : ∀ line ∈ lines, IsOwnLine line)
    (noQuery : splitAtQuery? rest = none) : splitAtQuery? (unlines lines ++ rest) = none := by
  induction lines with
  | nil => exact noQuery
  | cons line lines ih =>
      rw [List.forall_mem_cons] at areLines
      rw [unlines, List.flatMap_cons, List.append_assoc, List.append_assoc, List.singleton_append]
      exact splitAtQuery?_append (by decide) areLines.1.noQuery (ih areLines.2)

/-! ## Cutting queries out of a body -/

/-- Cuts the queries out of a body: the text before, between and after them, and what each has
between the word and its brace and between its braces. -/
def cut (text : Text) : Option (List Text × List (Text × Text)) :=
  match _found : splitAtQuery? text with
  | none => some ([text], [])
  | some (before, after) =>
    match _brace : Text.splitAtChar? '{' after with
    | none => none
    | some (written, inside) =>
      if (Text.trim written).isEmpty then none
      else
        match _closed : Brace.splitAtClosing 1 0 inside with
        | none => none
        | some (body, rest) =>
          (cut rest).map fun (chunks, queries) => (before :: chunks, (written, body) :: queries)
termination_by text.length
decreasing_by
  have := length_splitAtQuery? _found
  have := Text.length_splitAtChar? _brace
  have := Brace.length_splitAtClosing _closed
  omega

theorem cut_of_none (noQuery : splitAtQuery? text = none) : cut text = some ([text], []) := by
  rw [cut]
  split
  · rfl
  · next found => simp [noQuery] at found

theorem cut_of_some {before after written inside : Text}
    (found : splitAtQuery? text = some (before, after))
    (brace : Text.splitAtChar? '{' after = some (written, inside))
    (hasSelector : (Text.trim written).isEmpty = false)
    (closed : Brace.splitAtClosing 1 0 inside = some (body, rest)) :
    cut text = (cut rest).map fun (chunks, queries) =>
      (before :: chunks, (written, body) :: queries) := by
  rw [cut]
  split
  · next missing => simp [found] at missing
  · next foundToo =>
    rw [found, Option.some.injEq, Prod.mk.injEq] at foundToo
    rcases foundToo with ⟨rfl, rfl⟩
    split
    · next missing => simp [brace] at missing
    · next braceToo =>
      rw [brace, Option.some.injEq, Prod.mk.injEq] at braceToo
      rcases braceToo with ⟨rfl, rfl⟩
      rw [if_neg (Bool.eq_false_iff.mp hasSelector)]
      split
      · next missing => simp [closed] at missing
      · next closedToo =>
        rw [closed, Option.some.injEq, Prod.mk.injEq] at closedToo
        rcases closedToo with ⟨rfl, rfl⟩
        rfl

theorem level_of_none (noQuery : first? line text = .ok none) :
    level line text = .ok { lines := ownLines text, queries := [] } := by
  rw [level]
  split
  · next fails => simp [noQuery] at fails
  · rfl
  · next found => simp [noQuery] at found

theorem toOption_level_of_error (fails : ∃ error, first? line text = .error error) :
    (level line text).toOption = none := by
  obtain ⟨error, fails⟩ := fails
  rw [level]
  split
  · rfl
  · next noQuery => simp [fails] at noQuery
  · next found => simp [fails] at found

theorem level_of_some {query : First} (found : first? line text = .ok (some query)) :
    level line text = (level query.line query.rest).map fun more =>
      { lines := ownLines query.before ++ more.lines
        queries := (query.selector, query.body) :: more.queries } := by
  rw [level]
  split
  · next fails => simp [found] at fails
  · next noQuery => simp [found] at noQuery
  · next other foundToo =>
    rw [found, Except.ok.injEq, Option.some.injEq] at foundToo
    rw [foundToo]

/-- A body with its queries delimited, read from its cut. -/
def Level.ofCut (parts : List Text × List (Text × Text)) : Level where
  lines := parts.1.flatMap ownLines
  queries := parts.2.map fun query => (Selector.read (Text.trim query.1), query.2)

/-- A body is delimited as it is cut. -/
theorem toOption_level (line : Nat) (text : Text) :
    (level line text).toOption = (cut text).map Level.ofCut := by
  fun_induction cut text generalizing line with
  | case1 text found =>
      have noQuery : first? line text = .ok none := by rw [first?, found]
      rw [level_of_none noQuery]
      simp [Except.toOption, Level.ofCut]
  | case2 text before after found noBrace =>
      exact toOption_level_of_error (by simp [first?, found, noBrace])
  | case3 text before after found written inside brace isEmpty =>
      exact toOption_level_of_error (by simp [first?, found, brace, isEmpty])
  | case4 text before after found written inside brace notEmpty notClosed =>
      exact toOption_level_of_error
        (by simp [first?, found, brace, notEmpty, Brace.readBody, notClosed])
  | case5 text before after found written inside brace notEmpty body rest closed
      ih =>
      have isFirst : ∃ next, first? line text = .ok (some
          { before, selector := Selector.read (Text.trim written), body, rest, line := next }) := by
        simp [first?, found, brace, notEmpty, Brace.readBody, closed]
      obtain ⟨next, isFirst⟩ := isFirst
      rw [level_of_some isFirst]
      have later := ih next
      cases isLater : level next rest with
      | error error =>
          rw [isLater] at later
          cases isCut : cut rest with
          | none => rfl
          | some parts => simp [isCut, Except.toOption] at later
      | ok more =>
          rw [isLater] at later
          cases isCut : cut rest with
          | none => simp [isCut, Except.toOption] at later
          | some parts =>
              rw [isCut, Option.map_some, Except.toOption, Option.some.injEq] at later
              simp [Except.map, Except.toOption, later, Level.ofCut]

/-- Whether the brace after a text is the one that closes it. -/
def isClosed (body : Text) : Bool :=
  Brace.splitAtClosing 1 0 (body ++ [.char '}']) == some (body, [])

theorem splitAtClosing_of_isClosed (closed : isClosed body = true) (rest : Text) :
    Brace.splitAtClosing 1 0 (body ++ .char '}' :: rest) = some (body, rest) :=
  Brace.splitAtClosing_of_isBody (Brace.isBody_of_splitAtClosing (beq_iff_eq.mp closed)) rest

/-- A query that can be written: what stands between the word and the brace, and the body. -/
structure IsWritten (query : Text × Text) : Prop where
  noBrace : .char '{' ∉ query.1
  hasSelector : (Text.trim query.1).isEmpty = false
  notWord : query.1.head?.any isWordChar = false
  isClosed : isClosed query.2 = true

theorem isWritten_of_cut {chunks : List Text} (isCut : cut text = some (chunks, queries)) :
    (∀ chunk ∈ chunks, splitAtQuery? chunk = none) ∧
      ∀ query ∈ queries, IsWritten query ∧ query.2.length < text.length := by
  fun_induction cut text generalizing chunks queries with
  | case1 text found =>
      simp only [Option.some.injEq, Prod.mk.injEq] at isCut
      simp [← isCut.1, ← isCut.2, found]
  | case2 => simp at isCut
  | case3 => simp at isCut
  | case4 => simp at isCut
  | case5 text before after found written inside brace notEmpty body rest closed
      ih =>
      obtain ⟨⟨moreChunks, moreQueries⟩, isRest, same⟩ := Option.map_eq_some_iff.mp isCut
      simp only [Prod.mk.injEq] at same
      rcases same with ⟨rfl, rfl⟩
      obtain ⟨noneBefore, notWord⟩ := noQuery_of_splitAtQuery? found
      obtain ⟨noneLater, areWritten⟩ := ih isRest
      have shorterAfter := length_splitAtQuery? found
      have shorterInside := Text.length_splitAtChar? brace
      have shorterBody := Brace.length_splitAtClosing closed
      refine ⟨List.forall_mem_cons.mpr ⟨noneBefore, noneLater⟩,
        List.forall_mem_cons.mpr ⟨⟨⟨?_, ?_, ?_, ?_⟩, ?_⟩, ?_⟩⟩
      · exact Text.not_mem_of_splitAtChar? brace
      · exact Bool.eq_false_iff.mpr notEmpty
      · rw [Text.splitAtChar?_eq_some brace] at notWord
        cases written with
        | nil => rfl
        | cons c written => exact notWord
      · exact beq_iff_eq.mpr
          (Brace.splitAtClosing_of_isBody (Brace.isBody_of_splitAtClosing closed) [])
      · simp only
        omega
      · intro query isQuery
        refine ⟨(areWritten query isQuery).1, ?_⟩
        have shorter := (areWritten query isQuery).2
        omega

/-- A query as it is written. -/
def write (query : Text × Text) : Text :=
  ("@query" : Text) ++ (query.1 ++ .char '{' :: (query.2 ++ [.char '}']))

/-- Cutting a body that is written with its queries in a row. -/
theorem cut_append {front back : Text} (noneBefore : splitAtQuery? front = none)
    (noneAfter : splitAtQuery? back = none) (noneBetween : splitAtQuery? (front ++ back) = none)
    (ends : Text.endsLine front back = true) (areWritten : ∀ query ∈ queries, IsWritten query) :
    ∃ chunks, cut (front ++ (queries.flatMap write ++ back)) = some (chunks, queries) ∧
      chunks.flatMap ownLines = ownLines front ++ ownLines back := by
  induction queries generalizing front with
  | nil =>
      refine ⟨[front ++ back], ?_, ?_⟩
      · rw [List.flatMap_nil, List.nil_append, cut_of_none noneBetween]
      · simp [ownLines_append ends]
  | cons query queries ih =>
      rw [List.forall_mem_cons] at areWritten
      obtain ⟨chunks, isCut, sameLines⟩ := @ih [] rfl noneAfter rfl areWritten.2
      have isWritten := areWritten.1
      refine ⟨front :: chunks, ?_, ?_⟩
      · have found : splitAtQuery? (front ++ ((query :: queries).flatMap write ++ back)) =
            some (front, query.1 ++ .char '{' :: (query.2 ++ .char '}' ::
              (queries.flatMap write ++ back))) := by
          have notWord : (query.1 ++ .char '{' :: (query.2 ++ .char '}' ::
              (queries.flatMap write ++ back))).head?.any isWordChar = false := by
            cases isSelector : query.1 with
            | nil =>
                change isWordChar '{' = false
                decide
            | cons c selector =>
                have ofSelector := isWritten.notWord
                rw [isSelector] at ofSelector
                exact ofSelector
          rw [← splitAtQuery?_of_noQuery noneBefore notWord]
          simp [write]
        rw [cut_of_some found (Text.splitAtChar?_append isWritten.noBrace _) isWritten.hasSelector
          (splitAtClosing_of_isClosed isWritten.isClosed _)]
        rw [List.nil_append] at isCut
        rw [isCut]
        rfl
      · rw [List.flatMap_cons, sameLines]
        rfl

/-! ## Moving constants and queries to the front -/

/-- The lines that use constants. -/
def useLines (lines : List Text) : List Text :=
  lines.filter fun line => (usedConstants? line).isSome

/-- The lines of a body with those that use constants in front. -/
def arrange (lines : List Text) : List Text :=
  useLines lines ++ statementLines lines

/-- A body with the lines that use constants in front, then the queries, then the statements. -/
def assemble (lines : List Text) (queries : List (Text × Text)) : Text :=
  unlines (useLines lines) ++ (queries.flatMap write ++ unlines (statementLines lines))

/-- The body with its uses of constants and its queries moved to the front, and those of each query
moved to the front of the query, unless they were all that kept its braces and brackets closed. -/
def hoist (text : Text) : Text :=
  match isCut : cut text with
  | none => text
  | some (chunks, queries) =>
    assemble (chunks.flatMap ownLines) (queries.attach.map fun query =>
      have := ((isWritten_of_cut isCut).2 query.1 query.2).2
      let moved := hoist query.1.2
      (query.1.1, if isClosed moved then moved else query.1.2))
termination_by text.length

/-- The body of a query after the moves inside it. -/
def hoistClosed (body : Text) : Text :=
  if isClosed (hoist body) then hoist body else body

theorem hoist_of_none (notCut : cut text = none) : hoist text = text := by
  rw [hoist]
  split
  · rfl
  · next isCut => simp [notCut] at isCut

theorem hoist_of_some {chunks : List Text} (isCut : cut text = some (chunks, queries)) :
    hoist text = assemble (chunks.flatMap ownLines)
      (queries.map fun query => (query.1, hoistClosed query.2)) := by
  rw [hoist]
  split
  · next notCut => simp [notCut] at isCut
  · next isCutToo =>
    rw [isCut, Option.some.injEq, Prod.mk.injEq] at isCutToo
    rcases isCutToo with ⟨rfl, rfl⟩
    exact congrArg (assemble _)
      (List.attach_map_val (f := fun query : Text × Text => (query.1, hoistClosed query.2)))

theorem isClosed_hoistClosed (closed : isClosed body = true) :
    isClosed (hoistClosed body) = true := by
  rw [hoistClosed]
  split <;> assumption

/-- Cutting a body that was put together from lines and queries. -/
theorem cut_assemble (areLines : ∀ line ∈ lines, IsOwnLine line)
    (areWritten : ∀ query ∈ queries, IsWritten query) :
    ∃ chunks, cut (assemble lines queries) = some (chunks, queries) ∧
      chunks.flatMap ownLines = arrange lines := by
  have areUses : ∀ line ∈ useLines lines, IsOwnLine line :=
    fun line isLine => areLines line (List.mem_of_mem_filter isLine)
  have areStatements : ∀ line ∈ statementLines lines, IsOwnLine line :=
    fun line isLine => areLines line (List.mem_of_mem_filter isLine)
  have noneBefore : splitAtQuery? (unlines (useLines lines)) = none := by
    simpa using @noQuery_unlines [] _ areUses rfl
  have noneAfter : splitAtQuery? (unlines (statementLines lines)) = none := by
    simpa using @noQuery_unlines [] _ areStatements rfl
  obtain ⟨chunks, isCut, sameLines⟩ := cut_append noneBefore noneAfter
    (noQuery_unlines areUses noneAfter) (endsLine_unlines _ _) areWritten
  refine ⟨chunks, isCut, ?_⟩
  rw [sameLines, ownLines_unlines areUses, ownLines_unlines areStatements, arrange]

theorem level_of_cut {parts : List Text × List (Text × Text)} (isCut : cut text = some parts)
    (line : Nat) : level line text = .ok (.ofCut parts) := by
  have delimits := toOption_level line text
  rw [isCut] at delimits
  cases isLevel : level line text with
  | error error => simp [isLevel, Except.toOption] at delimits
  | ok delimited => simpa [isLevel, Except.toOption] using delimits

/-- Moving its parts changes neither the queries of a body nor its lines, but for their order. -/
theorem level_hoist (text : Text) :
    level 1 (hoist text) = (level 1 text).map fun delimited =>
      { lines := arrange delimited.lines
        queries := delimited.queries.map fun query => (query.1, hoistClosed query.2) } := by
  cases isCut : cut text with
  | none =>
      have fails := toOption_level 1 text
      rw [hoist_of_none isCut]
      cases isLevel : level 1 text with
      | error error => rfl
      | ok delimited => simp [isLevel, isCut, Except.toOption] at fails
  | some parts =>
      obtain ⟨chunks, queries⟩ := parts
      obtain ⟨noQuery, areWritten⟩ := isWritten_of_cut isCut
      have areLines : ∀ line ∈ chunks.flatMap ownLines, IsOwnLine line := by
        intro line isLine
        obtain ⟨chunk, isChunk, inChunk⟩ := List.mem_flatMap.mp isLine
        exact isOwnLine_of_mem (noQuery chunk isChunk) inChunk
      have areWrittenAfter : ∀ query ∈ queries.map fun query => (query.1, hoistClosed query.2),
          IsWritten query := by
        intro query isQuery
        obtain ⟨original, isOriginal, rfl⟩ := List.mem_map.mp isQuery
        have isWritten := (areWritten original isOriginal).1
        exact ⟨isWritten.noBrace, isWritten.hasSelector, isWritten.notWord,
          isClosed_hoistClosed isWritten.isClosed⟩
      obtain ⟨moved, isCutAfter, sameLines⟩ := cut_assemble areLines areWrittenAfter
      rw [hoist_of_some isCut, level_of_cut isCutAfter, level_of_cut isCut, Except.map,
        Level.ofCut, Level.ofCut, sameLines, List.map_map, List.map_map]
      rfl

theorem useLines_arrange (lines : List Text) : useLines (arrange lines) = useLines lines := by
  have ofUses : useLines (useLines lines) = useLines lines := by simp [useLines]
  have ofStatements : useLines (statementLines lines) = [] := by
    simp [useLines, statementLines, List.filter_eq_nil_iff, Option.isSome_iff_ne_none]
  rw [arrange, useLines, List.filter_append]
  exact (congrArg₂ (· ++ ·) ofUses ofStatements).trans (List.append_nil _)

theorem statementLines_arrange (lines : List Text) :
    statementLines (arrange lines) = statementLines lines := by
  have ofUses : statementLines (useLines lines) = [] := by
    simp [statementLines, useLines, List.filter_eq_nil_iff]
  have ofStatements : statementLines (statementLines lines) = statementLines lines := by
    simp [statementLines]
  rw [arrange, statementLines, List.filter_append]
  exact (congrArg₂ (· ++ ·) ofUses ofStatements).trans (List.nil_append _)

theorem arrange_arrange (lines : List Text) : arrange (arrange lines) = arrange lines := by
  rw [arrange, useLines_arrange, statementLines_arrange, arrange]

theorem usedConstants_useLines (lines : List Text) :
    usedConstants (useLines lines) = usedConstants lines := by
  rw [usedConstants, useLines, List.filterMap_filter]
  congr 2
  funext line
  cases usedConstants? line <;> rfl

theorem usedConstants_arrange (lines : List Text) :
    usedConstants (arrange lines) = usedConstants lines := by
  rw [← usedConstants_useLines, useLines_arrange, usedConstants_useLines]

end Query

theorem Attempt.toExcept_map {σ τ : Type} (embed : σ → τ) (attempt : Attempt σ) :
    (attempt.map embed).toExcept = attempt.toExcept.map embed := by
  obtain ⟨state, failure⟩ := attempt
  cases failure <;> rfl

theorem Style.dispatchLines_arrange (environment : Environment) (constants : Constants)
    (nested : Bool) (lines : List Text) (style : Style) :
    style.dispatchLines environment constants nested (Query.arrange lines) =
      style.dispatchLines environment constants nested lines := by
  rw [dispatchLines, Query.usedConstants_arrange, Query.statementLines_arrange]
  rfl

namespace QueryTree

theorem parse_of_noQuery {body : Text} (noQuery : Query.splitAtQuery? body = none) :
    parse body = .ok (Query.ownLines body, []) := by
  have noneFirst : Query.first? 1 body = .ok none := by rw [Query.first?, noQuery]
  rw [parse_of_level (Query.level_of_none noneFirst)]
  rfl

mutual

/-- The tree with the lines of every query arranged. -/
def arrange : QueryTree → QueryTree
  | node selector lines style children =>
    node selector (Query.arrange lines) style (arrangeForest children)

/-- The forest with the lines of every query arranged. -/
def arrangeForest : List QueryTree → List QueryTree
  | [] => []
  | tree :: rest => arrange tree :: arrangeForest rest

end

/-- What is read from a body, with all lines arranged. -/
def arrangeRead (read : List Text × List QueryTree) : List Text × List QueryTree :=
  (Query.arrange read.1, arrangeForest read.2)

theorem map_foldrM_readQuery (queries : List (Text × Text)) (query : Text × Text) :
    ((query :: queries).foldrM readQuery []).map arrangeForest = do
      let later ← (queries.foldrM readQuery []).map arrangeForest
      let (lines, children) ← (parse query.2).map arrangeRead
      return node query.1 lines ∅ children :: later := by
  rw [List.foldrM_cons]
  cases queries.foldrM readQuery [] with
  | error error => rfl
  | ok later =>
      simp only [bind, Except.bind, Except.map, readQuery]
      cases parse query.2 with
      | error error => rfl
      | ok read => rfl

theorem map_foldrM_congr {change : Text → Text} {queries : List (Text × Text)}
    (same : ∀ query ∈ queries,
      (parse (change query.2)).map arrangeRead = (parse query.2).map arrangeRead) :
    ((queries.map fun query => (query.1, change query.2)).foldrM readQuery []).map arrangeForest =
      (queries.foldrM readQuery []).map arrangeForest := by
  induction queries with
  | nil => rfl
  | cons query queries ih =>
      rw [List.forall_mem_cons] at same
      rw [List.map_cons, map_foldrM_readQuery, map_foldrM_readQuery, ih same.2,
        same.1]

theorem map_arrangeRead (outcome : Except Error (List QueryTree)) (lines : List Text) :
    (outcome.map fun forest => (lines, forest)).map arrangeRead =
      (outcome.map arrangeForest).map fun forest => (Query.arrange lines, forest) := by
  cases outcome <;> rfl

/-- Reading a body after the moves gives what it gave before, with the lines arranged. -/
theorem parse_hoist (text : Text) :
    (parse (Query.hoist text)).map arrangeRead = (parse text).map arrangeRead := by
  induction length : text.length using Nat.strong_induction_on generalizing text with
  | _ size ih =>
    have afterMoves := Query.level_hoist text
    cases isLevel : Query.level 1 text with
    | error error =>
        rw [isLevel] at afterMoves
        rw [parse_of_error isLevel, parse_of_error afterMoves]
    | ok delimited =>
        rw [isLevel] at afterMoves
        rw [parse_of_level isLevel, parse_of_level afterMoves]
        have shorter := Query.length_level isLevel
        have ofQueries : ∀ query ∈ delimited.queries,
            (parse (Query.hoistClosed query.2)).map arrangeRead =
              (parse query.2).map arrangeRead := by
          intro query isQuery
          rw [Query.hoistClosed]
          split
          · exact ih _ (length ▸ shorter query isQuery) query.2 rfl
          · rfl
        rw [map_arrangeRead, map_arrangeRead, map_foldrM_congr ofQueries, Query.arrange_arrange]

/-! ## Compiling a body after the moves -/

theorem compileForest_arrange (environment : Environment) (constants : Constants)
    (forest : List QueryTree) : compileForest environment constants (arrangeForest forest) =
      (compileForest environment constants forest).map arrangeForest := by
  induction forest using forest_induction with
  | nil => rfl
  | cons selector lines style children rest inner onwards =>
      rw [arrangeForest, arrange, compileForest, compileForest, compile, compile,
        Style.dispatchLines_arrange, inner, onwards]
      cases (style.dispatchLines { environment with context := .query } constants true
          lines).failure with
      | some error => rfl
      | none =>
          simp only [Attempt.map]
          split
          · rfl
          · rfl

theorem arrangeForest_eq_map (forest : List QueryTree) :
    arrangeForest forest = forest.map arrange := by
  induction forest with
  | nil => rfl
  | cons tree rest ih => rw [arrangeForest, ih, List.map_cons]

theorem preorder_arrangeForest (forest : List QueryTree) :
    preorder (arrangeForest forest) = (preorder forest).map arrange := by
  induction forest using preorder.induct with
  | case1 => simp [arrangeForest, preorder_nil]
  | case2 selector lines style children rest ih =>
      rw [preorder, List.map_cons, ← ih, arrangeForest, arrange, preorder]
      simp only [arrangeForest_eq_map, List.map_append]

theorem under_arrangeForest (parent : Text) (forest : List QueryTree) :
    under parent (arrangeForest forest) =
      (under parent forest).map fun query => (query.1, arrange query.2) := by
  rw [arrangeForest_eq_map, under, under, List.map_map, List.map_map]
  rfl

theorem rules_arrange (names : OrderedMap Text Text) (owner : Text)
    (queries : List (Text × QueryTree)) :
    rules names owner (queries.map fun query => (query.1, arrange query.2)) =
      rules names owner queries := by
  induction queries using rules.induct with
  | case1 => rfl
  | case2 parent written lines style children rest ih =>
      rw [List.map_cons, arrange, rules, rules]
      cases Selector.nest names parent written with
      | error error => rfl
      | ok selector =>
          simp only [bind, Except.bind, under_arrangeForest, ← List.map_append,
            ih selector]

end QueryTree

theorem classRules_arrange (names : OrderedMap Text Text) (display : Text) (style : Style)
    (queries : List QueryTree) :
    classRules names display style (QueryTree.arrangeForest queries) =
      classRules names display style queries := by
  rw [classRules, QueryTree.under_arrangeForest, QueryTree.rules_arrange]
  rfl

namespace Source

theorem usedLocals_arrange (style : Style) (queries : List QueryTree) :
    usedLocals style (QueryTree.arrangeForest queries) = usedLocals style queries := by
  rw [usedLocals, QueryTree.preorder_arrangeForest, List.foldl_map]
  have sameStyle : ∀ query : QueryTree, query.arrange.style = query.style := by
    intro query
    cases query
    rfl
  simp only [sameStyle]
  rfl

theorem checkLocals_arrange (scope name : Text) (style : Style) (queries : List QueryTree) :
    checkLocals scope name style (QueryTree.arrangeForest queries) =
      checkLocals scope name style queries := by
  rw [checkLocals, usedLocals_arrange]
  rfl

/-- The style and the queries of a class whose body was read. -/
def compileRead (environment : Environment) (scope : Text) (constants : Constants) (name : Text)
    (read : List Text × List QueryTree) : Except Error (Style × List QueryTree) := do
  let style ← ((∅ : Style).dispatchLines environment constants false read.1).toExcept
  let queries ← (QueryTree.compileForest environment constants read.2).toExcept
  checkLocals scope name style queries
  return (style, queries)

theorem readClass_eq (environment : Environment) (scope : Text) (constants : Constants)
    (block : ClassBlock) :
    readClass environment scope constants block =
      QueryTree.parse block.body >>= compileRead environment scope constants block.name := rfl

theorem compileRead_arrange (environment : Environment) (scope : Text) (constants : Constants)
    (name : Text) (read : List Text × List QueryTree) :
    compileRead environment scope constants name (QueryTree.arrangeRead read) =
      (compileRead environment scope constants name read).map fun compiled =>
        (compiled.1, QueryTree.arrangeForest compiled.2) := by
  rw [compileRead, compileRead, QueryTree.arrangeRead, Style.dispatchLines_arrange,
    QueryTree.compileForest_arrange, Attempt.toExcept_map]
  simp only [bind, Except.bind]
  cases ((∅ : Style).dispatchLines environment constants false read.1).toExcept with
  | error error => rfl
  | ok style =>
      cases (QueryTree.compileForest environment constants read.2).toExcept with
      | error error => rfl
      | ok queries =>
          simp only [Except.map, checkLocals_arrange]
          cases checkLocals scope name style queries with
          | error error => rfl
          | ok _ => rfl

/-- The class with the lines of its queries arranged. -/
def arrangeClass (compiled : CompiledClass) : CompiledClass :=
  { compiled with queries := QueryTree.arrangeForest compiled.queries }

/-- The class with the uses of constants and the queries of its body moved to the front. -/
def hoistClass (block : ClassBlock) : ClassBlock :=
  { block with body := Query.hoist block.body }

section

variable (environment : Environment) (scope : Text) (constants : Constants) (block : ClassBlock)

theorem map_readClass :
    ((readClass environment scope constants block).map fun compiled =>
        (compiled.1, QueryTree.arrangeForest compiled.2)) =
      (QueryTree.parse block.body).map QueryTree.arrangeRead >>=
        compileRead environment scope constants block.name := by
  rw [readClass_eq]
  cases QueryTree.parse block.body with
  | error error => rfl
  | ok read => exact (compileRead_arrange environment scope constants block.name read).symm

/-- A class compiles as it does after the moves, but for the order of the lines that its queries
keep. -/
theorem compileClass_hoistClass :
    (compileClass environment scope constants (hoistClass block)).map arrangeClass =
      (compileClass environment scope constants block).map arrangeClass := by
  have sameRead : ((readClass environment scope constants (hoistClass block)).map fun compiled =>
        (compiled.1, QueryTree.arrangeForest compiled.2)) =
      (readClass environment scope constants block).map fun compiled =>
        (compiled.1, QueryTree.arrangeForest compiled.2) := by
    rw [map_readClass, map_readClass, hoistClass, QueryTree.parse_hoist]
  have fromRead : ∀ block : ClassBlock,
      (compileClass environment scope constants block).map arrangeClass = do
        let read ← (readClass environment scope constants block).map fun compiled =>
          (compiled.1, QueryTree.arrangeForest compiled.2)
        let display := Naming.final scope block.name
        let style ← (read.1.nameVariables display scope).toExcept
        return { name := block.name, display, style, queries := read.2 } := by
    intro block
    rw [compileClass]
    cases readClass environment scope constants block with
    | error error => rfl
    | ok compiled =>
        simp only [bind, Except.bind, Except.map]
        cases (compiled.1.nameVariables (Naming.final scope block.name) scope).toExcept with
        | error error => rfl
        | ok style => rfl
  rw [fromRead, fromRead, sameRead]
  rfl

end

end Source

/-! ## Misplaced constants and queries -/

namespace Query

/-- A line that uses constants or a query starts between the two texts. -/
inductive Interrupts (before after : Text) : Prop where
  | use (ends : Text.endsLine before after = true)
      (uses : ∃ line ∈ (Text.lines after).head?, (usedConstants? (Text.trim line)).isSome = true)
  | query (rest : Text) (found : splitAtQuery? after = some ([], rest))

/-- A line that uses constants or a query starts inside a block of the body. -/
def Misplaced (body : Text) : Prop :=
  ∃ before after scan, body = before ++ after ∧ ({} : Scan).run before = .ok scan ∧
    .block ∈ scan.groups ∧ Interrupts before after

/-- A body is within itself, and the body of a query is within what the query is within. -/
inductive BodyWithin (body : Text) : Text → Prop where
  | self : BodyWithin body body
  | query {outer selector inner : Text} {delimited : Level} (within : BodyWithin body outer)
      (isLevel : level 1 outer = .ok delimited) (isQuery : (selector, inner) ∈ delimited.queries) :
      BodyWithin body inner

end Query

namespace Source

/-- A line that uses constants or a query starts inside a block of the class or of one of its
queries. -/
def HasMisplaced (block : ClassBlock) : Prop :=
  ∃ body, Query.BodyWithin block.body body ∧ Query.Misplaced body

/-- The rules of a class, given the final names of the classes of the source. -/
def rulesOfClass (environment : Environment) (scope : Text) (constants : Constants)
    (names : OrderedMap Text Text) (block : ClassBlock) : Except Error (List Rule) := do
  let compiled ← compileClass environment scope constants block
  classRules names compiled.display compiled.style compiled.queries

theorem rulesOfClass_eq (environment : Environment) (scope : Text) (constants : Constants)
    (names : OrderedMap Text Text) (block : ClassBlock) :
    rulesOfClass environment scope constants names block =
      (compileClass environment scope constants block).map arrangeClass >>= fun compiled =>
        classRules names compiled.display compiled.style compiled.queries := by
  rw [rulesOfClass]
  cases compileClass environment scope constants block with
  | error error => rfl
  | ok compiled => exact (classRules_arrange names _ _ _).symm

theorem isError_iff_of_map {ε α β : Type} {left right : Except ε α} {change : α → β}
    (same : left.map change = right.map change) :
    (∃ error, right = .error error) ↔ ∃ error, left = .error error := by
  cases left <;> cases right <;> simp_all [Except.map]

/-- Wherever the uses of constants and the queries of a class stand, inside a block or not, it is
refused exactly if it is refused with all of them at the front of their bodies, and has the same
rules. -/
theorem refuses_hoistClass_iff (environment : Environment) (scope : Text) (constants : Constants)
    (block : ClassBlock) :
    ((∃ error, compileClass environment scope constants block = .error error) ↔
      ∃ error, compileClass environment scope constants (hoistClass block) = .error error) ∧
      ∀ names, rulesOfClass environment scope constants names (hoistClass block) =
        rulesOfClass environment scope constants names block := by
  have same := compileClass_hoistClass environment scope constants block
  refine ⟨isError_iff_of_map same, fun names => ?_⟩
  rw [rulesOfClass_eq, rulesOfClass_eq, same]

set_option maxRecDepth 100000 in
/-- A line that uses a constant may stand inside a block: the constant goes to the class, and the
block is compiled without the line. -/
theorem compiles_use_inside_block :
    ∃ source block compiled, Source.parse
        "@const k \x7b c[blue] \x7d\n.a \x7b\nhover(\n@use k\nbg[red]\n)\n\x7d" = .ok source ∧
      source.classes = [block] ∧ HasMisplaced block ∧ source.compile {} = .ok compiled ∧
      compiled.css = ".a\x7bcolor:blue;\x7d.a:hover\x7bbackground-color:red;\x7d" := by
  have evaluates : (do
      let source ← Source.parse
        "@const k \x7b c[blue] \x7d\n.a \x7b\nhover(\n@use k\nbg[red]\n)\n\x7d"
      return (source.classes, (← source.compile {}).css)) =
      .ok ([⟨"a", "\nhover(\n@use k\nbg[red]\n)\n"⟩],
        (".a\x7bcolor:blue;\x7d.a:hover\x7bbackground-color:red;\x7d" : Text)) := by
    repeat rw [Text.ofString_ofList]
    decide +kernel
  rcases bind_eq_ok.mp evaluates with ⟨source, parses, evaluates⟩
  rcases bind_eq_ok.mp evaluates with ⟨compiled, compiles, isPair⟩
  simp only [pure, Except.pure, Except.ok.injEq, Prod.mk.injEq] at isPair
  refine ⟨source, _, compiled, parses, isPair.1, ?_, compiles, isPair.2⟩
  refine ⟨_, .self, "\nhover(\n", "@use k\nbg[red]\n)\n", ⟨("\n(revoh\n" : Text), [.block]⟩, ?_⟩
  refine ⟨by decide, by decide +kernel, by decide,
    .use (by decide) ⟨"@use k", by decide, by decide⟩⟩

end Source

end TerseStyle

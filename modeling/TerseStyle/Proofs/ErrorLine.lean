import Mathlib.Logic.Relation
import TerseStyle.Proofs.ClassText
import TerseStyle.Proofs.Safety

/-!
# Lines of errors

A source is read in passes, and each pass takes spans out of the text before the next one begins.
The lines of errors are counted in what is left. They are lines of the source all the same, since of
a span that is taken out the line feeds stay: a character that is left has as many of them before it
as it ever had (`Source.Thinned`).

So the line of an error is that of the header, opening brace, directive or stray character that is
at fault (`Source.Located`). One sort of error is different: the statements of a constant are
scanned as a text of their own, and errors in them count the lines of that text. Such a line is the
right one only if the constant opens on the first line of the source
(`Source.parse_error_located`).
-/

namespace TerseStyle

namespace Text

theorem lineFeeds_append (front rest : Text) :
    lineFeeds (front ++ rest) = lineFeeds front + lineFeeds rest :=
  List.count_append

theorem lineFeeds_cons (c : CodePoint) (rest : Text) :
    lineFeeds (c :: rest) = lineFeeds [c] + lineFeeds rest :=
  lineFeeds_append [c] rest

theorem lineFeed_not_mem_dropLast {text line : Text} (isLine : line ∈ linesWithBreaks text) :
    CodePoint.char '\n' ∉ line.dropLast := by
  induction text using linesWithBreaks.induct generalizing line with
  | case1 => simp [linesWithBreaks] at isLine
  | case2 rest ih =>
      rw [linesWithBreaks, List.mem_cons] at isLine
      rcases isLine with rfl | isLater
      · decide
      · exact ih isLater
  | case3 c rest notPair isBreak ih =>
      rw [linesWithBreaks, if_pos isBreak, List.mem_cons] at isLine
      · rcases isLine with rfl | isLater
        · simp
        · exact ih isLater
      · exact notPair
  | case4 c rest notPair notBreak isRest ih =>
      rw [linesWithBreaks_of_notBreak (Bool.eq_false_iff.mpr notBreak), isRest] at isLine
      simp_all
  | case5 c rest notPair notBreak first more isRest ih =>
      rw [linesWithBreaks_of_notBreak (Bool.eq_false_iff.mpr notBreak), isRest, List.mem_cons]
        at isLine
      rcases isLine with rfl | isLater
      · have notFeed : CodePoint.char '\n' ≠ c := by
          rintro rfl
          exact notBreak (by decide)
        have ofFirst := ih (isRest ▸ List.mem_cons_self)
        cases first with
        | nil => simp
        | cons next first => simpa [notFeed] using ofFirst
      · exact ih (isRest ▸ List.mem_cons_of_mem _ isLater)

end Text

theorem Directive.lineFeeds_splitLineEnd {text line : Text}
    (isLine : line ∈ Text.linesWithBreaks text) : Text.lineFeeds (splitLineEnd line).1 = 0 := by
  apply List.count_eq_zero.mpr
  intro isFeed
  have noFeed := Text.lineFeed_not_mem_dropLast isLine
  have notEnd := List.head?_dropWhile_not isLineEnd line.reverse
  rw [← splitLineEnd_append line] at noFeed
  rw [splitLineEnd] at isFeed noFeed
  cases isContent : line.reverse.dropWhile isLineEnd with
  | nil => simp [isContent] at isFeed
  | cons last content =>
      rw [isContent] at isFeed noFeed notEnd
      have notFeed : CodePoint.char '\n' ≠ last := by
        rintro rfl
        simp [isLineEnd] at notEnd
      have inContent : CodePoint.char '\n' ∈ content := by simpa [notFeed] using isFeed
      apply noFeed
      rw [List.reverse_cons, List.append_assoc, List.dropLast_append_of_ne_nil (by simp)]
      exact List.mem_append_left _ (List.mem_reverse.mpr inContent)

theorem Brace.readBody_eq_error_iff {line : Nat} {text : Text} {error : Error} :
    readBody line text = .error error ↔
      splitAtClosing 1 0 text = none ∧
        error = { cause := .missingBrace line, line := some line } := by
  rw [readBody]
  split
  · next closes => simp [closes]
  · next opens => simp [opens, eq_comm]

/-! ## Lines of the source -/

namespace Source

/-- The text lost characters, but no line feed. -/
structure Thinned (text remaining : Text) : Prop where
  sublist : remaining.Sublist text
  lineFeeds_eq : Text.lineFeeds remaining = Text.lineFeeds text

namespace Thinned

variable {text middle remaining : Text}

theorem refl (text : Text) : Thinned text text :=
  ⟨.refl text, rfl⟩

theorem trans (first : Thinned text middle) (second : Thinned middle remaining) :
    Thinned text remaining :=
  ⟨second.sublist.trans first.sublist, second.lineFeeds_eq.trans first.lineFeeds_eq⟩

theorem blank (text : Text) : Thinned text (blank text) where
  sublist := List.replicate_sublist_iff.mpr le_rfl
  lineFeeds_eq := List.count_replicate_self

theorem append {more left : Text} (first : Thinned text remaining) (second : Thinned more left) :
    Thinned (text ++ more) (remaining ++ left) where
  sublist := first.sublist.append second.sublist
  lineFeeds_eq := by
    rw [Text.lineFeeds_append, Text.lineFeeds_append, first.lineFeeds_eq, second.lineFeeds_eq]

theorem exists_append {before after : Text} (thinned : Thinned text (before ++ after)) :
    ∃ front back, text = front ++ back ∧ Thinned front before ∧ Thinned back after := by
  obtain ⟨front, back, rfl, ofFront, ofBack⟩ := List.append_sublist_iff.mp thinned.sublist
  have sameFeeds := thinned.lineFeeds_eq
  rw [Text.lineFeeds_append, Text.lineFeeds_append] at sameFeeds
  have lessFront : Text.lineFeeds before ≤ Text.lineFeeds front := ofFront.count_le _
  have lessBack : Text.lineFeeds after ≤ Text.lineFeeds back := ofBack.count_le _
  exact ⟨front, back, rfl, ⟨ofFront, by omega⟩, ⟨ofBack, by omega⟩⟩

/-- A character that is left has as many line feeds before it as in the text. -/
theorem exists_cons {before after : Text} {c : CodePoint}
    (thinned : Thinned text (before ++ c :: after)) :
    ∃ front back, text = front ++ c :: back ∧ Thinned front before ∧ Thinned back after := by
  obtain ⟨front, middle, rfl, ofFront, ofMiddle⟩ := thinned.exists_append
  rw [← List.singleton_append] at ofMiddle
  obtain ⟨first, back, rfl, ofFirst, ofBack⟩ := ofMiddle.exists_append
  obtain ⟨between, more, rfl⟩ := List.append_of_mem (List.singleton_sublist.mp ofFirst.sublist)
  have sameFeeds := ofFirst.lineFeeds_eq
  rw [Text.lineFeeds_append, Text.lineFeeds_cons c more] at sameFeeds
  -- Only the character itself is left of this part, so nothing else in it was a line feed.
  have isBetween : Text.lineFeeds between = 0 := by omega
  have isMore : Text.lineFeeds more = 0 := by omega
  have ofMore : Thinned more [] := ⟨List.nil_sublist more, isMore.symm⟩
  have ofBetween : Thinned between [] := ⟨List.nil_sublist between, isBetween.symm⟩
  refine ⟨front ++ between, more ++ back, by simp, ?_, ofMore.append ofBack⟩
  simpa using ofFront.append ofBetween

end Thinned

/-- One span of the text is replaced by its line feeds. -/
def Blanks (text remaining : Text) : Prop :=
  ∃ before span after, text = before ++ span ++ after ∧ remaining = before ++ blank span ++ after

/-- Any number of spans are replaced by their line feeds, one after the other. -/
def Blanked : Text → Text → Prop :=
  Relation.ReflTransGen Blanks

namespace Blanked

variable {text remaining : Text}

theorem span (before span after : Text) :
    Blanked (before ++ span ++ after) (before ++ blank span ++ after) :=
  .single ⟨before, span, after, rfl, rfl⟩

theorem append_left (front : Text) (blanked : Blanked text remaining) :
    Blanked (front ++ text) (front ++ remaining) := by
  induction blanked with
  | refl => exact .refl
  | tail _ blanks ih =>
      obtain ⟨before, span, after, rfl, rfl⟩ := blanks
      exact ih.tail ⟨front ++ before, span, after, by simp, by simp⟩

theorem thinned (blanked : Blanked text remaining) : Thinned text remaining := by
  induction blanked with
  | refl => exact .refl text
  | tail _ blanks ih =>
      obtain ⟨before, span, after, rfl, rfl⟩ := blanks
      have ofSpan := ((Thinned.refl before).append (.blank span)).append (.refl after)
      exact ih.trans ofSpan

end Blanked

/-- A character of the source stands on the given line of it, and what is left of the source from
that character on is `rest`. -/
def StandsOn (text : Text) (line : Nat) (rest : Text) : Prop :=
  ∃ before c after left, text = before ++ c :: after ∧ line = Text.lineFeeds before + 1 ∧
    rest = c :: left ∧ Thinned after left

theorem StandsOn.line_add {text rest : Text} {line : Nat} (stands : StandsOn text line rest) :
    line + Text.lineFeeds rest = Text.lineFeeds text + 1 := by
  obtain ⟨before, c, after, left, rfl, rfl, rfl, thinned⟩ := stands
  rw [Text.lineFeeds_append, Text.lineFeeds_cons c left, Text.lineFeeds_cons c after,
    thinned.lineFeeds_eq]
  omega

theorem Thinned.standsOn {text before rest : Text} (thinned : Thinned text (before ++ rest))
    (goesOn : rest ≠ []) : StandsOn text (Text.lineFeeds before + 1) rest := by
  obtain ⟨c, left, rfl⟩ := List.exists_cons_of_ne_nil goesOn
  obtain ⟨front, back, isText, ofFront, ofBack⟩ := thinned.exists_cons
  exact ⟨front, c, back, left, isText, by rw [ofFront.lineFeeds_eq], rfl, ofBack⟩

theorem StandsOn.advance {text front rest : Text} {line : Nat}
    (stands : StandsOn text line (front ++ rest)) (goesOn : rest ≠ []) :
    StandsOn text (line + Text.lineFeeds front) rest := by
  obtain ⟨before, c, after, left, rfl, rfl, isLeft, thinned⟩ := stands
  have ofWhole : Thinned (c :: after) (front ++ rest) :=
    isLeft ▸ (Thinned.refl [c]).append thinned
  obtain ⟨between, next, more, kept, isMore, isLine, rfl, ofMore⟩ := ofWhole.standsOn goesOn
  refine ⟨before ++ between, next, more, kept, by rw [isMore, List.append_assoc], ?_, rfl, ofMore⟩
  rw [Text.lineFeeds_append]
  omega

theorem StandsOn.brace {text : Text} {line : Nat} {header : Header}
    (stands : StandsOn text line (header.written ++ header.rest))
    (opens : ∃ front, header.written = front ++ [CodePoint.char '{']) :
    StandsOn text (line + Text.lineFeeds header.written) (.char '{' :: header.rest) := by
  obtain ⟨front, isWritten⟩ := opens
  have noFeed : Text.lineFeeds header.written = Text.lineFeeds front := by
    rw [isWritten, Text.lineFeeds_append]
    rfl
  rw [noFeed]
  apply StandsOn.advance _ (List.cons_ne_nil _ _)
  simpa [isWritten] using stands

/-! ## Constants and keyframes -/

/-- Blocks of a kind are cut out of a text one after the other; the last text is what is left. -/
inductive Cuts (kind : Text) : Text → List NamedBlock → Text → Prop where
  | nil (text : Text) : Cuts kind text [] text
  | cons {text before body after left : Text} {header : Header} {blocks : List NamedBlock}
      (found : findHeader? (.char '@' :: kind) true text = some (before, header))
      (closes : Brace.splitAtClosing 1 0 header.rest = some (body, after))
      (cuts : Cuts kind (before ++ blank header.written ++ blank body ++ after) blocks left) :
      Cuts kind text
        ({ name := header.name, body, line := Text.lineFeeds before + 1 } :: blocks) left

/-- Once some blocks are cut out, the header is the next one. -/
def Meets (kind text : Text) (blocks : List NamedBlock) (header : Header) : Prop :=
  ∃ left before, Cuts kind text blocks left ∧
    findHeader? (.char '@' :: kind) true left = some (before, header)

section

variable {kind text start left : Text} {blocks : List NamedBlock} {header : Header}

theorem Cuts.blanked (cuts : Cuts kind text blocks left) : Blanked text left := by
  induction cuts with
  | nil => exact .refl
  | @cons text before body after left header blocks found closes cuts ih =>
      have isText : text = before ++ (header.written ++ body ++ [CodePoint.char '}']) ++ after := by
        rw [(findHeader?_eq_some found).1, Brace.splitAtClosing_eq_some closes]
        simp
      have isBlank : blank (header.written ++ body ++ [CodePoint.char '}']) =
          blank header.written ++ blank body := by
        rw [blank, Text.lineFeeds_append, Text.lineFeeds_append, List.replicate_add,
          List.replicate_add]
        exact List.append_nil _
      rw [isText]
      apply (Blanked.span _ _ _).trans
      rw [isBlank, ← List.append_assoc]
      exact ih

/-- Blocks are cut out until the next header repeats a name or opens a block without end. -/
theorem exists_cuts_of_cutBlocks {seen : List Text} {error : Error}
    (refused : cutBlocks kind seen text = .error error) :
    ∃ blocks left before header, Cuts kind text blocks left ∧
      findHeader? (.char '@' :: kind) true left = some (before, header) ∧
      (header.name ∈ blocks.map NamedBlock.name ++ seen ∧
          error = { cause := .duplicateBlock kind header.name
                    line := some (Text.lineFeeds before + 1) } ∨
        Brace.splitAtClosing 1 0 header.rest = none ∧
          let line := Text.lineFeeds before + 1 + Text.lineFeeds header.written
          error = { cause := .missingBrace line, line := some line }) := by
  fun_induction cutBlocks kind seen text with
  | case1 => simp at refused
  | case2 =>
      rename_i text before header found line isSeen
      rw [← Except.error.inj refused]
      exact ⟨[], text, before, header, .nil text, found, .inl ⟨isSeen, rfl⟩⟩
  | case3 =>
      rename_i text before header found line unseen failure fails
      rw [← Except.error.inj refused]
      exact ⟨[], text, before, header, .nil text, found,
        .inr (Brace.readBody_eq_error_iff.mp fails)⟩
  | case4 =>
      rename_i text before header found line unseen body after closed ih
      obtain ⟨blocks, left, middle, next, cuts, foundNext, fails⟩ :=
        ih (map_eq_error_iff.mp refused)
      exact ⟨_, left, middle, next, .cons found (Brace.splitAtClosing_of_readBody closed) cuts,
        foundNext, fails.imp_left (And.imp_left List.perm_middle.mem_iff.mp)⟩

theorem cuts_of_cutBlocks {seen : List Text} (cut : cutBlocks kind seen text = .ok (left, blocks)) :
    Cuts kind text blocks left := by
  fun_induction cutBlocks kind seen text generalizing left blocks with
  | case1 =>
      simp only [Except.ok.injEq, Prod.mk.injEq] at cut
      rw [← cut.1, ← cut.2]
      exact .nil _
  | case2 => simp at cut
  | case3 => simp at cut
  | case4 =>
      rename_i text before header found line unseen body after closed ih
      obtain ⟨⟨remaining, more⟩, cutMore, same⟩ := map_eq_ok.mp cut
      rw [Prod.mk.injEq] at same
      rw [← same.1, ← same.2]
      exact .cons found (Brace.splitAtClosing_of_readBody closed) (ih cutMore)

theorem spells_of_findHeader? {before : Text} {atLineStart : Bool}
    (found : findHeader? (.char '@' :: kind) atLineStart text = some (before, header)) :
    header.Spells (.char '@' :: kind) := by
  induction text generalizing atLineStart before with
  | nil => simp [findHeader?] at found
  | cons c rest ih =>
      by_cases noHeader : atLineStart = true → readHeader? (.char '@' :: kind) (c :: rest) = none
      · rw [findHeader?_cons noHeader] at found
        obtain ⟨⟨later, laterHeader⟩, foundLater, same⟩ := Option.map_eq_some_iff.mp found
        simp only [placeAfter, Prod.mk.injEq] at same
        rw [same.2] at foundLater
        exact ih foundLater
      · obtain ⟨atStart, isHeader⟩ := Classical.not_imp.mp noHeader
        obtain ⟨first, reads⟩ := Option.ne_none_iff_exists'.mp isHeader
        simp only [findHeader?, atStart, if_true, reads, Option.some.injEq, Prod.mk.injEq] at found
        rw [← found.2]
        exact (readHeader?_eq_some_iff.mp reads).1

theorem Cuts.standsOn {before : Text} (blanked : Blanked text start)
    (cuts : Cuts kind start blocks left)
    (found : findHeader? (.char '@' :: kind) true left = some (before, header)) :
    StandsOn text (Text.lineFeeds before + 1) (header.written ++ header.rest) ∧
      StandsOn text (Text.lineFeeds before + 1 + Text.lineFeeds header.written)
        (.char '{' :: header.rest) := by
  have thinned := blanked.thinned.trans cuts.blanked.thinned
  rw [(findHeader?_eq_some found).1, List.append_assoc] at thinned
  obtain ⟨indent, gap, blanks, _, _, _, _, isWritten⟩ := spells_of_findHeader? found
  have ofHeader := thinned.standsOn (by simp [isWritten])
  exact ⟨ofHeader, ofHeader.brace ⟨_, by rw [isWritten, ← List.append_assoc]⟩⟩

theorem Cuts.exists_header (cuts : Cuts kind text blocks left) {block : NamedBlock}
    (isBlock : block ∈ blocks) :
    ∃ earlier middle before header after, Cuts kind text earlier middle ∧
      findHeader? (.char '@' :: kind) true middle = some (before, header) ∧
      Brace.splitAtClosing 1 0 header.rest = some (block.body, after) ∧
      block.name = header.name ∧ block.line = Text.lineFeeds before + 1 := by
  induction cuts with
  | nil => simp at isBlock
  | @cons text before body after left header blocks found closes cuts ih =>
      rcases List.mem_cons.mp isBlock with rfl | isLater
      · exact ⟨[], text, before, header, after, .nil text, found, closes, rfl, rfl⟩
      · obtain ⟨earlier, middle, rest⟩ := ih isLater
        obtain ⟨later, laterHeader, laterAfter, cutsLater, facts⟩ := rest
        exact ⟨_, middle, later, laterHeader, laterAfter, .cons found closes cutsLater, facts⟩

end

end Source

/-! ## Statements of a constant -/

/-- An error in statements has the line of a place among them. -/
theorem Scan.exists_line_of_statementsAfter {scan : Scan} {part text : Text} {error : Error}
    (refused : scan.statementsAfter part text = .error error) :
    ∃ front rest, text = front ++ rest ∧
      error.line = some (scan.line + Text.lineFeeds front) := by
  induction text generalizing scan part with
  | nil =>
      rw [statementsAfter, finish] at refused
      split at refused
      · next failure fails =>
        split at fails
        · simp at fails
        · rw [← Except.error.inj refused, ← Except.error.inj fails]
          exact ⟨[], [], rfl, rfl⟩
      · simp at refused
  | cons c rest ih =>
      rw [statementsAfter] at refused
      split at refused
      · next failure fails =>
        rw [step] at fails
        split at fails
        · simp at fails
        · rw [← Except.error.inj refused, ← Except.error.inj fails]
          exact ⟨[], c :: rest, rfl, rfl⟩
      · next next steps =>
        have later : ∃ part, next.statementsAfter part rest = .error error := by
          split at refused
          · split at refused
            · exact ⟨_, refused⟩
            · exact ⟨_, map_eq_error_iff.mp refused⟩
          · exact ⟨_, refused⟩
        obtain ⟨part, refusedLater⟩ := later
        obtain ⟨front, back, rfl, isLine⟩ := ih refusedLater
        have isNext : next.line = scan.line + Text.lineFeeds [c] := by
          rw [line, line, (groupsAfter_of_step steps).2, Text.lineFeeds_cons]
          omega
        refine ⟨c :: front, back, rfl, ?_⟩
        rw [isLine, isNext, Text.lineFeeds_cons c front, Nat.add_assoc]

theorem exists_line_of_statements {text : Text} {error : Error}
    (refused : statements text = .error error) :
    error.cause.isBracket = true ∧ ∃ front rest, text = front ++ rest ∧
      error.line = some (Text.lineFeeds front + 1) := by
  obtain ⟨front, rest, isText, isLine⟩ := Scan.exists_line_of_statementsAfter refused
  exact ⟨Scan.isBracket_of_statementsAfter refused, front, rest, isText,
    by rw [isLine, Nat.add_comm]; rfl⟩

/-! ## Directives -/

namespace Directive

theorem blanked_choose {isTop : Text → Bool} {before : Text} {lines : List Text}
    (noFeed : ∀ line ∈ lines, Text.lineFeeds (splitLineEnd line).1 = 0) :
    Source.Blanked lines.flatten ((choose isTop before lines).flatMap keep) := by
  induction lines generalizing before with
  | nil => exact .refl
  | cons line rest ih =>
      rw [List.forall_mem_cons] at noFeed
      have ofRest := @ih (before ++ line) noFeed.2
      rw [choose, List.flatten_cons, List.flatMap_cons]
      cases (if isTop before = true then ofLine? line else none) with
      | none => exact ofRest.append_left line
      | some directive =>
          -- The line feed of the line is not part of the span, which therefore leaves nothing.
          have isBlank : Source.blank (splitLineEnd line).1 = [] := by
            rw [Source.blank, noFeed.1, List.replicate_zero]
          have ofLine := Source.Blanked.span [] (splitLineEnd line).1
            ((splitLineEnd line).2 ++ rest.flatten)
          rw [isBlank, List.nil_append, ← List.append_assoc, splitLineEnd_append] at ofLine
          exact ofLine.trans (ofRest.append_left (splitLineEnd line).2)

theorem blanked_of_takeAll {text left : Text} {directives : List Directive}
    (taken : takeAll text = .ok (left, directives)) : Source.Blanked text left := by
  rw [takeAll] at taken
  split at taken
  · simp at taken
  · next remaining found takes =>
    split at taken
    · simp at taken
    · rw [Except.ok.injEq, Prod.mk.injEq] at taken
      have isLeft := (Prod.mk.inj (takeFrom_zero_eq_ok_iff.mp takes).2).1
      rw [← Text.flatten_linesWithBreaks text, ← taken.1, ← isLeft]
      exact blanked_choose fun line => lineFeeds_splitLineEnd

/-- A scope that is refused stands on a line at depth zero. -/
theorem exists_line_of_takeFrom {depth : Int} {number : Nat} {before : Text} {lines : List Text}
    {error : Error} (isDepth : depth = braceBalance before)
    (isNumber : number = Text.lineFeeds before + 1)
    (refused : takeFrom depth number lines = .error error) :
    ∃ front line back directive, lines = front ++ line :: back ∧
      braceBalance (before ++ front.flatten) = 0 ∧ ofLine? line = some directive ∧
      directive.isLegal = false ∧
      error = { cause := .invalidScope directive.value
                line := some (Text.lineFeeds (before ++ front.flatten) + 1) } := by
  induction lines generalizing depth number before with
  | nil => simp [takeFrom] at refused
  | cons line rest ih =>
      have isNext : depth + braceBalance line = braceBalance (before ++ line) := by
        rw [isDepth, braceBalance_append]
      have isNextNumber : number + Text.lineFeeds line = Text.lineFeeds (before ++ line) + 1 := by
        rw [isNumber, Text.lineFeeds_append, Nat.add_right_comm]
      rw [takeFrom] at refused
      split at refused
      · next failure fails =>
        -- Later lines are read first.
        rw [Except.error.injEq] at refused
        rw [refused] at fails
        obtain ⟨front, later, back, directive, rfl, facts⟩ :=
          ih isNext isNextNumber fails
        exact ⟨line :: front, later, back, directive, rfl, by simpa using facts⟩
      · simp only at refused
        split at refused
        · simp at refused
        · next directive spells =>
          split at refused
          · next illegal =>
            split at spells
            · next atTop =>
              rw [← Except.error.inj refused, isNumber]
              refine ⟨[], line, rest, directive, rfl, ?_, spells, ?_, ?_⟩
              · simpa [isDepth] using atTop
              · simpa [isLegal] using illegal
              · simp
            · simp at spells
          · simp at refused

end Directive

namespace Source

/-! ## Classes -/

/-- Classes are read from a text one after the other, with blanks before them. The last text is what
follows the blanks after them. -/
inductive ReadsClasses : Text → List ClassBlock → Text → Prop where
  | nil (text : Text) : ReadsClasses text [] (text.dropWhile isBlank)
  | cons {text body after left : Text} {header : Header} {classes : List ClassBlock}
      (found : readClassHeader? (text.dropWhile isBlank) = some header)
      (closes : Brace.splitAtClosing 1 0 header.rest = some (body, after))
      (reads : ReadsClasses after classes left) :
      ReadsClasses text ({ name := header.name, body } :: classes) left

/-- Classes are read until there is no header, or one that repeats a name or opens a class without
end. -/
theorem exists_reads_of_readClasses {line : Nat} {seen : List Text} {text : Text} {error : Error}
    (refused : readClasses line seen text = .error error) :
    ∃ classes front left, ReadsClasses text classes left ∧ text = front ++ left ∧ left ≠ [] ∧
      (readClassHeader? left = none ∧
          error = { cause := .strayText (Text.trim ((Text.lines left).headD []))
                    line := some (line + Text.lineFeeds front) } ∨
        ∃ header, readClassHeader? left = some header ∧
          (header.name ∈ classes.map ClassBlock.name ++ seen ∧
              error = { cause := .duplicateClass header.name
                        line := some (line + Text.lineFeeds front) } ∨
            Brace.splitAtClosing 1 0 header.rest = none ∧
              let brace := line + Text.lineFeeds front + Text.lineFeeds header.written
              error = { cause := .missingBrace brace, line := some brace })) := by
  fun_induction readClasses line seen text with
  | case1 => simp at refused
  | case2 =>
      rename_i line _ text start isLine nonempty noHeader excerpt
      rw [← Except.error.inj refused]
      exact ⟨[], text.takeWhile isBlank, start, .nil text, List.takeWhile_append_dropWhile.symm,
        by simpa using nonempty, .inl ⟨noHeader, rfl⟩⟩
  | case3 =>
      rename_i line _ text start isLine nonempty header found isSeen
      rw [← Except.error.inj refused]
      exact ⟨[], text.takeWhile isBlank, start, .nil text, List.takeWhile_append_dropWhile.symm,
        by simpa using nonempty, .inr ⟨header, found, .inl ⟨isSeen, rfl⟩⟩⟩
  | case4 =>
      rename_i line _ text start isLine nonempty header found unseen atBrace failure fails
      rw [← Except.error.inj refused]
      exact ⟨[], text.takeWhile isBlank, start, .nil text, List.takeWhile_append_dropWhile.symm,
        by simpa using nonempty, .inr ⟨header, found, .inr (Brace.readBody_eq_error_iff.mp fails)⟩⟩
  | case5 =>
      rename_i line seen text start isLine nonempty header found unseen atBrace body after closed
        ih
      obtain ⟨classes, front, left, reads, isAfter, goesOn, fails⟩ :=
        ih (map_eq_error_iff.mp refused)
      -- The error of the later classes counts its line from the end of this one.
      let consumed := text.takeWhile isBlank ++ header.written ++ body ++ .char '}' :: front
      have isText : text = consumed ++ left :=
        calc text = text.takeWhile isBlank ++ start := List.takeWhile_append_dropWhile.symm
          _ = text.takeWhile isBlank ++ (header.written ++ (body ++ .char '}' :: after)) := by
            rw [(readClassHeader?_eq_some found).1, Brace.readBody_eq_ok closed]
          _ = consumed ++ left := by simp [consumed, isAfter]
      have sameLine : atBrace + Text.lineFeeds body + Text.lineFeeds front =
          line + Text.lineFeeds consumed := by
        have noFeed : Text.lineFeeds (.char '}' :: front) = Text.lineFeeds front := rfl
        simp only [consumed, Text.lineFeeds_append, noFeed, atBrace, isLine]
        omega
      rw [sameLine] at fails
      refine ⟨_, _, left, .cons found (Brace.splitAtClosing_of_readBody closed) reads, isText,
        goesOn, fails.imp_right ?_⟩
      rintro ⟨next, foundNext, failsNext⟩
      exact ⟨next, foundNext, failsNext.imp_left (And.imp_left List.perm_middle.mem_iff.mp)⟩

/-! ## Errors of a source -/

/-- A pass over a source. -/
inductive Pass where
  /-- Cuts out the blocks of a kind. -/
  | cutting (kind : Text)
  /-- Takes out the directives. -/
  | directives
  /-- Reads the classes. -/
  | classes

/-- What is left of a source when a pass begins. -/
inductive Begins (text : Text) : Pass → Text → Prop where
  | constants : Begins text (.cutting "const") text
  | keyframes {start left : Text} {blocks : List NamedBlock}
      (begins : Begins text (.cutting "const") start)
      (cut : cutBlocks "const" [] start = .ok (left, blocks)) :
      Begins text (.cutting "keyframe") left
  | directives {start left : Text} {blocks : List NamedBlock}
      (begins : Begins text (.cutting "keyframe") start)
      (cut : cutBlocks "keyframe" [] start = .ok (left, blocks)) :
      Begins text .directives left
  | classes {start left : Text} {directives : List Directive}
      (begins : Begins text .directives start)
      (taken : Directive.takeAll start = .ok (left, directives)) :
      Begins text .classes left

theorem Begins.blanked {text start : Text} {pass : Pass} (begins : Begins text pass start) :
    Blanked text start := by
  induction begins with
  | constants => exact .refl
  | keyframes _ cut ih =>
      exact ih.trans (cuts_of_cutBlocks cut).blanked
  | directives _ cut ih =>
      exact ih.trans (cuts_of_cutBlocks cut).blanked
  | classes _ taken ih =>
      exact ih.trans (Directive.blanked_of_takeAll taken)

/-- The error reports what is at fault in the source, and the line of the source on which that
stands. -/
inductive Located (text : Text) : Error → Prop where
  /-- Reserved characters, which are reported without a line. -/
  | marker (marked : Reference.hasMarker text = true) : Located text { cause := .reservedInSource }
  /-- The header of a block with the name of an earlier one. -/
  | duplicateBlock {kind start : Text} {blocks : List NamedBlock} {header : Header} {line : Nat}
      (begins : Begins text (.cutting kind) start) (meets : Meets kind start blocks header)
      (isRepeated : header.name ∈ blocks.map NamedBlock.name)
      (stands : StandsOn text line (header.written ++ header.rest)) :
      Located text { cause := .duplicateBlock kind header.name, line := some line }
  /-- The opening brace of a block without end. -/
  | openBlock {kind start : Text} {blocks : List NamedBlock} {header : Header} {line : Nat}
      (begins : Begins text (.cutting kind) start) (meets : Meets kind start blocks header)
      (isOpen : Brace.splitAtClosing 1 0 header.rest = none)
      (stands : StandsOn text line (.char '{' :: header.rest)) :
      Located text { cause := .missingBrace line, line := some line }
  /-- The header of a constant with a query. -/
  | queryInConstant {blocks : List NamedBlock} {header : Header} {body after : Text} {line : Nat}
      (meets : Meets "const" text blocks header)
      (closes : Brace.splitAtClosing 1 0 header.rest = some (body, after))
      (hasQuery : (Query.splitAtQuery? body).isSome = true)
      (stands : StandsOn text line (header.written ++ header.rest)) :
      Located text { cause := .queryInConstant header.name, line := some line }
  /-- The header of a constant with braces. -/
  | blockInConstant {blocks : List NamedBlock} {header : Header} {body after : Text} {line : Nat}
      (meets : Meets "const" text blocks header)
      (closes : Brace.splitAtClosing 1 0 header.rest = some (body, after))
      (hasBrace : CodePoint.char '{' ∈ body ∨ CodePoint.char '}' ∈ body)
      (stands : StandsOn text line (header.written ++ header.rest)) :
      Located text { cause := .blockInConstant header.name, line := some line }
  /-- The directive of a scope with an illegal value. -/
  | invalidScope {start spelled : Text} {front back : List Text} {directive : Directive}
      {line : Nat}
      (begins : Begins text .directives start)
      (isLine : Text.linesWithBreaks start = front ++ spelled :: back)
      (atTop : Directive.braceBalance front.flatten = 0)
      (spells : Directive.ofLine? spelled = some directive) (illegal : directive.isLegal = false)
      (stands : StandsOn text line (spelled ++ back.flatten)) :
      Located text { cause := .invalidScope directive.value, line := some line }
  /-- More than one scope, which is reported without a line. -/
  | repeatedScope {start left : Text} {directives : List Directive}
      (begins : Begins text .directives start)
      (takes : Directive.takeFrom 0 1 (Text.linesWithBreaks start) = .ok (left, directives))
      (areMany : directives.countP Directive.isScope > 1) :
      Located text { cause := .repeatedScope }
  /-- The first character that belongs to no class. -/
  | strayText {start left : Text} {classes : List ClassBlock} {line : Nat}
      (begins : Begins text .classes start) (reads : ReadsClasses start classes left)
      (isStray : readClassHeader? left = none) (stands : StandsOn text line left) :
      Located text
        { cause := .strayText (Text.trim ((Text.lines left).headD [])), line := some line }
  /-- The header of a class with the name of an earlier one. -/
  | duplicateClass {start left : Text} {classes : List ClassBlock} {header : Header} {line : Nat}
      (begins : Begins text .classes start) (reads : ReadsClasses start classes left)
      (found : readClassHeader? left = some header)
      (isRepeated : header.name ∈ classes.map ClassBlock.name)
      (stands : StandsOn text line left) :
      Located text { cause := .duplicateClass header.name, line := some line }
  /-- The opening brace of a class without end. -/
  | openClass {start left : Text} {classes : List ClassBlock} {header : Header} {line : Nat}
      (begins : Begins text .classes start) (reads : ReadsClasses start classes left)
      (found : readClassHeader? left = some header)
      (isOpen : Brace.splitAtClosing 1 0 header.rest = none)
      (stands : StandsOn text line (.char '{' :: header.rest)) :
      Located text { cause := .missingBrace line, line := some line }

/-- The error is about a bracket in the statements of a constant. The constant opens and the place
of the error stands on the given lines of the source, but the error has the line of the place among
the statements. -/
def InConstant (text : Text) (opening line : Nat) (error : Error) : Prop :=
  error.cause.isBracket = true ∧ ∃ blocks header front rest after,
    Meets "const" text blocks header ∧
    Brace.splitAtClosing 1 0 header.rest = some (front ++ rest, after) ∧
    statements (front ++ rest) = .error error ∧
    StandsOn text opening (.char '{' :: header.rest) ∧
    StandsOn text line (rest ++ .char '}' :: after) ∧
    error.line = some (Text.lineFeeds front + 1)

variable {text start : Text} {error : Error}

/-- An error in a constant has the right line only if the constant opens on the first one. -/
theorem InConstant.line_eq {opening line : Nat} (inside : InConstant text opening line error) :
    error.line = some line ↔ opening = 1 := by
  obtain ⟨_, blocks, header, front, rest, after, _, closes, _, opens, stands, isLine⟩ := inside
  have ofOpening := opens.line_add
  have ofPlace := stands.line_add
  have noFeed : Text.lineFeeds (.char '{' :: header.rest) = Text.lineFeeds header.rest := rfl
  rw [noFeed, Brace.splitAtClosing_eq_some closes, List.append_assoc, Text.lineFeeds_append]
    at ofOpening
  rw [isLine, Option.some.injEq]
  omega

theorem located_of_cutBlocks {kind : Text} (begins : Begins text (.cutting kind) start)
    (refused : cutBlocks kind [] start = .error error) : Located text error := by
  obtain ⟨blocks, left, before, header, cuts, found, fails⟩ := exists_cuts_of_cutBlocks refused
  obtain ⟨ofHeader, ofBrace⟩ := cuts.standsOn begins.blanked found
  have meets : Meets kind start blocks header := ⟨left, before, cuts, found⟩
  rcases fails with ⟨isRepeated, rfl⟩ | ⟨isOpen, rfl⟩
  · exact .duplicateBlock begins meets (by simpa using isRepeated) ofHeader
  · exact .openBlock begins meets isOpen ofBrace

theorem located_of_takeAll (begins : Begins text .directives start)
    (refused : Directive.takeAll start = .error error) : Located text error := by
  rw [Directive.takeAll] at refused
  split at refused
  · next failure fails =>
    rw [Except.error.injEq] at refused
    rw [refused] at fails
    obtain ⟨front, spelled, back, directive, isLine, atTop, spells, illegal, rfl⟩ :=
      @Directive.exists_line_of_takeFrom 0 1 [] _ error rfl rfl fails
    have isStart : start = front.flatten ++ (spelled ++ back.flatten) := by
      rw [← Text.flatten_linesWithBreaks start, isLine, List.flatten_append, List.flatten_cons]
    have thinned := begins.blanked.thinned
    rw [isStart] at thinned
    have goesOn : spelled ++ back.flatten ≠ [] :=
      ((Directive.startsWithAt_of_ofLine? (by rw [spells]; rfl)).append _).ne_nil
    exact .invalidScope begins isLine atTop spells illegal (thinned.standsOn goesOn)
  · next left directives takes =>
    split at refused
    · next areMany =>
      rw [← Except.error.inj refused]
      exact .repeatedScope begins takes areMany
    · simp at refused

theorem located_of_readClasses (begins : Begins text .classes start)
    (refused : readClasses 1 [] start = .error error) : Located text error := by
  obtain ⟨classes, front, left, reads, isStart, goesOn, fails⟩ :=
    exists_reads_of_readClasses refused
  have thinned := begins.blanked.thinned
  rw [isStart] at thinned
  have stands := thinned.standsOn goesOn
  rw [Nat.add_comm] at stands
  rcases fails with ⟨isStray, rfl⟩ | ⟨header, found, ⟨isRepeated, rfl⟩ | ⟨isOpen, rfl⟩⟩
  · exact .strayText begins reads isStray stands
  · exact .duplicateClass begins reads found (by simpa using isRepeated) stands
  · obtain ⟨isLeft, ⟨gap, _, opens⟩, _⟩ := readClassHeader?_eq_some found
    rw [isLeft] at stands
    exact .openClass begins reads found isOpen (stands.brace ⟨_, opens⟩)

/-- An error of a constant is one of its header or one in its statements. -/
theorem located_or_inConstant {left : Text} {blocks : List NamedBlock} {block : NamedBlock}
    (cut : cutBlocks "const" [] text = .ok (left, blocks)) (isBlock : block ∈ blocks)
    (refused : constant block = .error error) :
    Located text error ∨ ∃ opening line, InConstant text opening line error := by
  obtain ⟨earlier, middle, before, header, after, cuts, found, closes, isName, isLine⟩ :=
    (cuts_of_cutBlocks cut).exists_header isBlock
  obtain ⟨ofHeader, ofBrace⟩ := cuts.standsOn .refl found
  have meets : Meets "const" text earlier header := ⟨middle, before, cuts, found⟩
  rw [constant, isName, isLine] at refused
  split at refused
  · next hasQuery =>
    rw [← Except.error.inj refused]
    exact .inl (.queryInConstant meets closes hasQuery ofHeader)
  · split at refused
    · next hasBrace =>
      rw [← Except.error.inj refused]
      exact .inl (.blockInConstant meets closes hasBrace ofHeader)
    · have scanned := map_eq_error_iff.mp refused
      obtain ⟨isBracket, front, rest, isBody, isPlace⟩ := exists_line_of_statements scanned
      rw [isBody] at scanned closes
      -- The place is as many lines below the brace as the statements before it have.
      have isInside : .char '{' :: header.rest =
          (.char '{' :: front) ++ (rest ++ .char '}' :: after) := by
        rw [Brace.splitAtClosing_eq_some closes]
        simp
      have ofPlace := (isInside ▸ ofBrace).advance (by simp)
      exact .inr ⟨_, _, isBracket, earlier, header, front, rest, after, meets, closes, scanned,
        ofBrace, ofPlace, isPlace⟩

/-- An error of a source is located in it, or in the statements of a constant. -/
theorem located_of_parse (refused : parse text = .error error) :
    Located text error ∨ ∃ opening line, InConstant text opening line error := by
  rw [parse] at refused
  split at refused
  · next marked =>
    have isError : { cause := .reservedInSource } = error := Except.error.inj refused
    rw [← isError]
    exact .inl (.marker marked)
  · simp only [bind_eq_error_iff, Prod.exists] at refused
    rcases refused with refused | ⟨afterConstants, constants, cutConstants, refused⟩
    · exact .inl (located_of_cutBlocks .constants refused)
    rcases refused with refused | ⟨_, _, refused⟩
    · obtain ⟨block, isBlock, refusedBlock⟩ := exists_of_mapM_eq_error refused
      exact located_or_inConstant cutConstants isBlock refusedBlock
    have keyframes := Begins.constants.keyframes cutConstants
    rcases refused with refused | ⟨afterKeyframes, _, cutKeyframes, refused⟩
    · exact .inl (located_of_cutBlocks keyframes refused)
    have directives := keyframes.directives cutKeyframes
    rcases refused with refused | ⟨afterDirectives, _, taken, refused⟩
    · exact .inl (located_of_takeAll directives refused)
    rcases refused with refused | ⟨_, _, never⟩
    · exact .inl (located_of_readClasses (directives.classes taken) refused)
    · simp [pure, Except.pure] at never

/-- The line of an error is that of the source on which the fault stands, except that an error in
the statements of a constant has the right line only if the constant opens on the first one. What
the passes leave of the source comes from blanking spans, and then every character has the line that
it had. -/
theorem parse_error_located (text : Text) :
    (∀ error, parse text = .error error →
      Located text error ∨
        ∃ opening line, InConstant text opening line error ∧
          (error.line = some line ↔ opening = 1)) ∧
    (∀ pass start, Begins text pass start → Blanked text start) ∧
    ∀ before c after, Blanked text (before ++ c :: after) →
      ∃ front back, text = front ++ c :: back ∧ Text.lineFeeds front = Text.lineFeeds before := by
  refine ⟨?_, fun _ _ => Begins.blanked, ?_⟩
  · intro error refused
    rcases located_of_parse refused with located | ⟨opening, line, inside⟩
    · exact .inl located
    · exact .inr ⟨opening, line, inside, inside.line_eq⟩
  · intro before c after blanked
    obtain ⟨front, back, isText, ofFront, _⟩ := blanked.thinned.exists_cons
    exact ⟨front, back, isText, ofFront.lineFeeds_eq.symm⟩

set_option maxRecDepth 100000 in
/-- A stray line after a constant of two lines and a keyframe. -/
theorem parse_error_located_stray :
    let text : Text := "@const k \x7b w[1px]\n\x7d @keyframe f \x7b\x7d\nstray"
    let error : Error := { cause := .strayText "stray", line := some 3 }
    parse text = .error error ∧ Located text error := by
  intro text error
  have refused : parse text = .error error := by decide +kernel
  refine ⟨refused, ((parse_error_located text).1 error refused).resolve_right ?_⟩
  rintro ⟨opening, line, ⟨isBracket, _⟩, _⟩
  exact absurd isBracket (by decide)

set_option maxRecDepth 100000 in
/-- All of a constant on the third line, with an error in its statements that is reported for the
first one. -/
theorem parse_error_in_constant :
    let text : Text := "\n\n@const k \x7b hover(bg[red] \x7d"
    let error : Error := { cause := .missingCloser '(' "hover(bg[red]", line := some 1 }
    parse text = .error error ∧ error.kind = .unterminatedBlock ∧
      ∀ line rest, StandsOn text line rest → Text.lineFeeds rest = 0 → line = 3 := by
  intro text error
  refine ⟨by decide +kernel, rfl, ?_⟩
  intro line rest stands noFeed
  have isLine := stands.line_add
  have twoFeeds : Text.lineFeeds text = 2 := by decide
  omega

end Source

end TerseStyle

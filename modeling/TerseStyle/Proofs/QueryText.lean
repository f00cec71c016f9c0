import TerseStyle.Proofs.BracketGroup
import TerseStyle.Proofs.Hoisting
import TerseStyle.Proofs.Query

/-!
# Reading back written queries

A body may be written from its own lines and a forest of queries, each line and each brace on a line
of its own. Reading it gives the lines and the forest (`QueryTree.parse_renderBody`), whatever the
depth of the forest is and although values may contain braces inside square brackets.

The search for the brace that closes a body counts braces outside square brackets only. It passes
over a text that opens and closes as many of them as it should (`Brace.Passes`), and everything that
is written inside a query is such a text: lines are, and a query in braces is if its body is. So
each search ends at the brace of its own query, and the body that it finds is the one that was
written.
-/

namespace TerseStyle

/-! ## Trimmed selectors -/

namespace Text

theorem isSeparator_of_mem_splitOnP {isSeparator : CodePoint → Bool} {text part : Text}
    {c : CodePoint} (isPart : part ∈ text.splitOnP isSeparator) (isChar : c ∈ part) :
    isSeparator c = false := by
  induction text generalizing part with
  | nil =>
      rw [List.splitOnP_nil, List.mem_singleton] at isPart
      simp [isPart] at isChar
  | cons first rest ih =>
      rw [List.splitOnP_cons_eq_if_modifyHead] at isPart
      split at isPart
      · rcases List.mem_cons.mp isPart with rfl | isLater
        · simp at isChar
        · exact ih isLater isChar
      · next notSeparator =>
        cases parts : rest.splitOnP isSeparator with
        | nil => exact absurd parts (List.splitOnP_ne_nil _ _)
        | cons head tail =>
            rw [parts, List.modifyHead_cons, List.mem_cons] at isPart
            rw [parts] at ih
            rcases isPart with rfl | isLater
            · rcases List.mem_cons.mp isChar with rfl | inHead
              · simpa using notSeparator
              · exact ih List.mem_cons_self inHead
            · exact ih (List.mem_cons_of_mem _ isLater) isChar

/-- Words that are joined begin and end like words. -/
theorem notBlank_joinWith {separator : Text} {words : List Text}
    (areWords : ∀ word ∈ words, word ≠ [] ∧ ∀ c ∈ word, isBlank c = false) :
    (∀ c ∈ (joinWith separator words).head?, isBlank c = false) ∧
      ∀ c ∈ (joinWith separator words).getLast?, isBlank c = false := by
  induction words using joinWith.induct with
  | case1 => simp [joinWith]
  | case2 word =>
      have notBlank := (areWords word (List.mem_singleton_self word)).2
      exact ⟨fun c isFirst => notBlank c (List.mem_of_mem_head? isFirst),
        fun c isLast => notBlank c (List.mem_of_mem_getLast? isLast)⟩
  | case3 word next rest ih =>
      rw [List.forall_mem_cons] at areWords
      have later := ih areWords.2
      obtain ⟨nonempty, notBlank⟩ := areWords.1
      have laterNonempty : joinWith separator (next :: rest) ≠ [] := by
        have nextNonempty := (areWords.2 next List.mem_cons_self).1
        cases rest <;> simp [joinWith, nextNonempty]
      rw [joinWith, List.append_assoc, List.head?_append_of_ne_nil _ nonempty,
        ← List.append_assoc, List.getLast?_append_of_ne_nil _ laterNonempty]
      exact ⟨fun c isFirst => notBlank c (List.mem_of_mem_head? isFirst), later.2⟩

theorem trim_collapse (text : Text) : trim (collapse text) = collapse text := by
  have ends := @notBlank_joinWith [' '] (words text) <| by
    intro word isWord
    obtain ⟨isPart, nonempty⟩ := List.mem_filter.mp isWord
    exact ⟨by simpa using nonempty, fun c => isSeparator_of_mem_splitOnP isPart⟩
  exact trim_eq_self ends.1 ends.2

/-- Blanks around a text do not matter. -/
theorem trim_between {left right : Text} (text : Text) (areBlank : ∀ c ∈ left, isBlank c = true)
    (areBlankToo : ∀ c ∈ right, isBlank c = true) : trim (left ++ (text ++ right)) = trim text := by
  have atEnd : ∀ front : Text, trimRight (front ++ right) = trimRight front := by
    intro front
    have areBlankReversed : ∀ c ∈ right.reverse, isBlank c = true := by simpa using areBlankToo
    rw [trimRight, List.reverse_append, List.dropWhile_append_of_pos areBlankReversed, trimRight]
  rw [trim, List.dropWhile_append_of_pos areBlank, trim]
  by_cases blank : ∀ c ∈ text, isBlank c = true
  · have allBlank : ∀ c ∈ text ++ right, isBlank c = true :=
      List.forall_mem_append.mpr ⟨blank, areBlankToo⟩
    rw [List.dropWhile_eq_nil_iff.mpr allBlank, List.dropWhile_eq_nil_iff.mpr blank]
  · rw [List.dropWhile_append, if_neg (by simpa using blank), atEnd]

end Text

theorem Selector.trim_of_read_eq {selector : Text} (isRead : Selector.read selector = selector) :
    Text.trim selector = selector := by
  rw [← isRead, Selector.read]
  exact Text.trim_collapse _

/-! ## Searching for a closing brace -/

theorem Text.isBalanced_iff {text : Text} :
    IsBalanced text ↔ text.count (.char ']') = text.count (.char '[') ∧
      ∀ before ∈ text.inits, before.count (.char ']') ≤ before.count (.char '[') := by
  simp only [List.mem_inits]
  constructor
  · rintro ⟨total, prefixes⟩
    exact ⟨total, prefixes⟩
  · rintro ⟨total, prefixes⟩
    exact ⟨total, prefixes⟩

instance (text : Text) : Decidable (Text.IsBalanced text) :=
  decidable_of_iff' _ Text.isBalanced_iff

namespace Brace

/-- The search for the closing brace of a body passes over the text, as long as the body is open. -/
def Passes (text : Text) : Prop :=
  ∀ (depth : Int) (after : Text), 1 ≤ depth →
    splitAtClosing depth 0 (text ++ after) =
      (splitAtClosing depth 0 after).map fun parts => (text ++ parts.1, parts.2)

namespace Passes

theorem empty : Passes [] := by
  intro depth after _
  simp

theorem append {first second : Text} (ofFirst : Passes first) (ofSecond : Passes second) :
    Passes (first ++ second) := by
  intro depth after isOpen
  rw [List.append_assoc, ofFirst depth _ isOpen, ofSecond depth after isOpen, Option.map_map]
  simp [Function.comp_def, List.append_assoc]

theorem of_plain {text : Text} (plain : ∀ c ∈ text, c ∉ ("\x7b\x7d[]" : Text)) : Passes text := by
  induction text with
  | nil => exact empty
  | cons c rest ih =>
      rw [List.forall_mem_cons] at plain
      obtain ⟨notOpen, notClose, notOpenBracket, notCloseBracket⟩ :
          c ≠ '{' ∧ c ≠ '}' ∧ c ≠ '[' ∧ c ≠ ']' := by
        simpa [Text.ofString, Text.ofChars] using plain.1
      intro depth after isOpen
      have sameDepth : depthChange 0 c = 0 := by
        simp [depthChange, Directive.braceBalance, notOpen, notClose]
      have sameBrackets : nextBrackets 0 c = 0 := by
        simp [nextBrackets, notOpenBracket, notCloseBracket]
      rw [List.cons_append, splitAtClosing_cons, if_neg fun closes => notClose closes.1, sameDepth,
        sameBrackets, Int.add_zero, ih plain.2 depth after isOpen, Option.map_map]
      simp [Function.comp_def]

theorem enclosed {body : Text} (ofBody : Passes body) :
    Passes (.char '{' :: (body ++ [CodePoint.char '}'])) := by
  intro depth after isOpen
  have goesDeeper : depth + depthChange 0 '{' = depth + 1 := by
    rw [show depthChange 0 '{' = 1 by decide]
  have comesBack : depth + 1 + depthChange 0 '}' = depth := by
    rw [show depthChange 0 '}' = -1 by decide]
    omega
  have sameBrackets : nextBrackets 0 '{' = 0 ∧ nextBrackets 0 '}' = 0 := by decide
  rw [List.cons_append, splitAtClosing_cons, if_neg (by simp), goesDeeper, sameBrackets.1,
    List.append_assoc, ofBody (depth + 1) _ (by omega), List.singleton_append, splitAtClosing_cons,
    if_neg (by omega), comesBack, sameBrackets.2, Option.map_map, Option.map_map]
  simp [Function.comp_def]

theorem splitAtClosing_eq {body : Text} (ofBody : Passes body) (after : Text) :
    splitAtClosing 1 0 (body ++ CodePoint.char '}' :: after) = some (body, after) := by
  rw [ofBody 1 _ (by omega), splitAtClosing_cons, if_pos (by simp)]
  simp

end Passes

/-- Every brace of the text is inside square brackets. -/
def AreInside (text : Text) : Prop :=
  ∀ before c, before ++ [c] <+: text → c = .char '{' ∨ c = .char '}' →
    before.count (.char ']') < before.count (.char '[')

theorem areInside_iff {text : Text} :
    AreInside text ↔ ∀ before ∈ text.inits, ∀ c ∈ before.getLast?,
      c = .char '{' ∨ c = .char '}' →
      before.dropLast.count (.char ']') < before.dropLast.count (.char '[') := by
  constructor
  · intro inside before isPrefix c isLast
    apply inside before.dropLast c
    rwa [List.dropLast_append_getLast? c isLast, ← List.mem_inits]
  · intro inside before c isPrefix
    simpa using inside (before ++ [c]) ((List.mem_inits _ _).mpr isPrefix) c (by simp)

instance (text : Text) : Decidable (AreInside text) :=
  decidable_of_iff' _ areInside_iff

theorem depthChange_eq_zero {brackets : Nat} {c : CodePoint}
    (inside : c = '{' ∨ c = '}' → 0 < brackets) : depthChange brackets c = 0 := by
  rw [depthChange]
  split
  · next noBracket =>
    have notBrace : ¬(c = '{' ∨ c = '}') := by
      intro isBrace
      have isOpen := inside isBrace
      omega
    rw [not_or] at notBrace
    simp [Directive.braceBalance, notBrace]
  · rfl

/-- The brackets that a text leaves open, if it never closes more of them than it opens. -/
theorem nextBrackets_count {before : Text} {c : CodePoint}
    (notMoreBefore : before.count (.char ']') ≤ before.count (.char '['))
    (notMore : (before ++ [c]).count (.char ']') ≤ (before ++ [c]).count (.char '[')) :
    nextBrackets (before.count (.char '[') - before.count (.char ']')) c =
      (before ++ [c]).count (.char '[') - (before ++ [c]).count (.char ']') := by
  simp only [List.count_append, List.count_singleton, beq_iff_eq] at notMore ⊢
  have different : CodePoint.char ']' ≠ '[' := by decide
  rw [nextBrackets]
  by_cases opens : c = '['
  · simp only [opens, different.symm, if_true, if_false] at notMore ⊢
    omega
  · by_cases closes : c = ']'
    · simp only [closes, different, if_true, if_false] at notMore ⊢
      omega
    · simp only [opens, closes, if_false]
      omega

/-- The rest of a text in which braces are inside square brackets is passed over, with as many
brackets open as the part before it leaves open. -/
theorem splitAtClosing_of_areInside {text before rest : Text} (isText : text = before ++ rest)
    (balanced : Text.IsBalanced text) (inside : AreInside text) (depth : Int) (after : Text) :
    splitAtClosing depth (before.count (.char '[') - before.count (.char ']')) (rest ++ after) =
      (splitAtClosing depth 0 after).map fun parts => (rest ++ parts.1, parts.2) := by
  induction rest generalizing before with
  | nil =>
      rw [List.append_nil] at isText
      have closed := balanced.total
      rw [isText] at closed
      rw [closed, Nat.sub_self]
      simp
  | cons c rest ih =>
      have isNext : text = (before ++ [c]) ++ rest := by rw [isText, List.append_cons]
      have notMoreBefore := balanced.prefixes before ⟨c :: rest, isText.symm⟩
      have notMore := balanced.prefixes (before ++ [c]) ⟨rest, isNext.symm⟩
      have isOpen : c = '{' ∨ c = '}' →
          0 < before.count (.char '[') - before.count (.char ']') := by
        intro isBrace
        have opened := inside before c ⟨rest, isNext.symm⟩ isBrace
        omega
      have notClosing : ¬(c = '}' ∧ before.count (.char '[') - before.count (.char ']') = 0 ∧
          depth = 1) := by
        rintro ⟨isBrace, noBracket, _⟩
        exact absurd noBracket (isOpen (Or.inr isBrace)).ne'
      rw [List.cons_append, splitAtClosing_cons, if_neg notClosing, depthChange_eq_zero isOpen,
        Int.add_zero, nextBrackets_count notMoreBefore notMore, ih isNext,
        Option.map_map]
      simp [Function.comp_def]

theorem Passes.of_areInside {text : Text} (balanced : Text.IsBalanced text)
    (inside : AreInside text) : Passes text := by
  intro depth after _
  exact @splitAtClosing_of_areInside text [] text rfl balanced inside depth after

end Brace

namespace QueryTree

theorem every_cons_iff {Good : QueryTree → Prop} {tree : QueryTree} {rest : List QueryTree} :
    Every Good (tree :: rest) ↔ Good tree ∧ Every Good tree.children ∧ Every Good rest := by
  cases tree
  exact every_cons

end QueryTree

/-! ## Writing queries -/

namespace Query

/-- A line that a body can be written with. -/
@[mk_iff]
structure IsWritableLine (line : Text) : Prop where
  notBlank : ∃ c ∈ line, isBlank c = false
  isTrimmed : Text.trim line = line
  noBreak : ∀ c ∈ line, isLineBreak c = false
  noQuery : ¬("@query" : Text) <:+: line
  isBalanced : Text.IsBalanced line
  bracesInside : Brace.AreInside line

instance (line : Text) : Decidable (IsWritableLine line) :=
  decidable_of_iff' _ (isWritableLine_iff line)

theorem IsWritableLine.isOwnLine {line : Text} (isWritable : IsWritableLine line) :
    IsOwnLine line where
  isTrimmed := isWritable.isTrimmed
  nonempty := by
    obtain ⟨c, isChar, _⟩ := isWritable.notBlank
    exact List.ne_nil_of_mem isChar
  noBreak := isWritable.noBreak
  noQuery := by
    rw [splitAtQuery?_eq_none_iff]
    intro front back isLine
    refine absurd ⟨front, back, ?_⟩ isWritable.noQuery
    rw [isLine, List.append_assoc]

theorem ownLines_unlines_of_writable {lines : List Text}
    (areWritable : ∀ line ∈ lines, IsWritableLine line) :
    ownLines (unlines lines) = lines ∧ splitAtQuery? (unlines lines) = none := by
  have areLines : ∀ line ∈ lines, IsOwnLine line :=
    fun line isLine => (areWritable line isLine).isOwnLine
  refine ⟨ownLines_unlines areLines, ?_⟩
  simpa using @noQuery_unlines [] _ areLines rfl

theorem passes_unlines {lines : List Text} (areWritable : ∀ line ∈ lines, IsWritableLine line) :
    Brace.Passes (unlines lines) := by
  induction lines with
  | nil => exact .empty
  | cons line lines ih =>
      rw [List.forall_mem_cons] at areWritable
      have ofLine := Brace.Passes.of_areInside areWritable.1.isBalanced areWritable.1.bracesInside
      exact (ofLine.append (.of_plain (by decide))).append (ih areWritable.2)

end Query

namespace QueryTree

mutual

/-- A query as it is written, with each line and each brace on a line of its own. -/
def render : QueryTree → Text
  | node selector lines _ children =>
    ("@query " : Text) ++ selector ++ " \x7b\n" ++
      (Query.unlines lines ++ renderForest children) ++ "\x7d\n"

/-- Queries as they are written. -/
def renderForest : List QueryTree → Text
  | [] => []
  | tree :: rest => render tree ++ renderForest rest

end

/-- A body as it is written: its lines and then its queries. -/
def renderBody (lines : List Text) (forest : List QueryTree) : Text :=
  Query.unlines lines ++ renderForest forest

/-- A query that can be written: nothing is compiled yet, and no part of it is read as something
else. -/
@[mk_iff]
structure IsWritable (query : QueryTree) : Prop where
  uncompiled : query.style = ∅
  areLines : ∀ line ∈ query.lines, Query.IsWritableLine line
  notBlank : ∃ c ∈ query.selector, isBlank c = false
  noBrace : ∀ c ∈ query.selector, c ∉ ("\x7b\x7d[]" : Text)
  isRead : Selector.read query.selector = query.selector

instance (query : QueryTree) : Decidable query.IsWritable :=
  decidable_of_iff' _ (isWritable_iff query)

/-- What stands between the word and the brace of a written query, and between its braces. -/
def written (query : QueryTree) : Text × Text :=
  (.char ' ' :: (query.selector ++ [CodePoint.char ' ']),
    .char '\n' :: renderBody query.lines query.children)

theorem render_eq (query : QueryTree) :
    query.render = Query.write query.written ++ [CodePoint.char '\n'] := by
  cases query with
  | node selector lines style children =>
      simp only [render, Query.write, written, renderBody, QueryTree.selector, QueryTree.lines,
        QueryTree.children, Text.ofString, Text.ofChars]
      simp

variable {query : QueryTree} {forest : List QueryTree}

theorem IsWritable.noBrace_written (isWritable : query.IsWritable) :
    ∀ c ∈ query.written.1, c ∉ ("\x7b\x7d[]" : Text) := by
  have notSpace : CodePoint.char ' ' ∉ ("\x7b\x7d[]" : Text) := by decide
  intro c isChar
  rcases List.mem_cons.mp isChar with rfl | inRest
  · exact notSpace
  · rcases List.mem_append.mp inRest with inSelector | isSpace
    · exact isWritable.noBrace c inSelector
    · rwa [List.mem_singleton.mp isSpace]

theorem IsWritable.trim_written (isWritable : query.IsWritable) :
    Text.trim query.written.1 = query.selector := by
  have padded := @Text.trim_between [.char ' '] [.char ' '] query.selector (by decide) (by decide)
  exact padded.trans (Selector.trim_of_read_eq isWritable.isRead)

theorem IsWritable.passes_written (isWritable : query.IsWritable)
    (ofChildren : Brace.Passes (renderForest query.children)) : Brace.Passes query.written.2 := by
  have ofBreak : Brace.Passes [.char '\n'] := .of_plain (by decide)
  exact ofBreak.append ((Query.passes_unlines isWritable.areLines).append ofChildren)

theorem passes_renderForest (forest : List QueryTree) (areWritable : Every IsWritable forest) :
    Brace.Passes (renderForest forest) := by
  induction forest using forest_induction with
  | nil => exact .empty
  | cons selector lines style children rest inner onwards =>
      obtain ⟨isWritable, ofChildren, ofRest⟩ := every_cons.mp areWritable
      have ofBody := isWritable.passes_written (inner ofChildren)
      rw [renderForest]
      apply Brace.Passes.append _ (onwards ofRest)
      rw [render_eq, Query.write, List.append_assoc, List.append_assoc]
      exact .append (.of_plain (by decide)) (.append (.of_plain isWritable.noBrace_written)
        (ofBody.enclosed.append (.of_plain (by decide))))

/-! ## Reading them back -/

theorem IsWritable.isWritten (isWritable : query.IsWritable)
    (ofChildren : Every IsWritable query.children) : Query.IsWritten query.written where
  noBrace isChar := isWritable.noBrace_written _ isChar (by decide)
  hasSelector := by
    obtain ⟨c, isChar, _⟩ := isWritable.notBlank
    rw [isWritable.trim_written, List.isEmpty_eq_false_iff]
    exact List.ne_nil_of_mem isChar
  notWord := by
    change isWordChar ' ' = false
    decide
  isClosed := by
    have ofBody := isWritable.passes_written (passes_renderForest _ ofChildren)
    rw [Query.isClosed, ofBody.splitAtClosing_eq, beq_self_eq_true]

/-- Cutting a body that is written with its queries at the end. -/
theorem cut_renderForest {front : Text} (noQuery : Query.splitAtQuery? front = none)
    (areWritable : Every IsWritable forest) :
    ∃ chunks, Query.cut (front ++ renderForest forest) = some (chunks, forest.map written) ∧
      chunks.flatMap Query.ownLines = Query.ownLines front := by
  induction forest generalizing front with
  | nil =>
      refine ⟨[front], ?_, by simp⟩
      rw [renderForest, List.append_nil, Query.cut_of_none noQuery, List.map_nil]
  | cons tree rest ih =>
      obtain ⟨isWritable, ofChildren, ofRest⟩ := every_cons_iff.mp areWritable
      have isWritten := isWritable.isWritten ofChildren
      -- The line feed after the query is all that stands before the next one.
      obtain ⟨chunks, isCut, sameLines⟩ := @ih [.char '\n'] (by decide) ofRest
      refine ⟨front :: chunks, ?_, ?_⟩
      · have isText : front ++ renderForest (tree :: rest) = front ++ (("@query" : Text) ++
            (tree.written.1 ++ CodePoint.char '{' :: (tree.written.2 ++ CodePoint.char '}' ::
              ([CodePoint.char '\n'] ++ renderForest rest)))) := by
          rw [renderForest, render_eq, Query.write]
          simp
        have notWord : ∀ more : Text, (tree.written.1 ++ more).head?.any isWordChar = false :=
          fun _ => isWritten.notWord
        rw [isText, Query.cut_of_some (Query.splitAtQuery?_of_noQuery noQuery (notWord _))
          (Text.splitAtChar?_append isWritten.noBrace _) isWritten.hasSelector
          (Query.splitAtClosing_of_isClosed isWritten.isClosed _), isCut]
        rfl
      · have noLine : Query.ownLines [.char '\n'] = [] := by decide
        rw [List.flatMap_cons, sameLines, noLine, List.append_nil]

theorem foldrM_readQuery_written (areWritable : Every IsWritable forest)
    (areRead : ∀ query ∈ forest, parse query.written.2 = .ok (query.lines, query.children)) :
    ((forest.map written).map fun query =>
      (Selector.read (Text.trim query.1), query.2)).foldrM readQuery [] = .ok forest := by
  induction forest with
  | nil => rfl
  | cons tree rest ih =>
      obtain ⟨isWritable, _, ofRest⟩ := every_cons_iff.mp areWritable
      rw [List.forall_mem_cons] at areRead
      rw [List.map_cons, List.map_cons, List.foldrM_cons, ih ofRest areRead.2,
        ok_bind, readQuery, areRead.1, isWritable.trim_written, isWritable.isRead]
      cases tree
      -- A query is read with the empty style, which is the one that it has.
      rw [← isWritable.uncompiled]
      rfl

/-- A body that is written with its queries at the end is read to the lines in front of them and to
the queries, if the bodies of these are read as they were written. -/
theorem parse_append_renderForest {front : Text} (noQuery : Query.splitAtQuery? front = none)
    (areWritable : Every IsWritable forest)
    (areRead : ∀ query ∈ forest, parse query.written.2 = .ok (query.lines, query.children)) :
    parse (front ++ renderForest forest) = .ok (Query.ownLines front, forest) := by
  obtain ⟨chunks, isCut, sameLines⟩ := cut_renderForest noQuery areWritable
  rw [parse_of_level (Query.level_of_cut isCut 1), Query.Level.ofCut, sameLines,
    foldrM_readQuery_written areWritable areRead]
  rfl

theorem parse_written_of_mem (forest : List QueryTree) (areWritable : Every IsWritable forest) :
    ∀ query ∈ forest, parse query.written.2 = .ok (query.lines, query.children) := by
  induction forest using forest_induction with
  | nil => simp
  | cons selector lines style children rest inner onwards =>
      obtain ⟨isWritable, ofChildren, ofRest⟩ := every_cons.mp areWritable
      obtain ⟨ofLines, noQuery⟩ := @Query.ownLines_unlines_of_writable lines isWritable.areLines
      -- The body begins with the line feed behind its brace, which is no line of its own.
      have noneAfterBreak : Query.splitAtQuery? (.char '\n' :: Query.unlines lines) = none :=
        @Query.splitAtQuery?_append [] _ '\n' (by decide) rfl noQuery
      have sameLines : Query.ownLines (.char '\n' :: Query.unlines lines) = lines :=
        (Query.ownLines_append (Text.endsLine_lineFeed [] _)).trans ofLines
      have isRead := parse_append_renderForest noneAfterBreak ofChildren (inner ofChildren)
      rw [sameLines] at isRead
      exact List.forall_mem_cons.mpr ⟨isRead, onwards ofRest⟩

/-- A body that was written from lines and queries is read to these lines and queries. -/
theorem parse_renderBody {lines : List Text} {forest : List QueryTree}
    (areLines : ∀ line ∈ lines, Query.IsWritableLine line) (areWritable : Every IsWritable forest) :
    parse (renderBody lines forest) = .ok (lines, forest) := by
  obtain ⟨sameLines, noQuery⟩ := Query.ownLines_unlines_of_writable areLines
  have isRead := parse_append_renderForest noQuery areWritable
    (parse_written_of_mem forest areWritable)
  rwa [sameLines] at isRead

/-- Braces inside brackets, a query without lines, and a query inside a query that another one
follows. -/
theorem parse_renderBody_nested :
    let lines : List Text := ["@use k", "ct[[\x7d]\x7b]"]
    let forest : List QueryTree :=
      [node "&:hover > a, .x" ["ct[\x7d]", "before(ct[\x7b] c[red])"] ∅ [node ".y" [] ∅ []],
        node "& + &" ["bg[red]"] ∅ []]
    renderBody lines forest =
        ("@use k\nct[[\x7d]\x7b]\n@query &:hover > a, .x \x7b\nct[\x7d]\n" : Text) ++
          "before(ct[\x7b] c[red])\n@query .y \x7b\n\x7d\n\x7d\n" ++
          "@query & + & \x7b\nbg[red]\n\x7d\n" ∧
      ((∀ line ∈ lines, Query.IsWritableLine line) ∧ Every IsWritable forest) ∧
      parse (renderBody lines forest) = .ok (lines, forest) := by
  intro lines forest
  have areLines : ∀ line ∈ lines, Query.IsWritableLine line := by decide +kernel
  have areWritable : Every IsWritable forest := by
    refine every_cons.mpr ⟨?_, every_cons.mpr ⟨?_, every_nil _, every_nil _⟩,
      every_cons.mpr ⟨?_, every_nil _, every_nil _⟩⟩
    all_goals decide +kernel
  exact ⟨by decide +kernel, ⟨areLines, areWritable⟩, parse_renderBody areLines areWritable⟩

end QueryTree

end TerseStyle

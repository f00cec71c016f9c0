import TerseStyle.Proofs.Hoisting

/-!
# Bodies read line by line

The statements of a class or a query are read from the lines of its body, trimmed and joined anew,
those of a constant or a keyframe from the body itself. Both ways give the same statements up to
runs of spaces, and fail alike (`statements_ownLines`): what is told of a body does not change if a
blank is exchanged for another or dropped next to one, since a scan goes on alike after any blanks
(`Scan.Similar`).
-/

namespace TerseStyle

namespace Text

/-- A text that is kept with its latest character first, with one more character; a space is not
added to a space. -/
def addSpaced (read : Text) (c : CodePoint) : Text :=
  if c = .char ' ' ∧ read.head? = some (.char ' ') then read else c :: read

/-- The text with a single space for every run of spaces. -/
def singleSpaced (text : Text) : Text :=
  (text.foldl addSpaced []).reverse

variable {text other : Text}

theorem singleSpaced_concat (text : Text) (c : CodePoint) :
    singleSpaced (text ++ [c]) = (addSpaced (singleSpaced text).reverse c).reverse := by
  simp [singleSpaced]

theorem singleSpaced_congr (same : singleSpaced text = singleSpaced other) (c : CodePoint) :
    singleSpaced (text ++ [c]) = singleSpaced (other ++ [c]) := by
  rw [singleSpaced_concat, same, singleSpaced_concat]

theorem singleSpaced_space_space (text : Text) :
    singleSpaced (text ++ [CodePoint.char ' '] ++ [CodePoint.char ' ']) =
      singleSpaced (text ++ [CodePoint.char ' ']) := by
  rw [singleSpaced_concat, singleSpaced_concat, List.reverse_reverse]
  unfold addSpaced
  split <;> simp_all

theorem singleSpaced_eq_nil : singleSpaced text = [] ↔ text = [] := by
  refine ⟨fun isNil => ?_, fun isNil => by rw [isNil]; rfl⟩
  rcases List.eq_nil_or_concat' text with rfl | ⟨front, c, rfl⟩
  · rfl
  · rw [singleSpaced_concat, List.reverse_eq_nil_iff, addSpaced] at isNil
    split at isNil <;> simp_all

theorem lines_of_notBreak {c : CodePoint} {rest : Text} (notBreak : isLineBreak c = false) :
    lines (c :: rest) = (c :: (lines rest).headD []) :: (lines rest).tail := by
  rw [lines, linesWithBreaks_of_notBreak notBreak, lines]
  cases linesWithBreaks rest <;> simp [notBreak]

end Text

open Text (singleSpaced)

/-- What is told of the statements of a body: the kind of the failure, or the statements with single
spaces. -/
def told (outcome : Except Error (List Text)) : Except Error.Kind (List Text) :=
  (outcome.map (List.map singleSpaced)).mapError Error.kind

namespace Scan

/-- What is told of the rest of a body, of which the first statement is already read in part. -/
def tells (text : Text) (scan : Scan) (part : Text) : Except Error.Kind (List Text) :=
  told (scan.statementsAfter part text)

variable {scan other : Scan} {c d : CodePoint} {text rest part partOther gap : Text}

theorem tells_nil (scan : Scan) (part : Text) : tells [] scan part =
    if scan.groups = [] then .ok ((ended part).map singleSpaced)
    else .error Error.Kind.unterminatedBlock := by
  unfold tells statementsAfter finish
  cases scan.groups <;> rfl

theorem tells_cons (c : CodePoint) (rest : Text) (scan : Scan) (part : Text) :
    tells (c :: rest) scan part =
      ((scan.groupsAfter c).mapError Cause.kind).bind fun groups =>
        if scan.groups = [] ∧ isBlank c = true then
          (tells rest { seen := c :: scan.seen, groups } []).map
            ((ended part).map singleSpaced ++ ·)
        else tells rest { seen := c :: scan.seen, groups }
          ((if isBlank c then .char ' ' else c) :: part) := by
  rw [tells, statementsAfter_cons, step]
  cases scan.groupsAfter c with
  | error cause => rfl
  | ok groups =>
      simp only [Except.bind, Except.mapError]
      split
      · rw [tells]
        cases statementsAfter _ [] rest with
        | error error => rfl
        | ok later => simp [told, Except.map, Except.mapError]
      · rfl

theorem map_ended (same : singleSpaced part.reverse = singleSpaced partOther.reverse) :
    (ended part).map singleSpaced = (ended partOther).map singleSpaced := by
  have sameEnd : part = [] ↔ partOther = [] := by
    rw [← List.reverse_eq_nil_iff, ← Text.singleSpaced_eq_nil, same, Text.singleSpaced_eq_nil,
      List.reverse_eq_nil_iff]
  by_cases noPart : part = []
  · rw [noPart, sameEnd.mp noPart]
  · simp [ended, noPart, mt sameEnd.mpr noPart, same]

/-- Similar scans tell the same, up to runs of spaces in what they have read. -/
theorem Similar.tells (similar : Similar scan other)
    (same : singleSpaced part.reverse = singleSpaced partOther.reverse) :
    tells text scan part = tells text other partOther := by
  induction text generalizing scan other part partOther with
  | nil => rw [tells_nil, tells_nil, similar.groups, map_ended same]
  | cons c rest ih =>
      rw [tells_cons, tells_cons, similar.kind_groupsAfter, similar.groups, map_ended same]
      congr 1
      funext groups
      have onwards : Similar ⟨c :: scan.seen, groups⟩ ⟨c :: other.seen, groups⟩ := by
        refine ⟨rfl, ?_⟩
        have sameName := similar.nameBefore
        unfold Scan.nameBefore at sameName ⊢
        rw [List.reverse_inj] at sameName
        simp only [List.takeWhile_cons, sameName]
      rw [ih onwards rfl, ih onwards]
      rw [List.reverse_cons, List.reverse_cons]
      exact Text.singleSpaced_congr same _

/-! ## Blanks -/

theorem tells_blank (blank : isBlank c = true) (rest : Text) (scan : Scan) (part : Text) :
    tells (c :: rest) scan part =
      if scan.groups = [] then
        (tells rest { scan with seen := c :: scan.seen } []).map
          ((ended part).map singleSpaced ++ ·)
      else tells rest { scan with seen := c :: scan.seen } (.char ' ' :: part) := by
  have keeps : scan.groupsAfter c = .ok scan.groups := by
    have steps := step_of_isBlank blank scan
    rw [step] at steps
    cases after : scan.groupsAfter c <;> simp_all
  rw [tells_cons, keeps]
  simp [Except.mapError, Except.bind, blank]

theorem similar_blank (blank : isBlank c = true) (blankToo : isBlank d = true)
    (seen seenToo : Text) (groups : List Group) :
    Similar ⟨c :: seen, groups⟩ ⟨d :: seenToo, groups⟩ := by
  refine ⟨rfl, ?_⟩
  simp [nameBefore, isNameChar_of_isBlank blank, isNameChar_of_isBlank blankToo]

/-- A blank is as good as another. -/
theorem tells_exchange (blank : isBlank c = true) (blankToo : isBlank d = true) (rest : Text) :
    tells (c :: rest) = tells (d :: rest) := by
  funext scan part
  rw [tells_blank blank, tells_blank blankToo, (similar_blank blank blankToo _ _ _).tells rfl,
    (similar_blank blank blankToo _ _ _).tells rfl]

/-- A blank in front of another can be dropped. -/
theorem tells_drop (blank : isBlank c = true) (blankToo : isBlank d = true) (rest : Text) :
    tells (c :: d :: rest) = tells (d :: rest) := by
  funext scan part
  rw [tells_blank blank, tells_blank blankToo, tells_blank blankToo, tells_blank blankToo]
  have similar := similar_blank blankToo blankToo (c :: scan.seen) scan.seen scan.groups
  split
  · rw [similar.tells rfl]
    cases tells rest ⟨d :: scan.seen, scan.groups⟩ [] <;> simp [Except.map, ended]
  · apply similar.tells
    simpa using Text.singleSpaced_space_space part.reverse

theorem tells_blank_nil (blank : isBlank c = true) : tells [c] = tells [] := by
  funext scan part
  rw [tells_blank blank]
  simp only [tells_nil]
  split
  · simp [Except.map, ended]
  · rfl

theorem tells_append (front : Text) (same : tells text = tells rest) :
    tells (front ++ text) = tells (front ++ rest) := by
  induction front with
  | nil => exact same
  | cons c front ih =>
      funext scan part
      simp only [List.cons_append, tells_cons, ih]

theorem tells_blanks (areBlank : ∀ c ∈ gap, isBlank c = true) (blank : isBlank c = true)
    (rest : Text) : tells (c :: (gap ++ rest)) = tells (c :: rest) := by
  induction gap generalizing c with
  | nil => rfl
  | cons next gap ih =>
      rw [List.forall_mem_cons] at areBlank
      calc tells (c :: next :: (gap ++ rest))
        _ = tells (next :: (gap ++ rest)) := tells_drop blank areBlank.1 _
        _ = tells (next :: rest) := ih areBlank.2 areBlank.1
        _ = tells (c :: rest) := tells_exchange areBlank.1 blank rest

/-- At the start of a body a blank can be dropped. -/
theorem told_blank (blank : isBlank c = true) (rest : Text) :
    told (statements (c :: rest)) = told (statements rest) := by
  have similar := similar_of_break blank rfl (step_of_isBlank blank {})
  refine (tells_blank blank rest {} []).trans ?_
  rw [if_pos rfl, ← similar.tells rfl]
  change _ = tells rest {} []
  cases tells rest {} [] <;> rfl

/-! ## Lines -/

open Query (unlines)

theorem tells_lines (text : Text) : tells text = tells (unlines (Text.lines text)) := by
  have isFeed : isBlank (.char '\n') = true := by decide
  have ofBreak : ∀ {rest : Text}, tells rest = tells (unlines (Text.lines rest)) →
      tells (.char '\n' :: rest) = tells (unlines ([] :: Text.lines rest)) :=
    fun ih => tells_append [.char '\n'] ih
  have ofNotBreak : ∀ {c : CodePoint} {rest : Text}, isLineBreak c ≠ true →
      tells rest = tells (unlines (Text.lines rest)) →
      tells (c :: rest) = tells (unlines (Text.lines (c :: rest))) := by
    intro c rest notBreak ih
    rw [Text.lines_of_notBreak (Bool.eq_false_iff.mpr notBreak)]
    cases isRest : Text.lines rest with
    | nil =>
        -- The last line gets a line feed that the text does not have.
        rw [isRest] at ih
        exact tells_append [c] (ih.trans (tells_blank_nil isFeed).symm)
    | cons line more =>
        rw [isRest] at ih
        exact tells_append [c] ih
  induction text using Text.linesWithBreaks.induct with
  | case1 => rfl
  | case2 rest ih => exact (tells_drop (by decide) isFeed rest).trans (ofBreak ih)
  | case3 c rest notPair isBreak ih =>
      have isLines : Text.lines (c :: rest) = [] :: Text.lines rest := by
        rw [Text.lines, Text.linesWithBreaks, if_pos isBreak]
        · simp [isBreak, Text.lines]
        · exact notPair
      rw [isLines]
      exact (tells_exchange (Source.isBlank_of_isLineBreak isBreak) isFeed rest).trans (ofBreak ih)
  | case4 c rest notPair notBreak _ ih => exact ofNotBreak notBreak ih
  | case5 c rest notPair notBreak line more _ ih => exact ofNotBreak notBreak ih

/-- Blanks around lines can be dropped, and so can lines of blanks only. -/
theorem tells_trim (blank : isBlank c = true) (lines : List Text) :
    tells (c :: unlines lines) =
      tells (c :: unlines ((lines.map Text.trim).filter fun line => !line.isEmpty)) := by
  have isFeed : isBlank (.char '\n') = true := by decide
  induction lines generalizing c with
  | nil => rfl
  | cons line lines ih =>
      obtain ⟨left, right, isLine, areBlankLeft, areBlank⟩ := Text.trim_append line
      have atEnd : ∀ rest : Text,
          tells (right ++ .char '\n' :: rest) = tells (.char '\n' :: rest) := by
        intro rest
        cases right with
        | nil => rfl
        | cons first right =>
            rw [List.forall_mem_cons] at areBlank
            exact (tells_blanks areBlank.2 areBlank.1 _).trans (tells_drop areBlank.1 isFeed rest)
      have isUnlines : unlines (line :: lines) =
          left ++ (Text.trim line ++ (right ++ .char '\n' :: unlines lines)) := by
        rw [unlines, List.flatMap_cons]
        nth_rewrite 1 [isLine]
        simp [unlines]
      have step : tells (c :: unlines (line :: lines)) =
          tells (c :: (Text.trim line ++ .char '\n' ::
            unlines ((lines.map Text.trim).filter fun line => !line.isEmpty))) := by
        rw [isUnlines, tells_blanks areBlankLeft blank]
        exact tells_append (c :: Text.trim line) ((atEnd _).trans (ih isFeed))
      rw [step, List.map_cons, List.filter_cons]
      split
      · simp [unlines]
      · next isEmpty =>
        rw [Bool.not_eq_true, Bool.not_eq_false', List.isEmpty_iff] at isEmpty
        rw [isEmpty]
        -- Nothing is left of the line but its line feed, right after another blank.
        exact (tells_drop blank isFeed _).trans (tells_exchange isFeed blank _)

theorem tells_joinWith (lines : List Text) :
    tells (unlines lines) = tells (Text.joinWith ['\n'] lines) := by
  have isFeed : isBlank (.char '\n') = true := by decide
  induction lines using Text.joinWith.induct with
  | case1 => rfl
  | case2 line => simpa [unlines, Text.joinWith] using tells_append line (tells_blank_nil isFeed)
  | case3 line next rest ih => exact tells_append (line ++ [CodePoint.char '\n']) ih

end Scan

/-- A body and its own lines have the same statements. -/
theorem told_ownLines (text : Text) :
    told (statements (Text.joinWith ['\n'] (Query.ownLines text))) = told (statements text) := by
  have isFeed : isBlank (.char '\n') = true := by decide
  have sameStart : Scan.tells (.char '\n' :: text) =
      Scan.tells (.char '\n' :: Query.unlines (Query.ownLines text)) :=
    (Scan.tells_append [.char '\n'] (Scan.tells_lines text)).trans (Scan.tells_trim isFeed _)
  calc told (statements (Text.joinWith ['\n'] (Query.ownLines text)))
    _ = told (statements (Query.unlines (Query.ownLines text))) :=
      (congrFun₂ (Scan.tells_joinWith _) {} []).symm
    _ = told (statements (.char '\n' :: Query.unlines (Query.ownLines text))) :=
      (Scan.told_blank isFeed _).symm
    _ = told (statements (.char '\n' :: text)) := (congrFun₂ sameStart {} []).symm
    _ = told (statements text) := Scan.told_blank isFeed text

/-- The statements of a body without an at sign do not depend on whether they are read from the body
or from its own lines, as those of a class and of a query are. -/
theorem statements_ownLines {text : Text} (noAt : CodePoint.char '@' ∉ text) :
    QueryTree.parse text = .ok (Query.ownLines text, []) ∧
      (∀ line, Query.level line text = .ok { lines := Query.ownLines text, queries := [] }) ∧
      told (statements (Text.joinWith ['\n'] (Query.statementLines (Query.ownLines text)))) =
        told (statements text) := by
  have noQuery : Query.splitAtQuery? text = none := by
    rw [Query.splitAtQuery?_eq_none_iff]
    rintro front back rfl
    exact absurd (List.mem_append_right _ (List.mem_append_left _ (by decide))) noAt
  have sameLines : Query.statementLines (Query.ownLines text) = Query.ownLines text := by
    rw [Query.statementLines, List.filter_eq_self]
    intro line isLine
    have noUse : Text.dropBeginning? "@use" line = none := by
      rw [Option.eq_none_iff_forall_ne_some]
      intro after found
      apply noAt
      apply Query.mem_of_mem_ownLines isLine
      rw [Text.dropBeginning?_eq_some found]
      exact List.mem_append_left _ (by decide)
    simp [Query.usedConstants?, noUse]
  refine ⟨QueryTree.parse_of_noQuery noQuery, fun line => ?_, ?_⟩
  · exact Query.level_of_none (by rw [Query.first?, noQuery])
  · rw [sameLines, told_ownLines]

/-- Lines that break off inside brackets of both kinds, and an empty one. -/
theorem statements_ownLines_indented :
    let text : Text := "bg[a\r\n  b] hover(\n\tc[calc(1px\n+ 2px)]\n\n)\n"
    let lines : List Text := ["bg[a", "b] hover(", "c[calc(1px", "+ 2px)]", ")"]
    statements text = .ok ["bg[a    b]", "hover(  c[calc(1px + 2px)]  )"] ∧
      QueryTree.parse text = .ok (lines, []) ∧
      statements (Text.joinWith ['\n'] lines) =
        .ok ["bg[a b]", "hover( c[calc(1px + 2px)] )"] ∧
      told (statements (Text.joinWith ['\n'] (Query.statementLines lines))) =
        told (statements text) := by
  intro text lines
  have areLines : Query.ownLines text = lines := by decide +kernel
  obtain ⟨parsed, _, same⟩ := @statements_ownLines text (by decide)
  rw [areLines] at parsed same
  exact ⟨by decide +kernel, parsed, by decide +kernel, same⟩

end TerseStyle

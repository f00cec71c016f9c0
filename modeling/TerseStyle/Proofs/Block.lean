import TerseStyle.Proofs.Source

/-!
# Cutting written blocks

The header of a named block is found at the first line that spells one, and the block ends at the
brace that matches. So blocks that were written one after the other are found again in their order,
whatever stands between them, as long as no line there spells a header of the same kind
(`Source.cutBlocks_segments`).
-/

namespace TerseStyle

theorem span_append {accepts : CodePoint → Bool} {front rest : Text}
    (accepted : ∀ c ∈ front, accepts c = true) (refused : ∀ c ∈ rest.head?, accepts c = false) :
    (front ++ rest).takeWhile accepts = front ∧ (front ++ rest).dropWhile accepts = rest := by
  rw [List.takeWhile_append_of_pos accepted, List.dropWhile_append_of_pos accepted]
  cases rest with
  | nil => simp
  | cons c rest =>
      have notAccepted : accepts c = false := refused c rfl
      simp [notAccepted]

theorem Text.dropBeginning?_append (beginning rest : Text) :
    dropBeginning? beginning (beginning ++ rest) = some rest := by
  induction beginning with
  | nil => rfl
  | cons c beginning ih => simpa [dropBeginning?] using ih

namespace Source

theorem skipToBrace?_append {blanks : Text} (areBlanks : ∀ c ∈ blanks, isBlank c = true)
    (rest : Text) :
    skipToBrace? (blanks ++ CodePoint.char '{' :: rest) =
      some (blanks ++ [CodePoint.char '{'], rest) := by
  have notBlank : ∀ c ∈ (CodePoint.char '{' :: rest).head?, isBlank c = false := by
    rintro c ⟨⟩
    decide
  rcases span_append areBlanks notBlank with ⟨isTaken, isLeft⟩
  rw [skipToBrace?, isTaken, isLeft]
  rfl

/-- The header consists of an indentation, the keyword, the name and a brace, with blanks between
them. -/
def Header.Spells (header : Header) (keyword : Text) : Prop :=
  ∃ indent gap blanks : Text, (∀ c ∈ indent, c = ' ' ∨ c = '\t') ∧
    (gap ≠ [] ∧ ∀ c ∈ gap, isBlank c = true) ∧
    (header.name ≠ [] ∧ ∀ c ∈ header.name, isNameChar c = true) ∧
    (∀ c ∈ blanks, isBlank c = true) ∧
    header.written = indent ++ keyword ++ gap ++ header.name ++ (blanks ++ [.char '{'])

theorem readHeader?_eq_some_iff {kind text : Text} {header : Header} :
    readHeader? (.char '@' :: kind) text = some header ↔
      header.Spells (.char '@' :: kind) ∧ text = header.written ++ header.rest := by
  constructor
  · intro found
    refine ⟨?_, (readHeader?_eq_some found).1⟩
    simp only [readHeader?] at found
    split at found
    · simp at found
    · next afterKeyword keywordAt =>
      split at found
      · simp at found
      · next notEmpty =>
        rw [Bool.not_eq_true, Bool.or_eq_false_iff, List.isEmpty_eq_false_iff,
          List.isEmpty_eq_false_iff] at notEmpty
        rcases Option.map_eq_some_iff.mp found with ⟨⟨toBrace, rest⟩, braceAt, same⟩
        simp only [skipToBrace?] at braceAt
        split at braceAt
        · simp only [Option.some.injEq, Prod.mk.injEq] at braceAt
          rw [← same]
          refine ⟨_, _, _, ?_, ⟨notEmpty.1, fun c => List.mem_takeWhile_imp⟩,
            ⟨notEmpty.2, fun c => List.mem_takeWhile_imp⟩, fun c => List.mem_takeWhile_imp,
            by rw [braceAt.1]⟩
          intro c isIndent
          simpa using List.mem_takeWhile_imp isIndent
        · simp at braceAt
  · rintro ⟨⟨indent, gap, blanks, isIndent, isGap, isName, areBlanks, isWritten⟩, rfl⟩
    have isText : header.written ++ header.rest = indent ++ (.char '@' :: kind ++ (gap ++
        (header.name ++ (blanks ++ .char '{' :: header.rest)))) := by
      rw [isWritten]
      simp
    have indentSpan := @span_append (fun c => c == ' ' || c == '\t') indent
      (.char '@' :: kind ++ (gap ++ (header.name ++ (blanks ++ .char '{' :: header.rest))))
      (by simpa using isIndent) (by rintro c ⟨⟩; decide)
    have gapSpan := @span_append isBlank gap (header.name ++ (blanks ++ .char '{' :: header.rest))
      isGap.2 (by
        cases isCons : header.name with
        | nil => exact absurd isCons isName.1
        | cons first name =>
            rintro c ⟨⟩
            rw [← Bool.not_eq_true]
            intro isBlankChar
            have isNameFirst := isName.2 first (by simp [isCons])
            simp [isNameChar_of_isBlank isBlankChar] at isNameFirst)
    have nameSpan := @span_append isNameChar header.name (blanks ++ .char '{' :: header.rest)
      isName.2 (by
        cases blanks with
        | nil =>
            rintro c ⟨⟩
            decide
        | cons first blanks =>
            rintro c ⟨⟩
            exact isNameChar_of_isBlank (areBlanks first List.mem_cons_self))
    simp only [readHeader?, isText, indentSpan.1, indentSpan.2, Text.dropBeginning?_append,
      gapSpan.1, gapSpan.2, nameSpan.1, nameSpan.2, skipToBrace?_append areBlanks]
    rw [if_neg (by simp [isGap.1, isName.1]), Option.map_some, ← isWritten]

/-- After the indentation and the at sign, a header has only characters of names and blanks before
its brace. -/
theorem Header.Spells.written_eq {header : Header} {kind : Text}
    (spells : header.Spells (.char '@' :: kind)) :
    ∃ indent inner : Text, (∀ c ∈ indent, c = ' ' ∨ c = '\t') ∧
      (∀ c ∈ inner, isNameChar c = true ∨ isBlank c = true) ∧
      header.written = indent ++ CodePoint.char '@' :: (kind ++ inner ++ [CodePoint.char '{']) := by
  rcases spells with ⟨indent, gap, blanks, isIndent, isGap, isName, areBlanks, isWritten⟩
  refine ⟨indent, gap ++ header.name ++ blanks, isIndent, ?_, by rw [isWritten]; simp⟩
  intro c isChar
  simp only [List.mem_append] at isChar
  rcases isChar with (inGap | inName) | inBlanks
  · exact Or.inr (isGap.2 c inGap)
  · exact Or.inl (isName.2 c inName)
  · exact Or.inr (areBlanks c inBlanks)

section

variable {kind : Text}

theorem readHeader?_eq_none_of_head {c : CodePoint} {rest : Text} (notAt : c ≠ '@')
    (notIndent : c ≠ ' ' ∧ c ≠ '\t') : readHeader? (.char '@' :: kind) (c :: rest) = none := by
  rw [Option.eq_none_iff_forall_ne_some]
  intro header found
  rcases readHeader?_eq_some_iff.mp found with ⟨spells, isText⟩
  rcases spells.written_eq with ⟨indent, inner, isIndent, _, isWritten⟩
  rw [isWritten] at isText
  cases indent with
  | nil =>
      rw [List.nil_append, List.cons_append, List.cons.injEq] at isText
      exact notAt isText.1
  | cons first indent =>
      rw [List.cons_append, List.cons_append, List.cons.injEq] at isText
      rcases isIndent first List.mem_cons_self with isSpace | isTab
      · exact notIndent.1 (isText.1.trans isSpace)
      · exact notIndent.2 (isText.1.trans isTab)

theorem readHeader?_at {text : Text} {header : Header}
    (found : readHeader? (.char '@' :: kind) (.char '@' :: text) = some header) :
    ∃ inner : Text, (∀ c ∈ inner, isNameChar c = true ∨ isBlank c = true) ∧
      text = kind ++ inner ++ .char '{' :: header.rest := by
  rcases readHeader?_eq_some_iff.mp found with ⟨spells, isText⟩
  rcases spells.written_eq with ⟨indent, inner, isIndent, isInner, isWritten⟩
  rw [isWritten] at isText
  cases indent with
  | nil =>
      rw [List.nil_append, List.cons_append, List.cons.injEq] at isText
      exact ⟨inner, isInner, by simpa using isText.2⟩
  | cons first indent =>
      rw [List.cons_append, List.cons_append, List.cons.injEq] at isText
      have notAt := isIndent first List.mem_cons_self
      rw [← isText.1] at notAt
      exact absurd notAt (by decide)

/-- A header does not run across a closing brace. -/
theorem readHeader?_append_closing (isKind : ∀ c ∈ kind, isNameChar c = true) {body : Text}
    (noHeader : readHeader? (.char '@' :: kind) body = none) (rest : Text) :
    readHeader? (.char '@' :: kind) (body ++ .char '}' :: rest) = none := by
  rw [Option.eq_none_iff_forall_ne_some]
  intro header found
  rcases readHeader?_eq_some_iff.mp found with ⟨spells, isText⟩
  have noClosing : .char '}' ∉ header.written := by
    rcases spells.written_eq with ⟨indent, inner, isIndent, isInner, isWritten⟩
    rw [isWritten]
    intro isChar
    simp only [List.mem_append, List.mem_cons, List.not_mem_nil, or_false] at isChar
    rcases isChar with inIndent | isAt | (inKind | inInner) | isBrace
    · exact absurd (isIndent _ inIndent) (by decide)
    · exact absurd isAt (by decide)
    · exact absurd (isKind _ inKind) (by decide)
    · exact absurd (isInner _ inInner) (by decide)
    · exact absurd isBrace (by decide)
  rcases List.append_eq_append_iff.mp isText with ⟨more, isWritten, isRest⟩ | ⟨more, isBody, _⟩
  · cases more with
    | nil =>
        rw [List.append_nil] at isWritten
        have foundInBody : readHeader? (.char '@' :: kind) body = some { header with rest := [] } :=
          readHeader?_eq_some_iff.mpr ⟨spells, by rw [isWritten, List.append_nil]⟩
        simp [noHeader] at foundInBody
    | cons c more =>
        rw [List.cons_append, List.cons.injEq] at isRest
        apply noClosing
        rw [isWritten, isRest.1]
        simp
  · have foundInBody : readHeader? (.char '@' :: kind) body = some { header with rest := more } :=
      readHeader?_eq_some_iff.mpr ⟨spells, isBody⟩
    simp [noHeader] at foundInBody

/-- What is found after a text. -/
def placeAfter (front : Text) (found : Text × Header) : Text × Header :=
  (front ++ found.1, found.2)

theorem map_placeAfter (front more : Text) (found : Option (Text × Header)) :
    (found.map (placeAfter more)).map (placeAfter front) =
      found.map (placeAfter (front ++ more)) := by
  cases found with
  | none => rfl
  | some found => simp [placeAfter]

theorem map_placeAfter_nil (found : Option (Text × Header)) :
    found.map (placeAfter []) = found := by
  cases found <;> rfl

theorem findHeader?_cons {keyword rest : Text} {atLineStart : Bool} {c : CodePoint}
    (noHeader : atLineStart = true → readHeader? keyword (c :: rest) = none) :
    findHeader? keyword atLineStart (c :: rest) =
      (findHeader? keyword (c == '\n') rest).map (placeAfter [c]) := by
  simp only [findHeader?]
  split
  · next atStart =>
    rw [noHeader atStart]
    rfl
  · rfl

/-- No header starts in the middle of a line. -/
theorem findHeader?_append_of_noFeed {keyword text rest : Text} (noFeed : .char '\n' ∉ text) :
    findHeader? keyword false (text ++ rest) =
      (findHeader? keyword false rest).map (placeAfter text) := by
  induction text with
  | nil => rw [List.nil_append, map_placeAfter_nil]
  | cons c text ih =>
      rw [List.mem_cons, not_or] at noFeed
      have isOther : (c == '\n') = false := by simpa using Ne.symm noFeed.1
      rw [List.cons_append, findHeader?_cons (by simp), isOther, ih noFeed.2,
        map_placeAfter]
      rfl

/-- The search goes on after a body without headers and its closing brace. -/
theorem findHeader?_append_closing (isKind : ∀ c ∈ kind, isNameChar c = true) {body rest : Text}
    {atLineStart : Bool} (noHeader : findHeader? (.char '@' :: kind) atLineStart body = none) :
    findHeader? (.char '@' :: kind) atLineStart (body ++ CodePoint.char '}' :: rest) =
      (findHeader? (.char '@' :: kind) false rest).map
        (placeAfter (body ++ [CodePoint.char '}'])) := by
  induction body generalizing atLineStart with
  | nil =>
      rw [List.nil_append, findHeader?_cons fun _ =>
        readHeader?_eq_none_of_head (by decide) (by decide)]
      rfl
  | cons c body ih =>
      have noneHere : atLineStart = true → readHeader? (.char '@' :: kind) (c :: body) = none := by
        rintro rfl
        simp only [findHeader?, if_true] at noHeader
        split at noHeader
        · simp at noHeader
        · next isNone => exact isNone
      rw [findHeader?_cons noneHere, Option.map_eq_none_iff] at noHeader
      have noneBefore : atLineStart = true →
          readHeader? (.char '@' :: kind) (c :: (body ++ CodePoint.char '}' :: rest)) = none :=
        fun atStart => readHeader?_append_closing isKind (noneHere atStart) rest
      rw [List.cons_append, findHeader?_cons noneBefore, ih noHeader,
        map_placeAfter]
      rfl

/-! ## Segments of a text -/

/-- Whether a text goes on, after blanks, with an at sign or a dot, or ends. -/
def startsItem (text : Text) : Bool :=
  match text.dropWhile isBlank with
  | [] => true
  | c :: _ => c == '@' || c == '.'

theorem startsItem_append {blanks : Text} (areBlanks : ∀ c ∈ blanks, isBlank c = true)
    (rest : Text) : startsItem (blanks ++ rest) = startsItem rest := by
  rw [startsItem, startsItem, List.dropWhile_append_of_pos areBlanks]

/-- No header starts in the text if it is followed by an item. -/
def Skipped (keyword text : Text) : Prop :=
  ∀ rest, startsItem rest = true → startsItem (text ++ rest) = true ∧
    findHeader? keyword true (text ++ rest) =
      (findHeader? keyword true rest).map (placeAfter text)

theorem skipped_nil (keyword : Text) : Skipped keyword [] :=
  fun rest starts => ⟨starts, by rw [List.nil_append, map_placeAfter_nil]⟩

theorem Skipped.append {keyword text more : Text} (skipped : Skipped keyword text)
    (skippedMore : Skipped keyword more) : Skipped keyword (text ++ more) := by
  intro rest starts
  rcases skippedMore rest starts with ⟨startsMore, findsMore⟩
  rcases skipped (more ++ rest) startsMore with ⟨startsText, findsText⟩
  rw [List.append_assoc]
  exact ⟨startsText, by rw [findsText, findsMore, map_placeAfter]⟩

theorem skipped_lineFeed : Skipped (.char '@' :: kind) [.char '\n'] := by
  intro rest starts
  refine ⟨?_, ?_⟩
  · rwa [startsItem_append (by decide)]
  · rw [List.singleton_append, findHeader?_cons fun _ =>
      readHeader?_eq_none_of_head (by decide) (by decide)]
    rfl

theorem skipped_replicate (count : Nat) :
    Skipped (.char '@' :: kind) (List.replicate count (.char '\n')) := by
  induction count with
  | zero => exact skipped_nil _
  | succ count ih =>
      rw [List.replicate_succ]
      exact skipped_lineFeed.append ih

/-- A block with its header, its body and its braces. -/
def blockText (kind name body : Text) : Text :=
  .char '@' :: (kind ++ .char ' ' :: (name ++ .char ' ' :: .char '{' :: (body ++ [.char '}'])))

/-- Text before, between and after the blocks of a kind, or a block on lines of its own. -/
inductive Segment where
  | plain (text : Text)
  | block (name body : Text)

namespace Segment

/-- The text of the segment. -/
def text (kind : Text) : Segment → Text
  | plain text => text
  | block name body => blockText kind name body ++ [.char '\n']

/-- What remains when the block is cut out. -/
def remaining : Segment → Text
  | plain text => text
  | block _ body => blank body ++ [.char '\n']

/-- The name and the body of the block. -/
def block? : Segment → Option (Text × Text)
  | plain _ => none
  | block name body => some (name, body)

/-- The block can be cut out, and what is not a block is passed by. -/
def IsCut (kind : Text) : Segment → Prop
  | plain text => Skipped (.char '@' :: kind) text
  | block name body => (name ≠ [] ∧ ∀ c ∈ name, isNameChar c = true) ∧
    ∀ after, Brace.splitAtClosing 1 0 (body ++ .char '}' :: after) = some (body, after)

end Segment

theorem readHeader?_blockText {name : Text} (isName : name ≠ [] ∧ ∀ c ∈ name, isNameChar c = true)
    (body after : Text) :
    readHeader? (.char '@' :: kind) (blockText kind name body ++ after) =
      some { name
             written := .char '@' :: kind ++ [.char ' '] ++ name ++ [.char ' ', .char '{']
             rest := body ++ .char '}' :: after } := by
  rw [readHeader?_eq_some_iff]
  refine ⟨⟨[], [.char ' '], [.char ' '], by simp, ⟨by simp, by decide⟩, isName, by decide, ?_⟩, ?_⟩
  · simp
  · simp [blockText]

theorem findHeader?_blockText {name : Text} (isName : name ≠ [] ∧ ∀ c ∈ name, isNameChar c = true)
    (body after : Text) :
    findHeader? (.char '@' :: kind) true (blockText kind name body ++ after) =
      some ([], { name
                  written := .char '@' :: kind ++ [.char ' '] ++ name ++ [.char ' ', .char '{']
                  rest := body ++ .char '}' :: after }) := by
  have found := @readHeader?_blockText kind name isName body after
  rw [blockText, List.cons_append] at found ⊢
  simp only [findHeader?, if_true, found]

theorem blank_header (isKind : ∀ c ∈ kind, isNameChar c = true) {name : Text}
    (isName : ∀ c ∈ name, isNameChar c = true) :
    blank (.char '@' :: kind ++ [CodePoint.char ' '] ++ name ++ [CodePoint.char ' ', .char '{']) =
      [] := by
  have noFeed : CodePoint.char '\n' ∉ CodePoint.char '@' :: kind ++ [CodePoint.char ' '] ++ name ++
      [CodePoint.char ' ', .char '{'] := by
    intro isChar
    simp only [List.mem_append, List.mem_cons, List.not_mem_nil, or_false] at isChar
    rcases isChar with (((isAt | inKind) | isSpace) | inName) | isSpace | isBrace
    · exact absurd isAt (by decide)
    · exact absurd (isKind _ inKind) (by decide)
    · exact absurd isSpace (by decide)
    · exact absurd (isName _ inName) (by decide)
    · exact absurd isSpace (by decide)
    · exact absurd isBrace (by decide)
  rw [blank, Text.lineFeeds, List.count_eq_zero.mpr noFeed, List.replicate_zero]

/-- The blocks among the segments are cut out one after the other. -/
theorem cutBlocks_segments (isKind : ∀ c ∈ kind, isNameChar c = true) {segments : List Segment}
    (cut : ∀ segment ∈ segments, segment.IsCut kind) {seen : List Text} {front : Text}
    (skipped : Skipped (.char '@' :: kind) front)
    (distinct : ((segments.filterMap Segment.block?).map Prod.fst).Nodup)
    (unseen : ∀ name ∈ (segments.filterMap Segment.block?).map Prod.fst, name ∉ seen) :
    ∃ blocks, cutBlocks kind seen (front ++ segments.flatMap (Segment.text kind)) =
        .ok (front ++ segments.flatMap Segment.remaining, blocks) ∧
      blocks.map (fun block => (block.name, block.body)) = segments.filterMap Segment.block? := by
  induction segments generalizing seen front with
  | nil =>
      have findsNothing := (skipped [] rfl).2
      rw [cutBlocks]
      split
      · exact ⟨[], rfl, rfl⟩
      · next found =>
        rw [List.flatMap_nil, findsNothing] at found
        simp [findHeader?] at found
  | cons segment segments ih =>
      rw [List.forall_mem_cons] at cut
      cases segment with
      | plain text =>
          rcases ih cut.2 (skipped.append cut.1) distinct unseen with
            ⟨blocks, cuts, areBlocks⟩
          refine ⟨blocks, ?_, areBlocks⟩
          simpa [Segment.text, Segment.remaining] using cuts
      | block name body =>
          rcases cut with ⟨⟨isName, closes⟩, cutLater⟩
          simp only [List.filterMap_cons, Segment.block?, List.map_cons, List.nodup_cons,
            List.forall_mem_cons] at distinct unseen
          have startsBlock : startsItem (blockText kind name body ++
              ([CodePoint.char '\n'] ++ segments.flatMap (Segment.text kind))) = true := rfl
          have found := (skipped _ startsBlock).2
          rw [findHeader?_blockText isName] at found
          have skippedBlock :
              Skipped (.char '@' :: kind) (front ++ (blank body ++ [CodePoint.char '\n'])) :=
            skipped.append ((skipped_replicate _).append skipped_lineFeed)
          have unseenLater : ∀ later ∈ (segments.filterMap Segment.block?).map Prod.fst,
              later ∉ name :: seen := by
            intro later isLater
            rw [List.mem_cons, not_or]
            exact ⟨fun same => distinct.1 (same ▸ isLater), unseen.2 later isLater⟩
          rcases ih cutLater skippedBlock distinct.2 unseenLater with
            ⟨blocks, cutsLater, areBlocks⟩
          have isText : front ++ (Segment.block name body :: segments).flatMap (Segment.text kind) =
              front ++ (blockText kind name body ++
                ([CodePoint.char '\n'] ++ segments.flatMap (Segment.text kind))) := by
            simp [Segment.text]
          rw [isText, cutBlocks]
          split
          · next noneFound =>
            rw [found] at noneFound
            simp at noneFound
          · next before header foundHeader =>
            rw [found] at foundHeader
            simp only [Option.map_some, placeAfter, List.append_nil, Option.some.injEq,
              Prod.mk.injEq] at foundHeader
            rcases foundHeader with ⟨rfl, rfl⟩
            have reads : ∀ line, Brace.readBody line (body ++ CodePoint.char '}' ::
                ([CodePoint.char '\n'] ++ segments.flatMap (Segment.text kind))) =
                .ok (body, [.char '\n'] ++ segments.flatMap (Segment.text kind)) := by
              intro line
              rw [Brace.readBody, closes]
            simp only [if_neg unseen.1]
            split
            · next fails =>
              rw [reads] at fails
              simp at fails
            · next found after closed =>
              rw [reads, Except.ok.injEq, Prod.mk.injEq] at closed
              rcases closed with ⟨rfl, rfl⟩
              rw [blank_header isKind isName.2, List.append_nil]
              rw [List.append_assoc, List.append_assoc] at cutsLater
              rw [List.append_assoc, cutsLater]
              refine ⟨{ name, body, line := Text.lineFeeds front + 1 } :: blocks, ?_, ?_⟩
              · simp [Except.map, Segment.remaining]
              · simp [areBlocks, Segment.block?]

end

end Source

end TerseStyle

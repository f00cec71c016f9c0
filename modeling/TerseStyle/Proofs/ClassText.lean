import TerseStyle.Proofs.Hoisting

/-!
# Texts of classes

A text from which nothing but classes is read is a sequence of classes and blanks. Two such texts
without a class in common make up a third with a line feed between them (`ClassText.append`): no
constant, keyframe or directive comes into being where they meet. A line that declares the scope may
stand before such a text, and changes nothing in how its classes are read
(`ClassText.parse_header`).
-/

namespace TerseStyle

theorem Brace.splitAtClosing_of_readBody {line : Nat} {text : Text} {parts : Text × Text}
    (reads : readBody line text = .ok parts) : splitAtClosing 1 0 text = some parts := by
  rw [readBody] at reads
  split at reads
  · next found =>
    rw [found, ← Except.ok.inj reads]
  · simp at reads

namespace Source

/-- The class of the part. -/
def Part.class? : Part → Option ClassBlock
  | ofClass written => some { name := written.name, body := written.body }
  | _ => none

/-! ## Texts that are read as classes -/

theorem isClassName_cons {first : CodePoint} {rest : Text}
    (isStart : isIdentifierStart first = true) (areNames : rest.all isNameChar = true) :
    isClassName (first :: rest) = true := by
  unfold isClassName
  split
  · next isHyphen =>
    rw [List.cons.injEq] at isHyphen
    rw [isHyphen.1] at isStart
    exact absurd isStart (by decide)
  · next same =>
    rw [List.cons.injEq] at same
    rw [← same.1, ← same.2, isStart, areNames]
    rfl
  · next isNothing => simp at isNothing

theorem isClassName_of_readClassHeader? {text : Text} {header : Header}
    (found : readClassHeader? text = some header) : isClassName header.name = true := by
  obtain ⟨_, _, first, rest, isStart, areNames, isName | isName⟩ := readClassHeader?_eq_some found
  · simp [isName, isClassName, isStart, areNames]
  · rw [isName]
    exact isClassName_cons isStart areNames

/-- A text that is read as classes is made of them and of blanks. -/
theorem exists_parts_of_readClasses {line : Nat} {seen : List Text} {text : Text}
    {classes : List ClassBlock} (reads : readClasses line seen text = .ok classes) :
    ∃ parts : List Part, (∀ part ∈ parts, part.isLine = false) ∧ parts.flatMap Part.text = text ∧
      parts.filterMap Part.class? = classes ∧ (classes.map ClassBlock.name).Nodup ∧
      ∀ block ∈ classes, block.name ∉ seen := by
  fun_induction readClasses line seen text generalizing classes with
  | case1 =>
      rename_i text start noText
      rw [Except.ok.injEq] at reads
      have areBlanks : ∀ c ∈ text, isBlank c = true := by
        simpa [start, List.dropWhile_eq_nil_iff] using noText
      rw [← reads]
      exact ⟨[.blanks text areBlanks], by simp [Part.isLine], by simp [Part.text],
        by simp [Part.class?], by simp, by simp⟩
  | case2 => simp at reads
  | case3 => simp at reads
  | case4 => simp at reads
  | case5 =>
      rename_i text start _ _ header found unseen _ body after closed ih
      obtain ⟨more, readsMore, same⟩ := map_eq_ok.mp reads
      obtain ⟨parts, noLine, isAfter, areClasses, distinct, unseenLater⟩ :=
        ih readsMore
      have isName := isClassName_of_readClassHeader? found
      obtain ⟨isStart, ⟨gap, areBlanks, isHeader⟩, _⟩ := readClassHeader?_eq_some found
      have isRest := Brace.readBody_eq_ok closed
      have isBody := Brace.splitAtClosing_of_isBody
        (Brace.isBody_of_splitAtClosing (Brace.splitAtClosing_of_readBody closed)) []
      let written : WrittenClass :=
        { name := header.name, gap, body, isName, isGap := areBlanks, isBody }
      have isText : text.takeWhile isBlank ++ (written.text ++ after) = text := by
        have isWritten : start = written.text ++ after := by
          rw [isStart, isHeader, isRest]
          simp [written, WrittenClass.text]
        rw [← isWritten]
        exact List.takeWhile_append_dropWhile
      refine ⟨.blanks (text.takeWhile isBlank) (fun c => List.mem_takeWhile_imp) ::
        .ofClass written :: parts, ?_, ?_, ?_, ?_, ?_⟩
      · simpa [Part.isLine] using noLine
      · rw [List.flatMap_cons, List.flatMap_cons, isAfter]
        exact isText
      · rw [← same, ← areClasses]
        rfl
      · rw [← same, List.map_cons, List.nodup_cons]
        refine ⟨?_, distinct⟩
        intro isLater
        obtain ⟨block, isBlock, sameName⟩ := List.mem_map.mp isLater
        exact unseenLater block isBlock (sameName ▸ List.mem_cons_self)
      · rw [← same, List.forall_mem_cons]
        refine ⟨unseen, fun block isBlock isSeen => ?_⟩
        exact unseenLater block isBlock (List.mem_cons_of_mem _ isSeen)

/-- The classes among parts without lines are read from their text. -/
theorem readClasses_parts {parts : List Part} (noLine : ∀ part ∈ parts, part.isLine = false)
    (line : Nat) {seen : List Text}
    (distinct : ((parts.filterMap Part.class?).map ClassBlock.name).Nodup)
    (unseen : ∀ block ∈ parts.filterMap Part.class?, block.name ∉ seen) :
    readClasses line seen (parts.flatMap Part.text) = .ok (parts.filterMap Part.class?) := by
  induction parts generalizing line seen with
  | nil =>
      rw [List.flatMap_nil, readClasses]
      rfl
  | cons part parts ih =>
      rw [List.forall_mem_cons] at noLine
      rw [List.flatMap_cons]
      cases part with
      | ofClass written =>
          simp only [List.filterMap_cons, Part.class?, List.map_cons, List.nodup_cons,
            List.forall_mem_cons] at distinct unseen ⊢
          have unseenLater : ∀ block ∈ parts.filterMap Part.class?,
              block.name ∉ written.name :: seen := by
            intro block isLater isSeen
            rcases List.mem_cons.mp isSeen with sameName | inSeen
            · exact distinct.1 (sameName ▸ List.mem_map_of_mem isLater)
            · exact unseen.2 block isLater inSeen
          obtain ⟨later, reads⟩ :=
            readClasses_text written line unseen.1 (parts.flatMap Part.text)
          rw [Part.text, reads, ih noLine.2 _ distinct.2 unseenLater]
          rfl
      | blanks text areBlanks =>
          rw [Part.text, readClasses_append areBlanks]
          exact ih noLine.2 _ distinct unseen
      | line text isLine starts => simp [Part.isLine] at noLine

/-! ## Headers in texts of classes -/

section

variable {kind : Text}

theorem readHeader?_append_of_some {text : Text} {header : Header}
    (found : readHeader? (.char '@' :: kind) text = some header) (more : Text) :
    readHeader? (.char '@' :: kind) (text ++ more) =
      some { header with rest := header.rest ++ more } := by
  obtain ⟨spells, isText⟩ := readHeader?_eq_some_iff.mp found
  apply readHeader?_eq_some_iff.mpr
  refine ⟨spells, ?_⟩
  rw [isText, List.append_assoc]

theorem readHeader?_eq_none_of_indent {keyword indent text : Text}
    (isIndent : ∀ c ∈ indent, (c == ' ' || c == '\t') = true)
    (notIndent : ∀ c ∈ text.head?, (c == ' ' || c == '\t') = false)
    (noKeyword : Text.dropBeginning? keyword text = none) :
    readHeader? keyword (indent ++ text) = none := by
  simp only [readHeader?, (span_append isIndent notIndent).2, noKeyword]

theorem findHeader?_cons_eq_none_iff {keyword rest : Text} {atLineStart : Bool} {c : CodePoint} :
    findHeader? keyword atLineStart (c :: rest) = none ↔
      (atLineStart = true → readHeader? keyword (c :: rest) = none) ∧
        findHeader? keyword (c == '\n') rest = none := by
  cases atLineStart with
  | false => simp [findHeader?]
  | true =>
      cases found : readHeader? keyword (c :: rest) with
      | none => simp [findHeader?, found]
      | some header => simp [findHeader?, found]

theorem findHeader?_eq_none_of_append {front more : Text} {atLineStart : Bool}
    (noHeader : findHeader? (.char '@' :: kind) atLineStart (front ++ more) = none) :
    findHeader? (.char '@' :: kind) atLineStart front = none := by
  induction front generalizing atLineStart with
  | nil => rfl
  | cons c front ih =>
      rw [List.cons_append, findHeader?_cons_eq_none_iff] at noHeader
      refine findHeader?_cons_eq_none_iff.mpr ⟨?_, ih noHeader.2⟩
      intro atStart
      rw [Option.eq_none_iff_forall_ne_some]
      intro header found
      have foundLater := readHeader?_append_of_some found more
      rw [List.cons_append, noHeader.1 atStart] at foundLater
      simp at foundLater

/-- No header starts with blanks that end in a line feed. -/
theorem readHeader?_blanks {blanks : Text} (areBlanks : ∀ c ∈ blanks, isBlank c = true)
    (rest : Text) : readHeader? (.char '@' :: kind) (blanks ++ .char '\n' :: rest) = none := by
  have isAfter : ∃ c more, isBlank c = true ∧ (blanks ++ .char '\n' :: rest).dropWhile
      (fun (c : CodePoint) => c == ' ' || c == '\t') = c :: more := by
    induction blanks with
    | nil => exact ⟨.char '\n', rest, by decide, rfl⟩
    | cons c blanks ih =>
        rw [List.forall_mem_cons] at areBlanks
        rw [List.cons_append, List.dropWhile_cons]
        split
        · exact ih areBlanks.2
        · exact ⟨c, _, areBlanks.1, rfl⟩
  obtain ⟨c, more, isBlankChar, isAfter⟩ := isAfter
  have notAt : c ≠ '@' := by
    rintro rfl
    exact absurd isBlankChar (by decide)
  have noKeyword : Text.dropBeginning? (.char '@' :: kind) (c :: more) = none := by
    simp [Text.dropBeginning?, Ne.symm notAt]
  simp only [readHeader?, isAfter, noKeyword]

theorem findHeader?_blanks {blanks : Text} (areBlanks : ∀ c ∈ blanks, isBlank c = true)
    {rest : Text} (noHeader : findHeader? (.char '@' :: kind) true rest = none)
    (atLineStart : Bool) :
    findHeader? (.char '@' :: kind) atLineStart (blanks ++ .char '\n' :: rest) = none := by
  induction blanks generalizing atLineStart with
  | nil =>
      rw [List.nil_append, findHeader?_cons_eq_none_iff]
      exact ⟨fun _ => readHeader?_blanks areBlanks rest, noHeader⟩
  | cons c blanks ih =>
      rw [List.cons_append, findHeader?_cons_eq_none_iff]
      refine ⟨fun _ => readHeader?_blanks areBlanks rest, ?_⟩
      exact ih (List.forall_mem_cons.mp areBlanks).2 _

/-- Parts without lines end in blanks, before which a class is closed or nothing stands. -/
theorem exists_blanks_of_noLine {parts : List Part} (noLine : ∀ part ∈ parts, part.isLine = false) :
    ∃ front blanks : Text, parts.flatMap Part.text = front ++ blanks ∧
      (∀ c ∈ blanks, isBlank c = true) ∧
      (front = [] ∨ ∃ inner, front = inner ++ [CodePoint.char '}']) := by
  induction parts using List.reverseRecOn with
  | nil => exact ⟨[], [], rfl, by simp, Or.inl rfl⟩
  | append_singleton parts part ih =>
      rw [List.forall_mem_append] at noLine
      rw [List.flatMap_append, List.flatMap_singleton]
      cases part with
      | ofClass written =>
          refine ⟨_, [], (List.append_nil _).symm, by simp, Or.inr ⟨parts.flatMap Part.text ++
            .char '.' :: (written.name ++ written.gap ++ CodePoint.char '{' :: written.body), ?_⟩⟩
          simp [Part.text, WrittenClass.text]
      | blanks text areBlanks =>
          obtain ⟨front, blanks, isText, areBlanksBefore, isFront⟩ := ih noLine.1
          refine ⟨front, blanks ++ text, ?_, ?_, isFront⟩
          · rw [isText, List.append_assoc]
            rfl
          · rw [List.forall_mem_append]
            exact ⟨areBlanksBefore, areBlanks⟩
      | line text isLine starts => simp [Part.isLine] at noLine

/-- No header comes into being where a text of classes is followed by a line feed. -/
theorem findHeader?_append_lineFeed (isKind : ∀ c ∈ kind, isNameChar c = true) {parts : List Part}
    (noLine : ∀ part ∈ parts, part.isLine = false)
    (noHeader : findHeader? (.char '@' :: kind) true (parts.flatMap Part.text) = none)
    {rest : Text} (noneLater : findHeader? (.char '@' :: kind) true rest = none) :
    findHeader? (.char '@' :: kind) true (parts.flatMap Part.text ++ CodePoint.char '\n' :: rest) =
      none := by
  obtain ⟨front, blanks, isText, areBlanks, isFront⟩ := exists_blanks_of_noLine noLine
  rw [isText] at noHeader ⊢
  rcases isFront with rfl | ⟨inner, rfl⟩
  · exact findHeader?_blanks areBlanks noneLater true
  · have noneInside : findHeader? (.char '@' :: kind) true inner = none := by
      rw [List.append_assoc] at noHeader
      exact findHeader?_eq_none_of_append noHeader
    have split : inner ++ [CodePoint.char '}'] ++ blanks ++ CodePoint.char '\n' :: rest =
        inner ++ CodePoint.char '}' :: (blanks ++ CodePoint.char '\n' :: rest) := by
      simp
    rw [split, findHeader?_append_closing isKind noneInside, Option.map_eq_none_iff]
    exact findHeader?_blanks areBlanks noneLater false

end

/-! ## Texts of classes -/

theorem isBlank_lineFeed : ∀ c ∈ [CodePoint.char '\n'], isBlank c = true := by
  decide

/-- The kinds of blocks that are cut out of a text before its classes are read. -/
def blockKinds : List Text := ["const", "keyframe"]

theorem isNameChar_of_mem_blockKinds : ∀ kind ∈ blockKinds, ∀ c ∈ kind, isNameChar c = true := by
  decide

/-- A text of classes and blanks. -/
structure ClassText where
  parts : List Part
  noLine : ∀ part ∈ parts, part.isLine = false
  /-- No brace stands inside square brackets. -/
  plain : ∀ part ∈ parts, part.isPlain = true
  distinct : ((parts.filterMap Part.class?).map ClassBlock.name).Nodup
  unmarked : Reference.hasMarker (parts.flatMap Part.text) = false
  /-- No constant or keyframe stands inside a class. -/
  noHeader : ∀ kind ∈ blockKinds,
    findHeader? (.char '@' :: kind) true (parts.flatMap Part.text) = none

namespace ClassText

/-- The text itself. -/
def text (classText : ClassText) : Text :=
  classText.parts.flatMap Part.text

/-- The classes of the text. -/
def classes (classText : ClassText) : List ClassBlock :=
  classText.parts.filterMap Part.class?

/-- Two texts without a class in common, on lines of their own. -/
def append (first second : ClassText)
    (disjoint : ∀ block ∈ first.classes, ∀ other ∈ second.classes, block.name ≠ other.name) :
    ClassText where
  parts := first.parts ++ .blanks [.char '\n'] isBlank_lineFeed :: second.parts
  noLine := by
    rw [List.forall_mem_append, List.forall_mem_cons]
    exact ⟨first.noLine, rfl, second.noLine⟩
  plain := by
    rw [List.forall_mem_append, List.forall_mem_cons]
    exact ⟨first.plain, rfl, second.plain⟩
  distinct := by
    rw [List.filterMap_append, List.map_append, List.nodup_append]
    refine ⟨first.distinct, second.distinct, ?_⟩
    rw [List.forall_mem_map]
    intro block isBlock
    rw [List.forall_mem_map]
    exact disjoint block isBlock
  unmarked := by
    have ofFirst := first.unmarked
    have ofSecond := second.unmarked
    simp only [Reference.hasMarker, List.flatMap_append, List.flatMap_cons, Part.text,
      List.any_append, Bool.or_eq_false_iff] at ofFirst ofSecond ⊢
    exact ⟨ofFirst, by decide, ofSecond⟩
  noHeader := by
    intro kind isKind
    rw [List.flatMap_append]
    exact findHeader?_append_lineFeed (isNameChar_of_mem_blockKinds kind isKind) first.noLine
      (first.noHeader kind isKind) (second.noHeader kind isKind)

section

variable {first second : ClassText}
  {disjoint : ∀ block ∈ first.classes, ∀ other ∈ second.classes, block.name ≠ other.name}

theorem text_append : (append first second disjoint).text = first.text ++ "\n" ++ second.text := by
  simp [text, append, Part.text, Text.ofString, Text.ofChars]

theorem classes_append :
    (append first second disjoint).classes = first.classes ++ second.classes := by
  rw [classes, append, List.filterMap_append]
  rfl

end

end ClassText

/-- Nothing but the given classes is read from the text, and no brace stands inside square brackets
in them. -/
structure HoldsClasses (text : Text) (classes : List ClassBlock) : Prop where
  parses : parse text = .ok { constants := [], keyframes := [], directives := [], classes }
  plain : ∀ block ∈ classes, Brace.hasPlainValues 0 block.body = true

theorem cutBlocks_eq_ok_nil_iff {kind : Text} {seen : List Text} {text remaining : Text} :
    cutBlocks kind seen text = .ok (remaining, []) ↔
      findHeader? (.char '@' :: kind) true text = none ∧ remaining = text := by
  rw [cutBlocks.eq_def]
  split
  · next noHeader => simp [noHeader, eq_comm]
  · next header found =>
    simp only [found, reduceCtorEq, false_and, iff_false]
    split
    · simp
    · split
      · simp
      · intro cut
        obtain ⟨_, _, same⟩ := map_eq_ok.mp cut
        simp at same

end Source

/-- If no directive is taken out of lines, they remain as they are. -/
theorem Directive.eq_flatten_of_takeFrom {depth : Int} {number : Nat} {lines : List Text}
    {remaining : Text} (taken : takeFrom depth number lines = .ok (remaining, [])) :
    remaining = lines.flatten := by
  induction lines generalizing depth number remaining with
  | nil =>
      simp only [takeFrom, Except.ok.injEq, Prod.mk.injEq] at taken
      exact taken.1.symm
  | cons line rest ih =>
      rw [takeFrom] at taken
      split at taken
      · simp at taken
      · next later directives takenLater =>
        simp only at taken
        split at taken
        · simp only [Except.ok.injEq, Prod.mk.injEq] at taken
          rw [taken.2] at takenLater
          rw [← taken.1, ih takenLater, List.flatten_cons]
        · split at taken
          · simp at taken
          · simp at taken

theorem Directive.eq_of_takeAll {text remaining : Text}
    (taken : takeAll text = .ok (remaining, [])) : remaining = text := by
  rw [takeAll] at taken
  split at taken
  · simp at taken
  · next left directives takenFrom =>
    split at taken
    · simp at taken
    · simp only [Except.ok.injEq, Prod.mk.injEq] at taken
      rw [taken.1, taken.2] at takenFrom
      rw [eq_flatten_of_takeFrom takenFrom, Text.flatten_linesWithBreaks]

namespace Source

/-- What a text is like from which only classes are read. -/
theorem parse_eq_ok_of_classes {text : Text} {classes : List ClassBlock}
    (parses : parse text = .ok { constants := [], keyframes := [], directives := [], classes }) :
    Reference.hasMarker text = false ∧
      (∀ kind ∈ blockKinds, findHeader? (.char '@' :: kind) true text = none) ∧
      readClasses 1 [] text = .ok classes := by
  rw [parse] at parses
  cases marked : Reference.hasMarker text with
  | true => simp [marked, bind, Except.bind, throw, throwThe, MonadExceptOf.throw] at parses
  | false =>
      simp only [marked, Bool.false_eq_true, if_false, bind_eq_ok, Prod.exists, pure, Except.pure,
        Except.ok.injEq] at parses
      obtain ⟨afterConstants, constantBlocks, cutConstants, constants, readConstants,
        afterKeyframes, keyframeBlocks, cutKeyframes, afterDirectives, directives, taken, read, reads,
        same⟩ := parses
      rw [Source.mk.injEq, List.map_eq_nil_iff] at same
      obtain ⟨rfl, rfl, rfl, rfl⟩ := same
      have noConstants : constantBlocks = [] :=
        List.forall₂_nil_right_iff.mp (forall₂_of_mapM_eq_ok readConstants)
      rw [noConstants] at cutConstants
      obtain ⟨noConstant, rfl⟩ := cutBlocks_eq_ok_nil_iff.mp cutConstants
      obtain ⟨noKeyframe, rfl⟩ := cutBlocks_eq_ok_nil_iff.mp cutKeyframes
      rw [Directive.eq_of_takeAll taken] at reads
      refine ⟨rfl, ?_, reads⟩
      rw [blockKinds, List.forall_mem_cons, List.forall_mem_singleton]
      exact ⟨noConstant, noKeyframe⟩

theorem HoldsClasses.exists_classText {text : Text} {classes : List ClassBlock}
    (holds : HoldsClasses text classes) :
    ∃ classText : ClassText, classText.text = text ∧ classText.classes = classes := by
  obtain ⟨unmarked, noHeader, reads⟩ := parse_eq_ok_of_classes holds.parses
  obtain ⟨parts, noLine, isText, areClasses, distinct, _⟩ := exists_parts_of_readClasses reads
  rw [← isText] at unmarked noHeader
  rw [← areClasses] at distinct
  refine ⟨{ parts, noLine, plain := ?_, distinct, unmarked, noHeader }, isText, areClasses⟩
  intro part isPart
  cases part with
  | ofClass written =>
      apply holds.plain { name := written.name, body := written.body }
      rw [← areClasses]
      exact List.mem_filterMap.mpr ⟨_, isPart, rfl⟩
  | blanks text areBlanks => rfl
  | line text isLine starts =>
      have notLine := noLine _ isPart
      simp [Part.isLine] at notLine

end Source

theorem isBlank_of_isIndent {c : CodePoint} (isIndent : (c == ' ' || c == '\t') = true) :
    isBlank c = true := by
  rw [Bool.or_eq_true, beq_iff_eq, beq_iff_eq] at isIndent
  rcases isIndent with rfl | rfl
  · decide
  · decide

theorem Text.isBlank_or_mem_trim {text : Text} {c : CodePoint} (isChar : c ∈ text) :
    isBlank c = true ∨ c ∈ trim text := by
  obtain ⟨left, right, isText, areBlankLeft, areBlank⟩ := trim_append text
  rw [isText, List.mem_append, List.mem_append] at isChar
  rcases isChar with inLeft | inTrimmed | inRight
  · exact Or.inl (areBlankLeft c inLeft)
  · exact Or.inr inTrimmed
  · exact Or.inl (areBlank c inRight)

/-- What a line is like that spells a directive. -/
theorem Directive.eq_of_read? {line : Text} {directive : Directive}
    (found : read? line = some directive) :
    ∃ indent after : Text, line = indent ++ .char '@' :: (directive.name ++ after) ∧
      (∀ c ∈ indent, (c == ' ' || c == '\t') = true) ∧ (∀ c ∈ directive.name, isNameChar c = true) ∧
      ∀ c ∈ after, isBlank c = true ∨ c ∈ directive.value := by
  unfold read? at found
  split at found
  · next written isWritten =>
    have isLine : line = line.takeWhile (fun (c : CodePoint) => c == ' ' || c == '\t') ++
        .char '@' :: (written.takeWhile isNameChar ++ written.dropWhile isNameChar) := by
      rw [List.takeWhile_append_dropWhile, ← isWritten, List.takeWhile_append_dropWhile]
    have isIndent : ∀ c ∈ line.takeWhile (fun (c : CodePoint) => c == ' ' || c == '\t'),
        (c == ' ' || c == '\t') = true := fun c => List.mem_takeWhile_imp
    have areNames : ∀ c ∈ written.takeWhile isNameChar, isNameChar c = true :=
      fun c => List.mem_takeWhile_imp
    simp only at found
    split at found
    · simp at found
    · split at found
      · next noMore =>
        rw [← Option.some.inj found]
        exact ⟨_, [], by rwa [noMore] at isLine, isIndent, areNames, by simp⟩
      · next first rest isMore =>
        split at found
        · next isSpace =>
          rw [← Option.some.inj found]
          refine ⟨_, first :: rest, by rwa [isMore] at isLine, isIndent, areNames, ?_⟩
          rw [List.forall_mem_cons]
          exact ⟨Or.inl (isBlank_of_isIndent isSpace), fun c => Text.isBlank_or_mem_trim⟩
        · simp at found
  · simp at found

theorem Directive.isNameChar_of_isScopeValue {value : Text} (isValue : isScopeValue value = true) :
    ∀ c ∈ value, isNameChar c = true ∨ isAsciiNameChar c = true := by
  rw [isScopeValue, Bool.or_eq_true, Bool.and_eq_true, beq_iff_eq, List.all_eq_true] at isValue
  intro c isChar
  rcases isValue with rfl | isName
  · left
    revert c
    decide
  · exact Or.inr (isName.2 c isChar)

namespace Source

/-- A line that declares the scope, with its line feed. -/
def IsScopeLine (text : Text) : Prop :=
  ∃ line value, text = line ++ [.char '\n'] ∧ (∀ c ∈ line, isLineBreak c = false) ∧
    Directive.read? line = some { name := "scope", value } ∧ Directive.isScopeValue value = true

namespace IsScopeLine

variable {header : Text}

theorem exists_ofLine? (isLine : IsScopeLine header) :
    ∃ value, Directive.ofLine? header = some { name := "scope", value } ∧
      Directive.isScopeValue value = true := by
  obtain ⟨line, value, rfl, noBreak, spells, isValue⟩ := isLine
  refine ⟨value, ?_, isValue⟩
  rw [Directive.ofLine?, splitLineEnd_line noBreak]
  exact spells

theorem mem (isLine : IsScopeLine header) {c : CodePoint} (isChar : c ∈ header) :
    isBlank c = true ∨ c = '@' ∨ isNameChar c = true ∨ isAsciiNameChar c = true := by
  obtain ⟨line, value, rfl, noBreak, spells, isValue⟩ := isLine
  obtain ⟨indent, after, rfl, isIndent, isName, isAfter⟩ := Directive.eq_of_read? spells
  simp only [List.mem_append, List.mem_cons, List.not_mem_nil, or_false] at isChar
  rcases isChar with (inIndent | isAt | inName | inAfter) | rfl
  · exact Or.inl (isBlank_of_isIndent (isIndent c inIndent))
  · exact Or.inr (Or.inl isAt)
  · exact Or.inr (Or.inr (Or.inl (isName c inName)))
  · rcases isAfter c inAfter with isBlankChar | inValue
    · exact Or.inl isBlankChar
    · exact Or.inr (Or.inr (Directive.isNameChar_of_isScopeValue isValue c inValue))
  · exact Or.inl (by decide)

theorem unmarked (isLine : IsScopeLine header) : Reference.Unmarked header := by
  intro c isChar
  constructor
  · rintro rfl
    exact absurd (isLine.mem isChar) (by decide +kernel)
  · rintro rfl
    exact absurd (isLine.mem isChar) (by decide +kernel)

theorem noBrace (isLine : IsScopeLine header) : .char '{' ∉ header ∧ .char '}' ∉ header :=
  ⟨fun isBrace => absurd (isLine.mem isBrace) (by decide),
    fun isBrace => absurd (isLine.mem isBrace) (by decide)⟩

/-- Constants and keyframes are looked for after the line. -/
theorem findHeader?_append (isLine : IsScopeLine header) {kind : Text} (isKind : kind ∈ blockKinds)
    {rest : Text} (noHeader : findHeader? (.char '@' :: kind) true rest = none) :
    findHeader? (.char '@' :: kind) true (header ++ rest) = none := by
  obtain ⟨line, value, rfl, noBreak, spells, isValue⟩ := isLine
  obtain ⟨indent, after, isText, isIndent, _, _⟩ := Directive.eq_of_read? spells
  have notKeyword : ∀ more : Text,
      Text.dropBeginning? (.char '@' :: kind) (.char '@' :: ("scope" ++ more)) = none := by
    intro more
    simp only [blockKinds, List.mem_cons, List.not_mem_nil, or_false] at isKind
    rcases isKind with rfl | rfl <;> rfl
  have noHeaderHere : readHeader? (.char '@' :: kind) (line ++ .char '\n' :: rest) = none := by
    rw [isText, List.append_assoc, List.cons_append, List.append_assoc]
    refine readHeader?_eq_none_of_indent isIndent ?_ (notKeyword _)
    rintro c ⟨⟩
    decide
  rw [List.append_assoc, List.singleton_append]
  cases line with
  | nil => simp at isText
  | cons c line =>
      rw [List.forall_mem_cons] at noBreak
      have notFeed : (c == '\n') = false := by
        rw [beq_eq_false_iff_ne]
        rintro rfl
        exact absurd noBreak.1 (by decide)
      have noFeed : .char '\n' ∉ line := fun isFeed => absurd (noBreak.2 _ isFeed) (by decide)
      rw [List.cons_append, findHeader?_cons_eq_none_iff, notFeed,
        findHeader?_append_of_noFeed noFeed, Option.map_eq_none_iff, findHeader?_cons_eq_none_iff]
      exact ⟨fun _ => noHeaderHere, by simp, noHeader⟩

end IsScopeLine

/-! ## Classes after a scope -/

theorem areLines_of_noLine {parts : List Part} (noLine : ∀ part ∈ parts, part.isLine = false)
    (before : Text) : areLines before parts = true := by
  induction parts generalizing before with
  | nil => rfl
  | cons part parts ih =>
      rw [List.forall_mem_cons] at noLine
      simp [areLines, noLine.1, ih noLine.2]

theorem directive?_of_noLine {part : Part} (noLine : part.isLine = false) :
    part.directive? = none := by
  cases part with
  | ofClass written => rfl
  | blanks text areBlanks => rfl
  | line text isLine starts => simp [Part.isLine] at noLine

namespace ClassText

/-- Directives are taken from what stands before the classes, and from nothing else. -/
theorem takeAll_append (classText : ClassText) {front : List Part}
    (lineParts : areLines [] (front ++ classText.parts) = true)
    (plain : ∀ part ∈ front, part.isPlain = true)
    (legal : ∀ directive ∈ front.filterMap Part.directive?, directive.isLegal = true)
    (oneScope : (front.filterMap Part.directive?).countP Directive.isScope ≤ 1) :
    Directive.takeAll (front.flatMap Part.text ++ classText.text) =
      .ok (front.flatMap Part.remaining ++ classText.text, front.filterMap Part.directive?) := by
  let layout : Layout := ⟨front ++ classText.parts, lineParts⟩
  have areDirectives : layout.directives = front.filterMap Part.directive? := by
    have noDirective : classText.parts.filterMap Part.directive? = [] := by
      rw [List.filterMap_eq_nil_iff]
      exact fun part isPart => directive?_of_noLine (classText.noLine part isPart)
    rw [Layout.directives, List.filterMap_append, noDirective, List.append_nil]
  have remains : layout.remaining = front.flatMap Part.remaining ++ classText.text := by
    rw [Layout.remaining, List.flatMap_append]
    congr 1
    apply List.flatMap_congr
    intro part isPart
    rw [Part.remaining, directive?_of_noLine (classText.noLine part isPart), Directive.keep]
  have counts : layout.CountsBraces :=
    Layout.countsBraces_of_isPlain (List.forall_mem_append.mpr ⟨plain, classText.plain⟩)
  rw [← areDirectives] at legal oneScope
  have taken := Layout.takeAll_text counts legal oneScope
  rwa [remains, areDirectives, Layout.text, List.flatMap_append] at taken

theorem takeAll_header {header : Text} (isHeader : header = [] ∨ IsScopeLine header)
    (classText : ClassText) :
    ∃ blanks : Text, (∀ c ∈ blanks, isBlank c = true) ∧
      Directive.takeAll (header ++ classText.text) =
        .ok (blanks ++ classText.text, (Directive.ofLine? header).toList) := by
  rcases isHeader with rfl | isLine
  · have lineParts : areLines [] ([] ++ classText.parts) = true :=
      areLines_of_noLine classText.noLine []
    exact ⟨[], by simp, classText.takeAll_append lineParts (by simp) (by simp) (by simp)⟩
  · obtain ⟨value, spells, isValue⟩ := isLine.exists_ofLine?
    have starts : Directive.StartsWithAt header :=
      Directive.startsWithAt_of_ofLine? (by rw [spells]; rfl)
    obtain ⟨line, _, isText, noBreak, _⟩ := id isLine
    have isOne : Text.linesWithBreaks header = [header] := by
      rw [isText, linesWithBreaks_line noBreak]
    have lineParts : areLines [] ([.line header isOne starts] ++ classText.parts) = true := by
      have starts : Text.endsLine [] header = true := rfl
      have ends : Text.endsLine header (classText.parts.flatMap Part.text) = true := by
        rw [isText]
        exact Text.endsLine_lineFeed line _
      rw [List.singleton_append, areLines, areLines_of_noLine classText.noLine]
      simp [Part.text, starts, ends]
    have taken := classText.takeAll_append lineParts
      (by simpa [Part.isPlain] using isLine.noBrace)
      (by simp [Part.directive?, spells, Directive.isLegal, isValue])
      (by simp [Part.directive?, spells, Directive.isScope])
    have remains : Part.remaining (.line header isOne starts) = [.char '\n'] := by
      rw [Part.remaining, Part.directive?, spells, Directive.keep, Part.text, isText,
        splitLineEnd_line noBreak]
    refine ⟨[.char '\n'], isBlank_lineFeed, ?_⟩
    simpa [Part.text, Part.directive?, remains, spells] using taken

/-- The classes are read as they are, alone or after a line that declares the scope. -/
theorem parse_header {header : Text} (isHeader : header = [] ∨ IsScopeLine header)
    (classText : ClassText) :
    parse (header ++ classText.text) = .ok
      { constants := []
        keyframes := []
        directives := (Directive.ofLine? header).toList
        classes := classText.classes } := by
  have unmarked : Reference.hasMarker (header ++ classText.text) = false := by
    rw [Reference.hasMarker_eq_false_iff]
    simp only [Text.madeOf_append]
    refine ⟨?_, Reference.hasMarker_eq_false_iff.mp classText.unmarked⟩
    rcases isHeader with rfl | isLine
    · simp
    · exact isLine.unmarked
  have noHeader : ∀ kind ∈ blockKinds,
      findHeader? (.char '@' :: kind) true (header ++ classText.text) = none := by
    intro kind isKind
    rcases isHeader with rfl | isLine
    · exact classText.noHeader kind isKind
    · exact isLine.findHeader?_append isKind (classText.noHeader kind isKind)
  obtain ⟨blanks, areBlanks, taken⟩ := takeAll_header isHeader classText
  have noConstant : cutBlocks "const" [] (header ++ classText.text) =
      .ok (header ++ classText.text, []) :=
    cutBlocks_eq_ok_nil_iff.mpr ⟨noHeader "const" (by decide), rfl⟩
  have noKeyframe : cutBlocks "keyframe" [] (header ++ classText.text) =
      .ok (header ++ classText.text, []) :=
    cutBlocks_eq_ok_nil_iff.mpr ⟨noHeader "keyframe" (by decide), rfl⟩
  have reads : readClasses 1 [] (blanks ++ classText.text) = .ok classText.classes := by
    rw [readClasses_append areBlanks]
    exact readClasses_parts classText.noLine _ classText.distinct (by simp)
  rw [parse, unmarked]
  simp [noConstant, noKeyframe, taken, reads, bind, Except.bind, pure, Except.pure]

end ClassText

end Source

end TerseStyle

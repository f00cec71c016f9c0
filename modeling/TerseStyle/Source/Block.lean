import TerseStyle.Scan.Brace

/-!
# Cutting named blocks out of a source

Constants and keyframes are blocks `@kind name { body }` whose header starts a line. `cutBlocks`
takes them out of a text one after the other and leaves their line feeds behind, so that what
remains keeps its line numbers. After each cut the search starts again at the top: a cut can bring
together a header that was interrupted before.
-/

namespace TerseStyle

namespace Source

/-- The header of a named block and the text after its opening brace. -/
structure Header where
  /-- The name of the block. -/
  name : Text
  /-- The text of the header, including the brace. -/
  written : Text
  /-- The text after the brace. -/
  rest : Text
  deriving Repr, DecidableEq

/-- The text before the opening brace of a block after its name: blanks only. -/
def skipToBrace? (text : Text) : Option (Text × Text) :=
  match text.dropWhile isBlank with
  | .char '{' :: rest => some (text.takeWhile isBlank ++ [CodePoint.char '{'], rest)
  | _ => none

/-- The header that a line begins with. -/
def readHeader? (keyword text : Text) : Option Header :=
  let isIndent := fun (c : CodePoint) => c == ' ' || c == '\t'
  let indent := text.takeWhile isIndent
  match Text.dropBeginning? keyword (text.dropWhile isIndent) with
  | none => none
  | some afterKeyword =>
    let gap := afterKeyword.takeWhile isBlank
    let afterGap := afterKeyword.dropWhile isBlank
    let name := afterGap.takeWhile isNameChar
    if gap.isEmpty || name.isEmpty then none
    else
      (skipToBrace? (afterGap.dropWhile isNameChar)).map fun (toBrace, rest) =>
        { name, written := indent ++ keyword ++ gap ++ name ++ toBrace, rest }

/-- The first header in a text and the text before it. A header starts a line. -/
def findHeader? (keyword : Text) (atLineStart : Bool) : Text → Option (Text × Header)
  | [] => none
  | c :: rest =>
    let onwards := (findHeader? keyword (c == '\n') rest).map fun (before, header) =>
      (c :: before, header)
    if atLineStart then
      match readHeader? keyword (c :: rest) with
      | some header => some ([], header)
      | none => onwards
    else onwards

/-- A block that was cut out of a source. -/
structure NamedBlock where
  /-- The name of the block. -/
  name : Text
  /-- The text between its braces. -/
  body : Text
  /-- The line of its header. -/
  line : Nat
  deriving Repr, DecidableEq

/-- The line feeds of a text and nothing else. -/
def blank (text : Text) : Text :=
  List.replicate (Text.lineFeeds text) (CodePoint.char '\n')

theorem length_blank_le (text : Text) : (blank text).length ≤ text.length := by
  simp only [blank, List.length_replicate, Text.lineFeeds]
  exact List.count_le_length

theorem skipToBrace?_eq_some {text written rest : Text}
    (found : skipToBrace? text = some (written, rest)) :
    text = written ++ rest ∧
      ∃ gap : Text, (∀ c ∈ gap, isBlank c = true) ∧ written = gap ++ [CodePoint.char '{'] := by
  simp only [skipToBrace?] at found
  split at found
  · next inside blanksEnd =>
    simp only [Option.some.injEq, Prod.mk.injEq] at found
    refine ⟨?_, text.takeWhile isBlank, List.all_eq_true.mp List.all_takeWhile, found.1.symm⟩
    rw [← found.1, ← found.2, List.append_assoc, List.singleton_append, ← blanksEnd,
      List.takeWhile_append_dropWhile]
  · simp at found

theorem readHeader?_eq_some {keyword text : Text} {header : Header}
    (found : readHeader? keyword text = some header) :
    text = header.written ++ header.rest ∧ ∀ c ∈ header.name, c ∈ header.written := by
  simp only [readHeader?] at found
  split at found
  · simp at found
  · next afterKeyword keywordAt =>
    split at found
    · simp at found
    · obtain ⟨⟨toBrace, rest⟩, braceAt, same⟩ := Option.map_eq_some_iff.mp found
      have isKeyword := Text.dropBeginning?_eq_some keywordAt
      have isRest := (skipToBrace?_eq_some braceAt).1
      rw [← same]
      refine ⟨?_, fun c isChar => by simp [isChar]⟩
      simp only [List.append_assoc]
      rw [← isRest, List.takeWhile_append_dropWhile, List.takeWhile_append_dropWhile, ← isKeyword,
        List.takeWhile_append_dropWhile]

theorem findHeader?_eq_some {keyword : Text} {atLineStart : Bool} {text before : Text}
    {header : Header} (found : findHeader? keyword atLineStart text = some (before, header)) :
    text = before ++ header.written ++ header.rest ∧ ∀ c ∈ header.name, c ∈ header.written := by
  induction text generalizing atLineStart before with
  | nil => simp [findHeader?] at found
  | cons c rest ih =>
      have later : ((findHeader? keyword (c == '\n') rest).map fun found =>
          (c :: found.1, found.2)) = some (before, header) →
          c :: rest = before ++ header.written ++ header.rest ∧
            ∀ c ∈ header.name, c ∈ header.written := by
        intro mapped
        obtain ⟨⟨inner, innerHeader⟩, innerFound, same⟩ := Option.map_eq_some_iff.mp mapped
        simp only [Prod.mk.injEq] at same
        rw [same.2] at innerFound
        obtain ⟨isRest, isName⟩ := ih innerFound
        rw [← same.1, isRest]
        exact ⟨rfl, isName⟩
      simp only [findHeader?] at found
      split at found
      · split at found
        · next headerAt =>
          simp only [Option.some.injEq, Prod.mk.injEq] at found
          rw [← found.1, ← found.2]
          exact readHeader?_eq_some headerAt
        · exact later found
      · exact later found

/-- Cuts all blocks of a kind out of a text: the text that remains and the blocks in the order in
which they are found. No two blocks of a kind have the same name. -/
def cutBlocks (kind : Text) (seen : List Text) (text : Text) :
    Except Error (Text × List NamedBlock) :=
  match _found : findHeader? (.char '@' :: kind) true text with
  | none => .ok (text, [])
  | some (before, header) =>
    let line := Text.lineFeeds before + 1
    if header.name ∈ seen then
      .error { cause := .duplicateBlock kind header.name, line := some line }
    else
      match _closed : Brace.readBody (line + Text.lineFeeds header.written) header.rest with
      | .error error => .error error
      | .ok (body, after) =>
        (cutBlocks kind (header.name :: seen)
          (before ++ blank header.written ++ blank body ++ after)).map fun (remaining, blocks) =>
            (remaining, { name := header.name, body, line } :: blocks)
termination_by text.length
decreasing_by
  have := congrArg List.length (findHeader?_eq_some _found).1
  have := Brace.length_readBody _closed
  have := length_blank_le header.written
  have := length_blank_le body
  simp only [List.length_append] at *
  omega

end Source

end TerseStyle

import TerseStyle.Query.Tree
import TerseStyle.Reference
import TerseStyle.Scan.Statement
import TerseStyle.Source.Block
import TerseStyle.Source.Directive

/-!
# Sources

A source is a sequence of constants, keyframes, directives and classes, in any order. Constants are
cut out first, then keyframes, then directives; what remains must be classes and blanks.
-/

namespace TerseStyle

/-- A constant: a named list of statements. -/
structure ConstantBlock where
  name : Text
  statements : List Text
  deriving Repr, DecidableEq

/-- A keyframe with its body. -/
structure KeyframeBlock where
  name : Text
  body : Text
  deriving Repr, DecidableEq

/-- A class with its body. -/
structure ClassBlock where
  name : Text
  body : Text
  deriving Repr, DecidableEq

/-- The blocks and directives of a source, each kind in source order. -/
structure Source where
  constants : List ConstantBlock
  keyframes : List KeyframeBlock
  directives : List Directive
  classes : List ClassBlock
  deriving Repr, DecidableEq

namespace Source

/-- The statements of a constant, which holds no query and no braces. -/
def constant (block : NamedBlock) : Except Error ConstantBlock :=
  if (Query.splitAtQuery? block.body).isSome then
    .error { cause := .queryInConstant block.name, line := some block.line }
  else if CodePoint.char '{' ∈ block.body ∨ CodePoint.char '}' ∈ block.body then
    .error { cause := .blockInConstant block.name, line := some block.line }
  else (statements block.body).map fun statements => { name := block.name, statements }

/-- The header of a class: a dot, an identifier that may go on with any name characters, and an
opening brace. -/
def readClassHeader? (text : Text) : Option Header :=
  match text with
  | .char '.' :: afterDot =>
    let (hyphen, afterHyphen) : Text × Text :=
      match afterDot with
      | .char '-' :: rest => ([.char '-'], rest)
      | rest => ([], rest)
    match afterHyphen with
    | first :: rest =>
      if isIdentifierStart first then
        let name := hyphen ++ first :: rest.takeWhile isNameChar
        (skipToBrace? (rest.dropWhile isNameChar)).map fun (toBrace, rest) =>
          { name, written := .char '.' :: name ++ toBrace, rest }
      else none
    | [] => none
  | _ => none

theorem readClassHeader?_eq_some {text : Text} {header : Header}
    (found : readClassHeader? text = some header) :
    text = header.written ++ header.rest ∧
      (∃ gap : Text, (∀ c ∈ gap, isBlank c = true) ∧
        header.written = CodePoint.char '.' :: (header.name ++ gap) ++ [CodePoint.char '{']) ∧
      ∃ first rest, isIdentifierStart first = true ∧ rest.all isNameChar = true ∧
        (header.name = CodePoint.char '-' :: first :: rest ∨ header.name = first :: rest) := by
  unfold readClassHeader? at found
  split at found
  · next afterDot =>
    simp only at found
    split at found
    · next first rest afterHyphen =>
      split at found
      · next isStart =>
        obtain ⟨⟨toBrace, inside⟩, braceAt, same⟩ := Option.map_eq_some_iff.mp found
        obtain ⟨isRest, gap, areBlanks, isGap⟩ := skipToBrace?_eq_some braceAt
        have isAfter : first :: rest = first :: rest.takeWhile isNameChar ++ toBrace ++ inside := by
          rw [List.cons_append, List.cons_append, List.append_assoc, ← isRest,
            List.takeWhile_append_dropWhile]
        rw [← same]
        refine ⟨?_, ⟨gap, areBlanks, by simp [isGap]⟩, first, rest.takeWhile isNameChar, isStart,
          List.all_takeWhile, ?_⟩
        · split at afterHyphen
          · next hyphenated =>
            have isHyphenated : hyphenated = first :: rest := afterHyphen
            rw [isHyphenated, isAfter]
            simp
          · have isPlain : afterDot = first :: rest := afterHyphen
            rw [isPlain, isAfter]
            simp
        · split
          · exact Or.inl rfl
          · exact Or.inr rfl
      · simp at found
    · simp at found
  · simp at found

/-- The classes of a text that starts on the given line. -/
def readClasses (line : Nat) (seen : List Text) (text : Text) : Except Error (List ClassBlock) :=
  let start := text.dropWhile isBlank
  let line := line + Text.lineFeeds (text.takeWhile isBlank)
  if start.isEmpty then .ok []
  else
    match _found : readClassHeader? start with
    | none =>
      let excerpt := Text.trim ((Text.lines start).headD [])
      .error { cause := .strayText excerpt, line := some line }
    | some header =>
      if header.name ∈ seen then
        .error { cause := .duplicateClass header.name, line := some line }
      else
        let line := line + Text.lineFeeds header.written
        match _closed : Brace.readBody line header.rest with
        | .error error => .error error
        | .ok (body, after) =>
          (readClasses (line + Text.lineFeeds body) (header.name :: seen) after).map fun classes =>
            { name := header.name, body } :: classes
termination_by text.length
decreasing_by
  have parts := congrArg List.length (readClassHeader?_eq_some _found).1
  have := Brace.length_readBody _closed
  have : start.length ≤ text.length := (List.dropWhile_sublist isBlank (l := text)).length_le
  rw [List.length_append] at parts
  omega

/-- Reads a source. -/
def parse (text : Text) : Except Error Source := do
  if Reference.hasMarker text then throw { cause := .reservedInSource }
  let (text, constantBlocks) ← cutBlocks "const" [] text
  let constants ← constantBlocks.mapM constant
  let (text, keyframeBlocks) ← cutBlocks "keyframe" [] text
  let (text, directives) ← Directive.takeAll text
  let classes ← readClasses 1 [] text
  return {
    constants
    keyframes := keyframeBlocks.map fun block => { name := block.name, body := block.body }
    directives
    classes }

/-- The scope of the source. -/
def scope (source : Source) : Text :=
  Directive.scope source.directives

end Source

end TerseStyle

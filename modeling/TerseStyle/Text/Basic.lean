import TerseStyle.Text.Class

/-!
# Text

Text is a list of code points. Every pass of the compiler scans text, cuts it and joins it again,
and on lists all of that is recursion on the data. Positions and lengths count code points.
-/

namespace TerseStyle

/-- Text as a list of code points. -/
abbrev Text := List CodePoint

instance : LawfulBEq Text := inferInstance

namespace Text

/-- The text of characters. -/
def ofChars (chars : List Char) : Text :=
  chars.map .char

/-- The text of a string. -/
def ofString (string : String) : Text :=
  ofChars string.toList

/-- The characters of a literal are at hand, so that none of them needs to be decoded. -/
theorem ofString_ofList (chars : List Char) : ofString (String.ofList chars) = ofChars chars := by
  rw [ofString, String.toList_ofList]

/-- A natural number in decimal digits. -/
def ofNat (number : Nat) : Text :=
  ofChars (Nat.toDigits 10 number)

/-- An integer in decimal digits, with a sign if it is negative. -/
def ofInt (number : Int) : Text :=
  if number < 0 then .char '-' :: ofNat number.natAbs else ofNat number.natAbs

end Text

instance : Coe String Text := ⟨Text.ofString⟩

namespace Text

/-- The text without the blanks at its end. -/
def trimRight (text : Text) : Text :=
  (text.reverse.dropWhile isBlank).reverse

/-- The text without the blanks at either end. -/
def trim (text : Text) : Text :=
  trimRight (text.dropWhile isBlank)

/-- The maximal runs of characters that are not blank. -/
def words (text : Text) : List Text :=
  (text.splitOnP isBlank).filter fun word => !word.isEmpty

/-- The texts in order with a separator between neighbours. -/
def joinWith (separator : Text) : List Text → Text
  | [] => []
  | [text] => text
  | text :: next :: rest => text ++ separator ++ joinWith separator (next :: rest)

/-- The words of the text with one space between neighbours. -/
def collapse (text : Text) : Text :=
  joinWith [' '] (words text)

/-- Lines with the breaks that end them. A carriage return and the line feed after it are one
break, and a break at the very end starts no further line. -/
def linesWithBreaks : Text → List Text
  | [] => []
  | .char '\r' :: .char '\n' :: rest => ['\r', '\n'] :: linesWithBreaks rest
  | c :: rest =>
    if isLineBreak c then
      [c] :: linesWithBreaks rest
    else
      match linesWithBreaks rest with
      | [] => [[c]]
      | line :: more => (c :: line) :: more

/-- Lines without the breaks that end them. -/
def lines (text : Text) : List Text :=
  (linesWithBreaks text).map fun line => line.takeWhile fun (c : CodePoint) => !isLineBreak c

/-- The number of line feeds. Line numbers count these and no other break. -/
def lineFeeds (text : Text) : Nat :=
  text.count (.char '\n')

/-- Whether a text occurs somewhere inside another. -/
def occursIn (part : Text) : Text → Bool
  | [] => part.isEmpty
  | c :: rest => part.isPrefixOf (c :: rest) || occursIn part rest

/-- What follows the given beginning, if the text begins with it. -/
def dropBeginning? : Text → Text → Option Text
  | [], text => some text
  | _ :: _, [] => none
  | p :: beginning, c :: text => if p = c then dropBeginning? beginning text else none

theorem dropBeginning?_eq_some {beginning text after : Text}
    (found : dropBeginning? beginning text = some after) : text = beginning ++ after := by
  induction beginning generalizing text with
  | nil => simpa [dropBeginning?] using found
  | cons first beginning ih =>
      cases text with
      | nil => simp [dropBeginning?] at found
      | cons c text =>
          simp only [dropBeginning?] at found
          split at found
          · next same => rw [same, List.cons_append, ← ih found]
          · simp at found

/-- Every occurrence of a character replaced by a text. -/
def replaceChar (old : CodePoint) (new text : Text) : Text :=
  text.flatMap fun c => if c = old then new else [c]

/-- The text before the first occurrence of a character and the text after it. -/
def splitAtChar? (separator : CodePoint) : Text → Option (Text × Text)
  | [] => none
  | c :: rest =>
    if c = separator then some ([], rest)
    else (splitAtChar? separator rest).map fun (before, after) => (c :: before, after)

theorem splitAtChar?_eq_some {separator : CodePoint} {text before after : Text}
    (found : splitAtChar? separator text = some (before, after)) :
    text = before ++ separator :: after := by
  induction text generalizing before with
  | nil => simp [splitAtChar?] at found
  | cons c rest ih =>
      simp only [splitAtChar?] at found
      split at found
      · next same =>
        simp only [Option.some.injEq, Prod.mk.injEq] at found
        rw [← found.1, ← found.2, same, List.nil_append]
      · obtain ⟨⟨inner, innerAfter⟩, innerFound, same⟩ := Option.map_eq_some_iff.mp found
        simp only [Prod.mk.injEq] at same
        rw [same.2] at innerFound
        rw [← same.1, List.cons_append, ← ih innerFound]

theorem length_splitAtChar? {separator : CodePoint} {text before after : Text}
    (found : splitAtChar? separator text = some (before, after)) :
    before.length + after.length + 1 = text.length := by
  rw [splitAtChar?_eq_some found, List.length_append, List.length_cons, Nat.add_assoc]

/-- Alphabetical order by code point. -/
def le (left right : Text) : Bool :=
  !decide (right < left)

/-- The texts in alphabetical order. -/
def sort (texts : List Text) : List Text :=
  texts.mergeSort le

end Text

end TerseStyle

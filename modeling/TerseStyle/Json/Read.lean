import TerseStyle.Json.Basic
import TerseStyle.OrderedMap

/-!
# Reading JSON

A reader of JSON documents that says what it missed and where. Besides the standard it accepts
`NaN`, `Infinity` and `-Infinity`. Of members with the same name the last one counts, at the place
of the first.
-/

namespace TerseStyle

namespace Json

/-- What a document lacks. -/
inductive Fault where
  | byteOrderMark
  | value
  | propertyName
  | colon
  | comma
  | extraData
  | unterminatedString
  | controlCharacter
  | escape
  | unicodeEscape
  deriving Repr, DecidableEq

/-- The wording of a fault. -/
def Fault.message : Fault → Text
  | byteOrderMark => "Unexpected UTF-8 BOM (decode using utf-8-sig)"
  | value => "Expecting value"
  | propertyName => "Expecting property name enclosed in double quotes"
  | colon => "Expecting ':' delimiter"
  | comma => "Expecting ',' delimiter"
  | extraData => "Extra data"
  | unterminatedString => "Unterminated string starting at"
  | controlCharacter => "Invalid control character at"
  | escape => "Invalid \\escape"
  | unicodeEscape => "Invalid \\uXXXX escape"

/-- Why a document cannot be read. -/
inductive Failure where
  /-- A fault, and the text from the place of the fault on. -/
  | fault (fault : Fault) (rest : Text)
  /-- An integer with too many digits. -/
  | longInteger
  /-- Lists and objects inside each other beyond the limit. -/
  | deepNesting
  deriving Repr, DecidableEq

/-- The text after blanks. -/
def skipBlanks (text : Text) : Text :=
  text.dropWhile fun (c : CodePoint) => c == ' ' || c == '\t' || c == '\n' || c == '\r'

/-- The value of a hexadecimal digit. -/
def hexDigit? (c : CodePoint) : Option Nat :=
  let n := c.toNat
  if 48 ≤ n ∧ n ≤ 57 then some (n - 48)
  else if 97 ≤ n ∧ n ≤ 102 then some (n - 87)
  else if 65 ≤ n ∧ n ≤ 70 then some (n - 55)
  else none

/-- The number that four hexadecimal digits spell. -/
def hexNumber? (a b c d : CodePoint) : Option Nat := do
  return 4096 * (← hexDigit? a) + 256 * (← hexDigit? b) + 16 * (← hexDigit? c) + (← hexDigit? d)

/-- The character of an escape of one letter. -/
def simpleEscape? : CodePoint → Option Char
  | .char '"' => some '"'
  | .char '\\' => some '\\'
  | .char '/' => some '/'
  | .char 'b' => some '\x08'
  | .char 'f' => some '\x0c'
  | .char 'n' => some '\n'
  | .char 'r' => some '\r'
  | .char 't' => some '\t'
  | _ => none

/-- A unit of a string: a code point as it stands, or the number of a `\u` escape. -/
inductive StringUnit where
  | point (c : CodePoint)
  | code (number : Nat)
  deriving Repr, DecidableEq

/-- Puts a unit before those that were read after it. -/
def addUnit (unit : StringUnit) (reading : List StringUnit × Text) : List StringUnit × Text :=
  (unit :: reading.1, reading.2)

/-- The units of a string up to its closing quotation mark. The text from the opening mark on is
given for the message that the string never ends. -/
def readUnits (opening : Text) : Text → Except Failure (List StringUnit × Text)
  | [] => .error (.fault .unterminatedString opening)
  | .char '"' :: rest => .ok ([], rest)
  | [.char '\\'] => .error (.fault .unterminatedString opening)
  | .char '\\' :: .char 'u' :: a :: b :: c :: d :: e :: rest =>
    match hexNumber? a b c d with
    | none => .error (.fault .unicodeEscape opening)
    | some number => (readUnits opening (e :: rest)).map (addUnit (.code number))
  | .char '\\' :: c :: rest =>
    if c = 'u' then .error (.fault .unicodeEscape opening)
    else
      match simpleEscape? c with
      | none => .error (.fault .escape opening)
      | some escaped => (readUnits opening rest).map (addUnit (.point escaped))
  | c :: rest =>
    if c.toNat ≤ 0x1f then .error (.fault .controlCharacter opening)
    else (readUnits opening rest).map (addUnit (.point c))

/-- Whether a number is the first half of a pair. -/
def isHighHalf (number : Nat) : Bool :=
  0xd800 ≤ number && number ≤ 0xdbff

/-- Whether a number is the second half of a pair. -/
def isLowHalf (number : Nat) : Bool :=
  0xdc00 ≤ number && number ≤ 0xdfff

/-- The text of a string: neighbouring halves of a pair are one character, and a half without the
other is a code point of its own. -/
def joinUnits : List StringUnit → Text
  | [] => []
  | .code high :: .code low :: rest =>
    if isHighHalf high && isLowHalf low then
      .ofNat (0x10000 + 1024 * (high - 0xd800) + (low - 0xdc00)) :: joinUnits rest
    else .ofNat high :: joinUnits (.code low :: rest)
  | .code number :: rest => CodePoint.ofNat number :: joinUnits rest
  | .point c :: rest => c :: joinUnits rest

/-- Reads a string after its opening quotation mark. -/
def readString (text : Text) : Except Failure (Text × Text) :=
  (readUnits (.char '"' :: text) text).map fun (units, rest) => (joinUnits units, rest)

/-- The digits that a text begins with, and the text after them. -/
def spanDigits (text : Text) : Text × Text :=
  (text.takeWhile isAsciiDigit, text.dropWhile isAsciiDigit)

/-- The number that ASCII digits spell. -/
def natOfDigits (digits : Text) : Nat :=
  digits.foldl (fun value digit => 10 * value + (digit.toNat - 48)) 0

/-- The digits after a decimal point, and the text after them; without a digit there is no
fraction. -/
def spanFraction (text : Text) : Text × Text :=
  match text with
  | .char '.' :: rest => if (spanDigits rest).1.isEmpty then ([], text) else spanDigits rest
  | _ => ([], text)

/-- An exponent, and the text after it; without a digit there is no exponent. -/
def spanExponent (text : Text) : Option Int × Text :=
  match text with
  | mark :: rest =>
    if mark = 'e' ∨ mark = 'E' then
      let (negative, unsigned) : Bool × Text :=
        match rest with
        | .char '-' :: unsigned => (true, unsigned)
        | .char '+' :: unsigned => (false, unsigned)
        | unsigned => (false, unsigned)
      let (digits, after) := spanDigits unsigned
      if digits.isEmpty then (none, text)
      else
        let value : Int := natOfDigits digits
        (some (if negative then -value else value), after)
    else (none, text)
  | [] => (none, text)

/-- The longest integer that may be read. -/
def maxIntegerDigits : Nat := 4300

/-- Reads a number, if the text begins with one. -/
def readNumber? (text : Text) : Option (Except Failure (JsonValue × Text)) :=
  let (negative, unsigned) : Bool × Text :=
    match text with
    | .char '-' :: rest => (true, rest)
    | rest => (false, rest)
  let (digits, afterDigits) : Text × Text :=
    match unsigned with
    | .char '0' :: rest => (['0'], rest)
    | rest => spanDigits rest
  if digits.isEmpty then none
  else
    let (fraction, afterFraction) := spanFraction afterDigits
    let (exponent, after) := spanExponent afterFraction
    if fraction.isEmpty ∧ exponent.isNone then
      if maxIntegerDigits < digits.length then some (.error .longInteger)
      else
        let value : Int := natOfDigits digits
        some (.ok (.scalar (.integer (if negative then -value else value)), after))
    else
      let power := exponent.getD 0 - fraction.length
      let value : Binary64 := .ofDecimal negative (natOfDigits (digits ++ fraction)) power
      some (.ok (.scalar (.real value), after))

/-- The values that are written as a word. -/
def words : List (Text × JsonScalar) :=
  [ ("null", .null), ("true", .bool true), ("false", .bool false), ("NaN", .real .notANumber),
    ("Infinity", .real (.infinite false)), ("-Infinity", .real (.infinite true)) ]

/-- Reads a value that is written as a word or a number. -/
def readPlain (text : Text) : Except Failure (JsonValue × Text) :=
  let word? := words.findSome? fun (word, value) =>
    (Text.dropBeginning? word text).map (JsonValue.scalar value, ·)
  match word? with
  | some result => .ok result
  | none => (readNumber? text).getD (.error (.fault .value text))

mutual

/-- Reads a value. The room says how many lists and objects may still be opened inside each other.
The fuel bounds the number of values and members on the way to any of them. -/
def readValue : Nat → Nat → Text → Except Failure (JsonValue × Text)
  | 0, _, text => .error (.fault .value text)
  | _ + 1, _, .char '"' :: rest => do
    let (text, rest) ← readString rest
    return (.string text, rest)
  | _ + 1, 0, .char '{' :: _ | _ + 1, 0, .char '[' :: _ => .error .deepNesting
  | fuel + 1, room + 1, .char '{' :: rest =>
    match skipBlanks rest with
    | .char '}' :: after => .ok (.object [], after)
    | inside => do
      let (members, after) ← readMembers fuel room inside
      return (.object (OrderedMap.ofList members).entries, after)
  | fuel + 1, room + 1, .char '[' :: rest =>
    match skipBlanks rest with
    | .char ']' :: after => .ok (.array [], after)
    | inside => do
      let (items, after) ← readItems fuel room inside
      return (.array items, after)
  | _ + 1, _, text => readPlain text

/-- Reads the members of an object up to its closing brace. -/
def readMembers : Nat → Nat → Text → Except Failure (List (Text × JsonValue) × Text)
  | 0, _, text => .error (.fault .propertyName text)
  | fuel + 1, room, .char '"' :: rest => do
    let (name, rest) ← readString rest
    match skipBlanks rest with
    | .char ':' :: rest =>
      let (value, rest) ← readValue fuel room (skipBlanks rest)
      match skipBlanks rest with
      | .char '}' :: after => return ([(name, value)], after)
      | .char ',' :: rest =>
        let (members, after) ← readMembers fuel room (skipBlanks rest)
        return ((name, value) :: members, after)
      | other => .error (.fault .comma other)
    | other => .error (.fault .colon other)
  | _ + 1, _, text => .error (.fault .propertyName text)

/-- Reads the items of an array up to its closing bracket. -/
def readItems : Nat → Nat → Text → Except Failure (List JsonValue × Text)
  | 0, _, text => .error (.fault .value text)
  | fuel + 1, room, text => do
    let (value, rest) ← readValue fuel room text
    match skipBlanks rest with
    | .char ']' :: after => return ([value], after)
    | .char ',' :: rest =>
      let (items, after) ← readItems fuel room (skipBlanks rest)
      return (value :: items, after)
    | other => .error (.fault .comma other)

end

/-- How many lists and objects may be open at once. -/
def maxNesting : Nat := 985

/-- Reads a whole document. Every two steps of the reader take a character, so the fuel suffices. -/
def read (text : Text) : Except Failure JsonValue :=
  match text with
  | .char '\ufeff' :: _ => .error (.fault .byteOrderMark text)
  | _ => do
    let (value, rest) ← readValue (2 * text.length + 2) maxNesting (skipBlanks text)
    match skipBlanks rest with
    | [] => return value
    | extra => .error (.fault .extraData extra)

/-- The line of a document on which its rest begins. -/
def lineOfRest (text rest : Text) : Nat :=
  Text.lineFeeds text - Text.lineFeeds rest + 1

end Json

end TerseStyle

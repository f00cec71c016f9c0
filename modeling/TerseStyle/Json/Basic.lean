import TerseStyle.Number.Binary64
import TerseStyle.Text.Quoted

/-!
# JSON values

The values of a theme file. The members of an object keep the order of their first appearance. A
value that stands where a text is expected is written out: truth values and the null value by name,
lists and objects with their quoted contents.

A value without parts can also be a key. As keys, numbers count by their value, however they are
written, and truth values count as the numbers zero and one.
-/

namespace TerseStyle

/-- A value of a JSON document that has no parts. -/
inductive JsonScalar where
  | null
  | bool (value : Bool)
  | integer (value : Int)
  | real (value : Binary64)
  | string (text : Text)
  deriving Repr, DecidableEq

/-- A value of a JSON document. -/
inductive JsonValue where
  | scalar (value : JsonScalar)
  | array (items : List JsonValue)
  | object (members : List (Text × JsonValue))

namespace JsonScalar

/-- Whether a value counts as absent: null, false, zero or an empty text. -/
def isAbsent : JsonScalar → Bool
  | null => true
  | bool value => !value
  | integer value => value == 0
  | real (.finite _ significand _) => significand == 0
  | real _ => false
  | string text => text.isEmpty

/-- The value written out, with texts in quotation marks. -/
def written : JsonScalar → Text
  | null => "None"
  | bool true => "True"
  | bool false => "False"
  | integer value => Text.ofInt value
  | real value => value.render
  | string text => Text.quote text

/-- Numerator and denominator of the number that a value stands for. -/
def fraction? : JsonScalar → Option (Int × Nat)
  | bool value => some (value.toNat, 1)
  | integer value => some (value, 1)
  | real value => value.fraction?
  | null | string _ => none

/-- Whether two values are the same key. -/
def isSameKey (left right : JsonScalar) : Bool :=
  match left.fraction?, right.fraction? with
  | some (leftNumerator, leftDenominator), some (rightNumerator, rightDenominator) =>
    leftNumerator * rightDenominator == rightNumerator * leftDenominator
  | _, _ => left == right

end JsonScalar

namespace JsonValue

/-- A text as a value. -/
@[match_pattern]
abbrev string (text : Text) : JsonValue :=
  scalar (.string text)

/-- Whether a value counts as absent: an absent scalar, or an empty list or object. -/
def isAbsent : JsonValue → Bool
  | scalar value => value.isAbsent
  | array items => items.isEmpty
  | object members => members.isEmpty

/-- Whether a value is the null value. -/
def isNull : JsonValue → Bool
  | scalar .null => true
  | _ => false

/-- The value of a member of an object. -/
def member? (members : List (Text × JsonValue)) (name : Text) : Option JsonValue :=
  members.lookup name

mutual

/-- The value written out, with texts in quotation marks. -/
def written : JsonValue → Text
  | scalar value => value.written
  | array items => "[" ++ Text.joinWith ", " (writtenItems items) ++ "]"
  | object members => "\x7b" ++ Text.joinWith ", " (writtenMembers members) ++ "\x7d"

/-- Each item written out. -/
def writtenItems : List JsonValue → List Text
  | [] => []
  | item :: rest => written item :: writtenItems rest

/-- Each member written out. -/
def writtenMembers : List (Text × JsonValue) → List Text
  | [] => []
  | (name, value) :: rest => (Text.quote name ++ ": " ++ written value) :: writtenMembers rest

end

/-- The value as a text: a text as it is, anything else written out. -/
def toText : JsonValue → Text
  | string text => text
  | value => value.written

end JsonValue

end TerseStyle

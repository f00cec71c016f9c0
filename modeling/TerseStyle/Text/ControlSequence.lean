import TerseStyle.Text.Piece

/-!
# Control sequences

A control sequence tells a terminal to change colours or to move its cursor: an escape character, an
opening square bracket, parameters, and a letter that says what to do. Printed text goes to files
and pipes as well, where such sequences mean nothing, so they are left out of it.
-/

namespace TerseStyle

/-- The character that a control sequence begins with. -/
def escapeChar : CodePoint := '\x1b'

/-- The characters that the parameters of a control sequence are written with. -/
def isParameterChar (c : CodePoint) : Bool :=
  c == ';' || c == '?' || isAsciiDigit c

/-- A control sequence at the beginning of a text. -/
def recogniseControlSequence : Recogniser Unit
  | escape :: .char '[' :: rest =>
    let parameters := rest.takeWhile isParameterChar
    match rest.drop parameters.length with
    | final :: _ =>
      if escape = escapeChar ∧ isLetter final then some ((), parameters.length + 3) else none
    | [] => none
  | _ => none

/-- The text without its control sequences. What is left may form a new one, which stays. -/
def Text.withoutControlSequences (text : Text) : Text :=
  Text.replaceItems recogniseControlSequence (fun _ => []) text

end TerseStyle

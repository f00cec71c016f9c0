import TerseStyle.Text.Basic

/-!
# Recognised pieces of a text

A recogniser looks at the beginning of a text and says what it found there and how many characters
that takes. `Text.pieces` applies it from left to right: each character belongs to the first piece
that starts at or before it, and what no piece covers stays as single characters. Replacing what was
recognised is then a map over the pieces.
-/

namespace TerseStyle

/-- A part of a text: a single character or something recognised. -/
inductive Piece (α : Type) where
  | char (c : CodePoint)
  | found (item : α)
  deriving Repr, DecidableEq

/-- Looks at the beginning of a text; an answer comes with its width in characters. -/
abbrev Recogniser (α : Type) := Text → Option (α × Nat)

namespace Piece

variable {α : Type}

/-- The item of a recognised piece. -/
def item? : Piece α → Option α
  | char _ => none
  | found item => some item

/-- The text of a piece, given a text for each item. -/
def render (write : α → Text) : Piece α → Text
  | char c => [c]
  | found item => write item

/-- The text of a piece, given a text for each item that may be refused. -/
def renderM {ε : Type} (write : α → Except ε Text) : Piece α → Except ε Text
  | char c => .ok [c]
  | found item => write item

end Piece

namespace Text

variable {α : Type}

/-- The pieces of a text of which the first `skip` characters are already covered. -/
def piecesAfter (recognise : Recogniser α) : Nat → Text → List (Piece α)
  | _, [] => []
  | skip + 1, _ :: rest => piecesAfter recognise skip rest
  | 0, c :: rest =>
    match recognise (c :: rest) with
    | some (item, width) => .found item :: piecesAfter recognise (width - 1) rest
    | none => .char c :: piecesAfter recognise 0 rest

/-- The pieces of a text, leftmost first. -/
def pieces (recognise : Recogniser α) (text : Text) : List (Piece α) :=
  piecesAfter recognise 0 text

/-- The recognised items of a text, leftmost first. -/
def items (recognise : Recogniser α) (text : Text) : List α :=
  (pieces recognise text).filterMap Piece.item?

/-- The text with every recognised item written anew. -/
def replaceItems (recognise : Recogniser α) (write : α → Text) (text : Text) : Text :=
  (pieces recognise text).flatMap (Piece.render write)

/-- The text with every recognised item written anew, or the first refusal. -/
def replaceItemsM {ε : Type} (recognise : Recogniser α) (write : α → Except ε Text) (text : Text) :
    Except ε Text :=
  ((pieces recognise text).mapM (Piece.renderM write)).map List.flatten

end Text

end TerseStyle

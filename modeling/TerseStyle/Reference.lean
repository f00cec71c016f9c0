import TerseStyle.Text.Piece

/-!
# References

Three kinds of name cannot be given their final form where they are first read: a runtime variable
depends on the class and block it ends up in, a local variable on the class that owns it, and a
class named through the scope on the classes of the whole source. Until then a value or selector
holds a reference, written between two characters that no source may contain.
-/

namespace TerseStyle

/-- A name that is resolved later. -/
inductive Reference where
  /-- The runtime variable of an abbreviation in a block, which is empty for the class itself. -/
  | runtime (abbreviation block : Text)
  /-- A local variable of the owning class. -/
  | localVariable (name : Text)
  /-- A class of the same source. -/
  | scope (name : Text)
  deriving Repr, DecidableEq

namespace Reference

/-- The character that starts a written reference. -/
def opening : CodePoint := '⟦'

/-- The character that ends a written reference. -/
def closing : CodePoint := '⟧'

/-- Whether a text contains a character reserved for references. -/
def hasMarker (text : Text) : Bool :=
  text.any fun (c : CodePoint) => c == opening || c == closing

/-- The written form. -/
def render : Reference → Text
  | runtime abbreviation block =>
    [opening] ++ "$:" ++ abbreviation ++ ":" ++ block ++ [closing]
  | localVariable name => [opening] ++ "&:" ++ name ++ [closing]
  | scope name => [opening] ++ "@:" ++ name ++ [closing]

/-- A name that is not empty, and the text after it. -/
def readName? (text : Text) : Option (Text × Text) :=
  let name := text.takeWhile isNameChar
  if name.isEmpty then none else some (name, text.dropWhile isNameChar)

/-- The reference that a text begins with. -/
def read? : Text → Option Reference
  | c :: kind :: .char ':' :: rest =>
    if c ≠ opening then none
    else
      match readName? rest with
      | none => none
      | some (name, after) =>
        match kind, after with
        | .char '$', .char ':' :: more =>
          if (more.dropWhile isNameChar).head? = some closing then
            some (.runtime name (more.takeWhile isNameChar))
          else none
        | .char '&', last :: _ => if last = closing then some (.localVariable name) else none
        | .char '@', last :: _ => if last = closing then some (.scope name) else none
        | _, _ => none
  | _ => none

/-- Recognises a reference at the beginning of a text. -/
def recognise : Recogniser Reference := fun text =>
  (read? text).map fun reference => (reference, reference.render.length)

/-- The references of a text in order. -/
def all (text : Text) : List Reference :=
  Text.items recognise text

/-- The runtime variables that a text refers to, each as abbreviation and block. -/
def runtimeNames (text : Text) : List (Text × Text) :=
  (all text).filterMap fun
    | runtime abbreviation block => some (abbreviation, block)
    | _ => none

/-- The local variables that a text refers to. -/
def localNames (text : Text) : List Text :=
  (all text).filterMap fun
    | localVariable name => some name
    | _ => none

/-- Writes the runtime references of a text anew, or gives the first refusal. -/
def resolveRuntime {ε : Type} (resolve : Text → Text → Except ε Text) (text : Text) :
    Except ε Text :=
  Text.replaceItemsM recognise
    (fun
      | runtime abbreviation block => resolve abbreviation block
      | reference => .ok reference.render)
    text

/-- Writes the local references of a text anew. -/
def resolveLocal (resolve : Text → Text) (text : Text) : Text :=
  Text.replaceItems recognise
    (fun
      | localVariable name => resolve name
      | reference => reference.render)
    text

/-- Writes the scope references of a text anew, or gives the first refusal. -/
def resolveScope {ε : Type} (resolve : Text → Except ε Text) (text : Text) : Except ε Text :=
  Text.replaceItemsM recognise
    (fun
      | scope name => resolve name
      | reference => .ok reference.render)
    text

/-- The first part of a text that is enclosed in the reserved characters. -/
def leftover? (text : Text) : Option Text :=
  match text.dropWhile (· ≠ opening) with
  | [] => none
  | first :: rest =>
    if closing ∈ rest then some (first :: rest.takeWhile (· ≠ closing) ++ [closing]) else none

end Reference

end TerseStyle

import TerseStyle.Error
import TerseStyle.OrderedMap
import TerseStyle.Reference
import TerseStyle.Vocabulary.Name

/-!
# Selectors of nested queries

A selector may name a plugin state, `&:option-active` for the element itself and `:option-active`
for a descendant, and a class of the same source, `@scope.card`. Reading replaces the former by the
class that marks the state and the latter by a reference. Once the classes are known a selector is
resolved against the selector of its parent: `&` stands for the parent, and a selector without `&`
addresses descendants of it.
-/

namespace TerseStyle

namespace Selector

/-- A name after a colon that starts with a letter. -/
def readState? (ofElement : Bool) : Text → Option ((Bool × Text) × Nat)
  | .char ':' :: first :: more =>
    if isLetter first then
      let name := first :: more.takeWhile isNameChar
      some ((ofElement, name), name.length + (if ofElement then 2 else 1))
    else none
  | _ => none

/-- A name after a colon, and whether `&` stands before the colon. -/
def recogniseState : Recogniser (Bool × Text) := fun text =>
  match text with
  | .char '&' :: rest => readState? true rest
  | rest => readState? false rest

/-- The selector of a plugin state, or the text as it was for a state that is none. -/
def writeState : Bool × Text → Text
  | (ofElement, name) =>
    match Vocabulary.pluginStateSelector? name with
    | some selector => (if ofElement then "&." else " .") ++ selector
    | none => (if ofElement then "&:" else ":") ++ name

/-- A class of the same source. -/
def recogniseScope : Recogniser Text := fun text =>
  match Text.dropBeginning? "@scope." text with
  | none => none
  | some rest =>
    let name := rest.takeWhile isNameChar
    if name.isEmpty then none else some (name, name.length + 7)

/-- The selector with its plugin states replaced, its scope references marked and its blanks
collapsed. -/
def read (written : Text) : Text :=
  let withStates := Text.replaceItems recogniseState writeState written
  let reference := fun name => (Reference.scope name).render
  Text.collapse (Text.replaceItems recogniseScope reference withStates)

/-- The selector of a class of the source. -/
def ofClass (names : OrderedMap Text Text) (name : Text) : Except Error Text :=
  match names.get? name with
  | some display => .ok ("." ++ display)
  | none => .error (Cause.unknownScopeReference name : Cause)

/-- The selector combined with that of its parent. -/
def nest (names : OrderedMap Text Text) (parent selector : Text) : Except Error Text :=
  (Reference.resolveScope (ofClass names) (Text.trim selector)).map fun resolved =>
    if CodePoint.char '&' ∈ resolved then Text.replaceChar '&' parent resolved
    else parent ++ " " ++ resolved

end Selector

end TerseStyle

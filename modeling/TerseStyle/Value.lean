import TerseStyle.Reference

/-!
# Values

What a declaration may say in its value besides plain text. A bare custom property `--name` is
wrapped in `var()`, a local variable `--&name` becomes a reference, and the content of a
pseudo-element becomes a quoted string.
-/

namespace TerseStyle

namespace Value

/-- Whether a bare custom property starts here: two hyphens and the start of an identifier, not
directly after a name character and not directly after an opened `var(`. The characters before are
given with the latest first. -/
def startsVariable (before text : Text) : Bool :=
  match text with
  | .char '-' :: .char '-' :: c :: _ =>
    isIdentifierStart c && !(before.head?.any isNameChar) &&
      !(("(rav" : Text).isPrefixOf before)
  | _ => false

/-- Wraps the bare custom properties of the rest of a value; `inside` tells whether the rest begins
inside the name of one. -/
def wrapVariablesAfter (before : Text) (inside : Bool) : Text → Text
  | [] => if inside then [')'] else []
  | c :: rest =>
    if inside then
      if isNameChar c then c :: wrapVariablesAfter (c :: before) true rest
      else .char ')' :: c :: wrapVariablesAfter (c :: before) false rest
    else if startsVariable before (c :: rest) then
      "var(" ++ c :: wrapVariablesAfter (c :: before) true rest
    else c :: wrapVariablesAfter (c :: before) false rest

/-- Wraps every bare custom property of a value in `var()`. -/
def wrapVariables (value : Text) : Text :=
  wrapVariablesAfter [] false value

/-- Whether a value mentions the sigil of local variables. -/
def mentionsLocal (value : Text) : Bool :=
  Text.occursIn ['-', '-', '&'] value

/-- Recognises a local variable `--&name`. -/
def recogniseLocal : Recogniser Text := fun text =>
  match text with
  | .char '-' :: .char '-' :: .char '&' :: rest =>
    let name := rest.takeWhile isNameChar
    if name.isEmpty then none else some (name, name.length + 3)
  | _ => none

/-- The local variables of a value in order. -/
def localNames (value : Text) : List Text :=
  Text.items recogniseLocal value

/-- The value with a reference for every local variable. -/
def referLocals (value : Text) : Text :=
  Text.replaceItems recogniseLocal (fun name => (Reference.localVariable name).render) value

/-- The value marked as important, if it is. -/
def withImportance (important : Bool) (value : Text) : Text :=
  if important then value ++ " !important" else value

/-- The value as a quoted string. A value that starts and ends with the same quotation mark is one
already. -/
def quoted (value : Text) : Text :=
  let isQuoted :=
    match value with
    | first :: _ :: _ => (first == '"' || first == '\'') && value.getLast? == some first
    | _ => false
  if isQuoted then value
  else "\"" ++ Text.replaceChar '"' ['\\', '"'] value ++ "\""

end Value

end TerseStyle

import TerseStyle.Compile

/-!
# Log lines

What the program says about its steps when it is asked to. Each step speaks once it is done, so a
failure ends the log.
-/

namespace TerseStyle

namespace Log

/-- Counts, each with the word for what is counted. -/
def counts (entries : List (Nat × String)) : Text :=
  Text.joinWith ", " (entries.map fun (count, noun) => Text.ofNat count ++ " " ++ noun)

/-- The line of a theme that was read. -/
def theme (theme : Theme) : Text :=
  "DEBUG cssctrl.theme: Theme snapshot: " ++
    counts [(theme.breakpoints.size, "breakpoints"), (theme.typography.size, "typography"),
      (theme.defines.size, "define groups"), (theme.keyframes.size, "keyframes")]

/-- The line of a source that was taken apart. -/
def source (source : Source) : Text :=
  "DEBUG cssctrl.extractor: Extracted " ++
    counts [(source.constants.length, "consts"), (source.keyframes.length, "keyframes"),
      (source.directives.length, "directives"), (source.classes.length, "classes")]

/-- The line of a source that was compiled. -/
def compiled (compiled : Compiled) : Text :=
  "DEBUG cssctrl.compiler: Compiled scope=" ++ compiled.scope ++ ": " ++
    counts [(compiled.classes.length, "classes"), (compiled.keyframes.length, "keyframes"),
      (compiled.constants.size, "consts")] ++
    " -> " ++ Text.ofNat compiled.css.length ++ " chars"

/-- The line of an error that is reported as a diagnostic. -/
def failed (message : Text) : Text :=
  "DEBUG cssctrl.compiler: Compile failed: " ++ message

/-- The lines of taking a text apart. -/
def parsing (text : Text) : List Text :=
  match Source.parse text with
  | .error _ => []
  | .ok parsed => [source parsed]

/-- The lines of compiling a text under a theme. -/
def compiling (theme : Theme) (text : Text) : List Text :=
  match Source.parse text with
  | .error _ => []
  | .ok parsed =>
    match parsed.compile theme with
    | .error _ => [source parsed]
    | .ok result => [source parsed, compiled result]

end Log

end TerseStyle

import TerseStyle.Command.Basic
import TerseStyle.Text.PathBytes
import TerseStyle.Text.Quoted

/-!
# Help and usage errors

What the program says about itself, and about a command line that it cannot follow. Both speak for
one command or, without one, for the program as a whole.
-/

namespace TerseStyle

namespace Command

/-- A mistake on the command line. -/
inductive UsageError where
  /-- An option that is not known, and the known options that are similar. -/
  | unknownSwitch (written : Text) (similar : List Text)
  | valueMissing (written : Text)
  | valueUnexpected (written : Text)
  | commandMissing
  | unknownCommand (name : Text)
  | sourceMissing
  | extraArguments (arguments : List Text)
  /-- A parameter that names no file. -/
  | fileMissing (parameter path : Text)
  /-- A parameter that names a directory. -/
  | fileIsDirectory (parameter path : Text)
  deriving Repr, DecidableEq

/-- The wording of a usage error. -/
def UsageError.message : UsageError → Text
  | unknownSwitch written [] => "No such option: " ++ written
  | unknownSwitch written [similar] =>
    "No such option: " ++ written ++ " Did you mean " ++ similar ++ "?"
  | unknownSwitch written similar =>
    "No such option: " ++ written ++ " (Possible options: " ++
      Text.joinWith ", " (Text.sort similar) ++ ")"
  | valueMissing written => "Option " ++ Text.quote written ++ " requires an argument."
  | valueUnexpected written => "Option " ++ Text.quote written ++ " does not take a value."
  | commandMissing => "Missing command."
  | unknownCommand name => "No such command " ++ Text.quote name ++ "."
  | sourceMissing => "Missing argument 'SOURCE'."
  | extraArguments [argument] => "Got unexpected extra argument (" ++ argument ++ ")"
  | extraArguments arguments =>
    "Got unexpected extra arguments (" ++ Text.joinWith " " arguments ++ ")"
  | fileMissing parameter path =>
    "Invalid value for '" ++ parameter ++ "': File " ++ Text.quote (Text.shownPath path) ++
      " does not exist."
  | fileIsDirectory parameter path =>
    "Invalid value for '" ++ parameter ++ "': File " ++ Text.quote (Text.shownPath path) ++
      " is a directory."

/-- The words that call the program or one of its commands. -/
def callWords : Option Command → Text
  | none => program
  | some command => program ++ " " ++ command.name

/-- The form of a command line. -/
def usageLine : Option Command → Text
  | none => "Usage: " ++ program ++ " [OPTIONS] COMMAND [ARGS]..."
  | some command => "Usage: " ++ callWords (some command) ++ " [OPTIONS] SOURCE"

/-- Lines of text, each with its end. -/
def renderLines (lines : List Text) : Text :=
  lines.flatMap (· ++ "\n")

/-- A line with two blanks before it. -/
def indent (line : Text) : Text :=
  "  " ++ line

/-- The report of a usage error. -/
def usageReport (command : Option Command) (error : UsageError) : Text :=
  renderLines [usageLine command, "Try '" ++ callWords command ++ " --help' for help.", [],
    "Error: " ++ error.message]

/-- What a command does, in one sentence. -/
def purpose : Command → Text
  | check => "Check that SOURCE compiles."
  | compile => "Compile SOURCE to CSS."
  | inspect => "Display the scope, consts, keyframes and classes of SOURCE."

/-- What else there is to say about a command. -/
def remark : Command → List Text
  | check => ["Exits with code 0 when it does, or code 1 with the diagnostics when not."]
  | compile =>
    [ "The output file is only written when compilation succeeds; on error the",
      "previous output is left untouched." ]
  | inspect => []

/-- The option as it is shown in a table. -/
def switchLabel : Switch → Text
  | .verbose => "-v, --verbose"
  | .theme => "--theme FILE"
  | .out => "--out FILE"
  | switch => switch.long

/-- What an option is for. -/
def switchPurpose (command : Option Command) : Switch → Text
  | .version => "Show the version and exit."
  | .verbose => "Log compiler steps to stderr"
  | .theme =>
    if command = some compile then
      "Theme JSON file (breakpoints, typography, define, keyframes)"
    else "Theme JSON file"
  | .out => "Output CSS file"
  | .help => "Show this message and exit."

/-- A table of two columns, the first as wide as its widest entry. -/
def table (rows : List (Text × Text)) : List Text :=
  let width := (rows.map fun row => row.1.length).foldl max 0
  rows.map fun (label, meaning) =>
    indent (label ++ List.replicate (width - label.length) (CodePoint.char ' ') ++ indent meaning)

/-- The table of options. -/
def switchTable (command : Option Command) (switches : List Switch) : List Text :=
  table (switches.map fun switch => (switchLabel switch, switchPurpose command switch))

/-- The help on the program or on a command. -/
def help : Option Command → Text
  | none =>
    renderLines ([usageLine none, [],
        "  cssctrl - compile abbreviation-based style DSL files to CSS.", [], "Options:"] ++
      switchTable none programSwitches ++ [[], "Commands:"] ++
      table (all.map fun command => (command.name, command.purpose)))
  | some command =>
    let remark := if command.remark.isEmpty then [] else [] :: command.remark.map indent
    renderLines ([usageLine (some command), [], indent command.purpose] ++ remark ++
      [[], "Options:"] ++ switchTable (some command) command.switches)

/-- The line that gives the version. -/
def versionLine : Text :=
  renderLines [program ++ ", version " ++ version]

end Command

end TerseStyle

import TerseStyle.Command.Usage
import TerseStyle.Text.Similarity

/-!
# Arguments

Command lines are read from left to right. A word that begins with a dash and goes on is an option,
two dashes alone end the options, and any other word is an argument. Before a command the first
argument ends the options too; after it options and arguments may be mixed.
-/

namespace TerseStyle

namespace Command

/-- What a command line says. -/
structure Arguments where
  /-- The options in order, each with its value, which is empty if it takes none. -/
  given : List (Switch × Text) := []
  /-- The arguments in order. -/
  positional : List Text := []
  deriving Repr, DecidableEq

/-- How a command line is read. -/
structure Form where
  /-- The options that are known. -/
  switches : List Switch
  /-- Whether options may follow arguments. -/
  mixed : Bool

/-- How the words before and including a command are read. -/
def programForm : Form where
  switches := programSwitches
  mixed := false

/-- How the words after a command are read. -/
def form (command : Command) : Form where
  switches := command.switches
  mixed := true

namespace Arguments

/-- Puts options before what was read after them. -/
def withSwitches (given : List (Switch × Text)) (later : Arguments) : Arguments :=
  { later with given := given ++ later.given }

/-- Puts an argument before what was read after it. -/
def withArgument (argument : Text) (later : Arguments) : Arguments :=
  { later with positional := argument :: later.positional }

/-- Whether an option is given. -/
def has (arguments : Arguments) (switch : Switch) : Bool :=
  arguments.given.any fun entry => entry.1 == switch

/-- The value of an option; the last one given counts. -/
def value? (arguments : Arguments) (switch : Switch) : Option Text :=
  arguments.given.reverse.lookup switch

/-- The first option that answers by itself. -/
def question? (arguments : Arguments) : Option Switch :=
  (arguments.given.map Prod.fst).find? Switch.isQuestion

end Arguments

/-- What a word that is an option says. -/
inductive SwitchWord where
  /-- Options with all that belongs to them. -/
  | complete (given : List (Switch × Text))
  /-- An option whose value is the next word. -/
  | awaiting (switch : Switch)
  deriving Repr, DecidableEq

/-- Whether a word is an option. -/
def isSwitchWord (word : Text) : Bool :=
  word.head? == some (CodePoint.char '-') && 1 < word.length

/-- The name of an option and the value that is attached to it. -/
def splitValue (word : Text) : Text × Option Text :=
  match Text.splitAtChar? '=' word with
  | some (name, value) => (name, some value)
  | none => (word, none)

/-- The options of a word of letters. -/
def readLetters (form : Form) : Text → Except UsageError (List (Switch × Text))
  | [] => .ok []
  | letter :: rest =>
    match form.switches.find? fun switch => switch.letter? == some letter with
    | none => .error (.unknownSwitch ['-', letter] [])
    | some switch => (readLetters form rest).map ((switch, []) :: ·)

/-- Reads a word that is an option. -/
def readSwitch (form : Form) (word : Text) : Except UsageError SwitchWord :=
  let (name, value?) := splitValue word
  match form.switches.find? fun switch => switch.long == name with
  | some switch =>
    match switch.takesValue, value? with
    | true, some value => .ok (.complete [(switch, value)])
    | true, none => .ok (.awaiting switch)
    | false, some _ => .error (.valueUnexpected name)
    | false, none => .ok (.complete [(switch, [])])
  | none =>
    if word.take 2 = "--" then
      .error (.unknownSwitch name
        ((form.switches.map Switch.long).filter fun known => Text.isSimilar known name))
    else (readLetters form (word.drop 1)).map .complete

/-- Reads a command line. -/
def readArguments (form : Form) : List Text → Except UsageError Arguments
  | [] => .ok {}
  | word :: rest =>
    if word = "--" then .ok { positional := rest }
    else if isSwitchWord word then
      match readSwitch form word with
      | .error error => .error error
      | .ok (.complete given) => (readArguments form rest).map (.withSwitches given)
      | .ok (.awaiting switch) =>
        match rest with
        | [] => .error (.valueMissing switch.long)
        | value :: rest => (readArguments form rest).map (.withSwitches [(switch, value)])
    else if form.mixed then (readArguments form rest).map (.withArgument word)
    else .ok { positional := word :: rest }

end Command

end TerseStyle

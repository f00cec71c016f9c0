import TerseStyle.Text.Basic

/-!
# Commands

The program has three commands, and options that stand before a command or after it.
-/

namespace TerseStyle

/-- What the program is asked to do with a source. -/
inductive Command where
  /-- See whether it compiles. -/
  | check
  /-- Compile it to a style sheet. -/
  | compile
  /-- List the names that it declares. -/
  | inspect
  deriving Repr, DecidableEq

namespace Command

/-- The name of the program. -/
def program : Text := "cssctrl"

/-- The version of the program. -/
def version : Text := "0.1.0"

/-- All commands in alphabetical order. -/
def all : List Command := [check, compile, inspect]

/-- The name of a command. -/
def name : Command → Text
  | check => "check"
  | compile => "compile"
  | inspect => "inspect"

/-- The command of a name. -/
def ofName? (name : Text) : Option Command :=
  all.find? fun command => command.name == name

/-- An option. -/
inductive Switch where
  | version
  | verbose
  | theme
  | out
  | help
  deriving Repr, DecidableEq

namespace Switch

/-- The option as it is written. -/
def long : Switch → Text
  | version => "--version"
  | verbose => "--verbose"
  | theme => "--theme"
  | out => "--out"
  | help => "--help"

/-- The letter of an option that has one. -/
def letter? : Switch → Option Char
  | verbose => some 'v'
  | _ => none

/-- Whether the option is followed by a value. -/
def takesValue : Switch → Bool
  | theme | out => true
  | _ => false

/-- Whether the option answers by itself, before anything else is looked at. -/
def isQuestion : Switch → Bool
  | version | help => true
  | _ => false

end Switch

/-- The options before a command. -/
def programSwitches : List Switch := [.version, .verbose, .help]

/-- The options of a command. -/
def switches : Command → List Switch
  | check => [.theme, .help]
  | compile => [.theme, .out, .help]
  | inspect => [.help]

end Command

end TerseStyle

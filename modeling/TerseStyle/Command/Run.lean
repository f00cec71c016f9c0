import TerseStyle.Command.Arguments
import TerseStyle.Command.Log
import TerseStyle.Diagnostic
import TerseStyle.File.System
import TerseStyle.Text.ControlSequence
import TerseStyle.Text.Encoding
import TerseStyle.Theme.File

/-!
# Running commands

A run reads a command line, checks that the files it names are there, and carries out the command.
It ends with an exit code and with what was printed. A mistake on the command line ends with code 2,
a failure of the command with code 1, and so does a crash: a failure for which there is no message.
Printing the result comes last, and a result that cannot be printed is a crash too.
-/

namespace TerseStyle

namespace Command

/-- A failure for which the program has no message. -/
inductive Crash where
  /-- A file could not be read or written. -/
  | file (error : FileError)
  /-- A file is not text. -/
  | undecodable
  /-- A line to be printed has no bytes. -/
  | unprintable
  /-- A theme file has the wrong form. -/
  | theme (defect : Theme.Defect)
  /-- A source whose path has no name. -/
  | nameless
  deriving Repr, DecidableEq

/-- How a run ends. -/
structure Outcome where
  exitCode : Nat := 0
  /-- What is printed as the result. -/
  output : Text := []
  /-- What is printed beside the result: messages and log lines. -/
  messages : Text := []
  crash : Option Crash := none
  deriving Repr, DecidableEq

namespace Outcome

/-- A text as it is printed beside the result. -/
def spelled (text : Text) : Text :=
  Text.ofChars (Text.spellHalves text)

/-- A run that ends with a usage error. -/
def misuse (command : Option Command) (error : UsageError) : Outcome where
  exitCode := 2
  messages := spelled (Text.withoutControlSequences (usageReport command error))

/-- A run that crashes. -/
def crashed (crash : Crash) : Outcome where
  exitCode := 1
  crash := some crash

/-- A run that answers an option. -/
def answered (command : Option Command) : Switch → Outcome
  | .version => { output := versionLine }
  | _ => { output := help command }

/-- Lines as they are printed. -/
def printed (lines : List Text) : Text :=
  Text.withoutControlSequences (renderLines lines)

/-- A run that prints lines and ends with an exit code, unless it crashes at a line that cannot be
printed. -/
def printing (exitCode : Nat) (lines : List Text) : Outcome :=
  if lines.all Text.isEncodable then { exitCode, output := printed lines }
  else { crashed .unprintable with output := printed (lines.takeWhile Text.isEncodable) }

/-- A run that succeeds. -/
def success (lines : List Text) : Outcome :=
  printing 0 lines

/-- A run that fails with a message. -/
def failure (message : Text) : Outcome where
  exitCode := 1
  messages := spelled (printed [message])

/-- A run that ends with an error, which a message tells unless it is a defect of the theme. -/
def ofError (error : Error) (message : Text) : Outcome :=
  match error.defect? with
  | some defect => crashed (.theme defect)
  | none => failure message

/-- The run if its result cannot be printed. -/
def unprinted (outcome : Outcome) (error : FileError) : Outcome :=
  { outcome with exitCode := 1, output := [], crash := some (.file error) }

/-- The run with log lines before its messages. Their control sequences stay. -/
def logged (outcome : Outcome) (lines : List Text) : Outcome :=
  { outcome with messages := spelled (renderLines lines) ++ outcome.messages }

end Outcome

/-- What a command works on. -/
structure Request where
  /-- The source. -/
  source : Path
  /-- The theme file. -/
  theme : Option Path := none
  /-- Where the style sheet goes, if not next to the source. -/
  out : Option Path := none
  /-- Whether steps are logged. -/
  verbose : Bool := false
  deriving Repr, DecidableEq

/-- The request's log lines, which are dropped unless they are asked for. -/
def Request.log (request : Request) (lines : List Text) : List Text :=
  if request.verbose then lines else []

variable {m : Type → Type} [Monad m]

/-! ### Checking the files that are named -/

/-- Checks a parameter that must name a file. -/
def checkFile (files : FileView m) (command : Command) (parameter path : Text) :
    ExceptT Outcome m Unit := do
  match ← files.kind path with
  | .ok .file => return ()
  | .ok .directory => throw (.misuse command (.fileIsDirectory parameter path))
  | .error .impossiblePath => throw (.crashed (.file .impossiblePath))
  | .error .unencodable => throw (.crashed (.file .unencodable))
  | .error _ => throw (.misuse command (.fileMissing parameter path))

/-- Checks a parameter that must not name a directory. -/
def checkNoDirectory (files : FileView m) (command : Command) (parameter path : Text) :
    ExceptT Outcome m Unit := do
  match ← files.kind path with
  | .ok .directory => throw (.misuse command (.fileIsDirectory parameter path))
  | .error .impossiblePath => throw (.crashed (.file .impossiblePath))
  | .error .unencodable => throw (.crashed (.file .unencodable))
  | _ => return ()

/-- Checks the last value of each option, in the order in which the options first appear. -/
def checkSwitches (files : FileView m) (command : Command) (arguments : Arguments) :
    ExceptT Outcome m Unit :=
  (arguments.given.map Prod.fst).eraseDups.forM fun switch =>
    match switch, arguments.value? switch with
    | .theme, some path => checkFile files command Switch.theme.long path
    | .out, some path => checkNoDirectory files command Switch.out.long path
    | _, _ => return ()

/-- The source that is named, which must be a file. -/
def checkSource (files : FileView m) (command : Command) (arguments : Arguments) :
    ExceptT Outcome m Text := do
  match arguments.positional.head? with
  | none => throw (.misuse command .sourceMissing)
  | some path =>
    checkFile files command "SOURCE" path
    return path

/-- The theme file that is used: the one that is given, or else the one that is set for all runs. -/
def checkTheme (files : FileView m) (command : Command) (arguments : Arguments)
    (setting : Option Text) : ExceptT Outcome m (Option Text) := do
  match arguments.value? .theme with
  | some path => return some path
  | none =>
    match setting.filter fun path => !path.isEmpty && command.switches.contains .theme with
    | none => return none
    | some path =>
      checkFile files command Switch.theme.long path
      return some path

/-- The request of the words after a command. -/
def request (files : FileView m) (command : Command) (setting : Option Text) (verbose : Bool)
    (words : List Text) : ExceptT Outcome m Request := do
  match readArguments command.form words with
  | .error error => throw (.misuse command error)
  | .ok arguments =>
    match arguments.question? with
    | some question => throw (.answered command question)
    | none =>
      checkSwitches files command arguments
      let source ← checkSource files command arguments
      let theme ← checkTheme files command arguments setting
      match arguments.positional.drop 1 with
      | [] =>
        let out := (arguments.value? .out).filter fun path => !path.isEmpty
        return {
          source := Path.parse source
          theme := theme.map Path.parse
          out := out.map Path.parse
          verbose }
      | extra => throw (.misuse command (.extraArguments extra))

/-! ### Reading -/

/-- The text of a file. -/
def readText (files : FileView m) (path : Path) : m (Except Crash Text) := do
  match ← files.read path with
  | .error error => return .error (.file error)
  | .ok contents =>
    match Text.decode? contents with
    | none => return .error .undecodable
    | some text => return .ok text

/-- A theme and the log lines of reading it; without a file it is empty. -/
def readTheme (files : FileView m) :
    Option Path → m (Except Crash (Except Error (Theme × List Text)))
  | none => return .ok (.ok ({}, []))
  | some path => do
    match ← readText files path with
    | .error crash => return .error crash
    | .ok text =>
      match Theme.ofFile path.render text with
      | .error error => return .ok (.error error)
      | .ok theme => return .ok (.ok (theme, [Log.theme theme]))

/-! ### The commands -/

/-- The outcome of checking a text. -/
def checkText (request : Request) (theme : Theme) (text : Text) : Outcome :=
  let log := Log.compiling theme text
  match report theme text with
  | .error defect => (Outcome.crashed (.theme defect)).logged (request.log log)
  | .ok ⟨some css, _⟩ =>
    let line := "OK: " ++ request.source.name?.getD [] ++ " compiles (" ++ Text.ofNat css.length ++
      " chars)"
    (Outcome.success [line]).logged (request.log log)
  | .ok ⟨none, diagnostics⟩ =>
    let lines := diagnostics.map Diagnostic.render
    let failed := diagnostics.map fun (diagnostic : Diagnostic) => Log.failed diagnostic.message
    (Outcome.printing 1 lines).logged (request.log (log ++ failed))

/-- Checks that a source compiles. -/
def runCheck (files : FileView m) (request : Request) : m Outcome := do
  match ← readTheme files request.theme with
  | .error crash => return .crashed crash
  | .ok (.error error) => return .ofError error ("Theme error: " ++ error.message)
  | .ok (.ok (theme, log)) =>
    match ← readText files request.source with
    | .error crash => return (Outcome.crashed crash).logged (request.log log)
    | .ok text => return (checkText request theme text).logged (request.log log)

/-- Where the style sheet of a request goes. -/
def target? (request : Request) : Option Path :=
  request.out.or (Path.output? ".css" request.source)

/-- Compiles a source and writes the style sheet; only a success changes a file. -/
def runCompile (files : FileSystem m) (request : Request) : m Outcome := do
  match target? request with
  | none => return .crashed .nameless
  | some target =>
    match ← readTheme files.toFileView request.theme with
    | .error crash => return .crashed crash
    | .ok (.error error) => return .ofError error error.message
    | .ok (.ok (theme, themeLog)) =>
      match ← readText files.toFileView request.source with
      | .error crash => return (Outcome.crashed crash).logged (request.log themeLog)
      | .ok text =>
        let log := request.log (themeLog ++ Log.compiling theme text)
        match TerseStyle.compile theme text with
        | .error error => return (Outcome.ofError error error.message).logged log
        | .ok css =>
          match ← files.writeAtomic target css with
          | .error error => return (Outcome.crashed (.file error)).logged log
          | .ok () => return (Outcome.success ["Wrote " ++ target.render]).logged log

/-- The lines of a summary. -/
def summaryLines (summary : Source.Summary) : List Text :=
  ["Scope: " ++ summary.scope, [], "Consts:"] ++ summary.constants.map indent ++
    [[], "Keyframes:"] ++
    summary.keyframes.entries.map (fun (name, final) => indent (name ++ " -> " ++ final)) ++
    [[], "Classes:"] ++
    summary.classes.entries.map (fun (name, final) => indent ("." ++ name ++ " -> ." ++ final)) ++
    (if summary.bindings.isEmpty then []
      else [[], "Binds:"] ++ summary.bindings.map indent)

/-- Lists the names that a source declares. -/
def runInspect (files : FileView m) (request : Request) : m Outcome := do
  match ← readText files request.source with
  | .error crash => return .crashed crash
  | .ok text =>
    let log := request.log (Log.parsing text)
    match describe text with
    | .error error => return (Outcome.failure ("Parse error: " ++ error.message)).logged log
    | .ok summary => return (Outcome.success (summaryLines summary)).logged log

/-- Carries out a request. -/
def perform (files : FileSystem m) (command : Command) (request : Request) : m Outcome :=
  match command with
  | check => runCheck files.toFileView request
  | compile => runCompile files request
  | inspect => runInspect files.toFileView request

/-- Carries out a command with the words after it. -/
def runCommand (files : FileSystem m) (setting : Option Text) (verbose : Bool) (command : Command)
    (words : List Text) : m Outcome := do
  match ← (request files.toFileView command setting verbose words).run with
  | .error outcome => return outcome
  | .ok request => perform files command request

/-! ### The program -/

/-- Whether a word would be read as an option if it stood first. -/
def looksLikeSwitch (word : Text) : Bool :=
  match word with
  | [] => false
  | c :: _ => !isAlphanumeric c

/-- The outcome of words that name no command. If the first one looks like an option, the words are
read once more as options. -/
def unknown (name : Text) (words : List Text) : Outcome :=
  let refusal := Outcome.misuse none (.unknownCommand name)
  if looksLikeSwitch name then
    match readArguments programForm words with
    | .error error => .misuse none error
    | .ok arguments =>
      match arguments.question? with
      | some question => .answered none question
      | none => refusal
  else refusal

/-- Carries out the words of a command line. The setting names the theme file for commands that are
given none. -/
def carryOut (files : FileSystem m) (setting : Option Text) (words : List Text) : m Outcome :=
  if words.isEmpty then return { exitCode := 2, messages := help none }
  else
    match readArguments programForm words with
    | .error error => return .misuse none error
    | .ok arguments =>
      match arguments.question?, arguments.positional with
      | some question, _ => return .answered none question
      | none, [] => return .misuse none .commandMissing
      | none, name :: rest =>
        match ofName? name with
        | none => return unknown name arguments.positional
        | some command => runCommand files setting (arguments.has .verbose) command rest

/-- Prints the result of a run, if there is one. -/
def deliver (files : FileSystem m) (outcome : Outcome) : m Outcome := do
  if outcome.output.isEmpty then return outcome
  else
    match ← files.print outcome.output with
    | .error error => return outcome.unprinted error
    | .ok () => return outcome

/-- Runs the program on the words of a command line. -/
def run (files : FileSystem m) (setting : Option Text) (words : List Text) : m Outcome := do
  deliver files (← carryOut files setting words)

end Command

end TerseStyle

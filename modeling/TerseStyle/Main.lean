import TerseStyle.Command.Run
import TerseStyle.Text.PathBytes

/-!
# The program

The command line over the files of the machine. A file whose name does not spell characters is out
of its reach.
-/

namespace TerseStyle

namespace Disk

/-- The reason behind an error of the machine. -/
def reason : IO.Error → FileError
  | .noFileOrDirectory .. => .missing
  | .inappropriateType .. => .notDirectory
  | _ => .refused

/-- Carries out an action and gives the reason if it fails. -/
def attempt {α : Type} (action : IO α) : IO (Except FileError α) := do
  try
    return .ok (← action)
  catch error =>
    return .error (reason error)

/-- Carries out an action on a path as the machine takes it. -/
def attemptAt {α : Type} (path : Text) (action : String → IO α) : IO (Except FileError α) :=
  match Text.string? (Text.fileName path) with
  | none => return .error .refused
  | some path => attempt (action path)

/-- What stands at a path. -/
def kind (path : Text) : IO (Except FileError FileKind) :=
  if (Text.pathBytes? path).isNone then return .error .unencodable
  else if CodePoint.char '\x00' ∈ path then return .error .impossiblePath
  else
    attemptAt path fun path => do
      let metadata ← (← IO.FS.realPath path).metadata
      return if metadata.type == .dir then .directory else .file

/-- Where temporary files for a target may stand. -/
def candidates (target : Path) : List String :=
  (List.range 10000).filterMap fun number =>
    let name := "." ++ target.name?.getD [] ++ "." ++ Text.ofNat number ++ ".tmp"
    Text.string? (Text.fileName
      { target.parent with parts := target.parent.parts ++ [name] }.render)

/-- Makes the first of the files that is not there yet. -/
def createFirst : List String → IO (Except FileError String)
  | [] => return .error .refused
  | path :: rest => do
    try
      let _ ← IO.FS.Handle.mk path .writeNew
      return .ok path
    catch
      | .alreadyExists .. => createFirst rest
      | error => return .error (reason error)

/-- The files of the machine. -/
def fileSystem : FileSystem IO where
  kind := kind
  read path := attemptAt path.render (IO.FS.readBinFile ·)
  Temporary := String
  createTemporary target := createFirst (candidates target)
  write temporary contents := attempt (IO.FS.writeBinFile temporary contents)
  replace temporary target := attemptAt target.render (IO.FS.rename temporary ·)
  remove temporary := do
    let _ ← attempt (IO.FS.removeFile temporary)
  print text := attempt (IO.print (String.ofList (Text.spellHalves text)))

end Disk

/-- What is said about a crash. -/
def Command.Crash.message : Command.Crash → String
  | file .missing => "no such file or directory"
  | file .notDirectory => "not a directory"
  | file .isDirectory => "is a directory"
  | file .impossiblePath => "impossible path"
  | file .unencodable => "text that has no bytes"
  | file .refused => "file operation refused"
  | undecodable => "file is not UTF-8 text"
  | unprintable => "line that has no bytes"
  | theme _ => "theme file has the wrong form"
  | nameless => "source has no name"

/-- Runs the program on words and the setting of the environment, and prints what it says. -/
def runProgram (words : List String) : IO UInt32 := do
  let setting ← IO.getEnv "CSSCTRL_THEME"
  let outcome ← Command.run Disk.fileSystem (setting.map Text.ofString)
    (words.map Text.ofString)
  IO.eprint (String.ofList (Text.spellHalves outcome.messages))
  if let some crash := outcome.crash then
    IO.eprintln s!"cssctrl: {crash.message}"
  return outcome.exitCode.toUInt32

end TerseStyle

/-- Runs the program on the arguments of the process. -/
def main (words : List String) : IO UInt32 :=
  TerseStyle.runProgram words

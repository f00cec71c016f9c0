import TerseStyle.Command.Run
import TerseStyle.Proofs.Encoding
import TerseStyle.Proofs.FileTree

/-!
# Commands on file trees

What a command may look at is apart from what it may change, and a tree that is only looked at is a
view (`FileTree.view`) that needs no state. Each part of a run that only looks gives the answer that
it gives on the view and leaves the tree as it is (`Looks`, `Checks`). That covers the reading of
the command line and all of the commands but the writing of a style sheet, which is a whole or
nothing on its own. A command line is accepted exactly if the files that it names are there
(`demands_request`), and what is read of a file is what its bytes spell (`readText_eq_ok_iff`).
Printing the result changes no file, but may turn a success into a crash (`Outcome.delivered`).
-/

namespace TerseStyle

/-- The tree as something that is only looked at. -/
def FileTree.view (tree : FileTree) : FileView Id where
  kind := tree.kind
  read := tree.read

/-- The bytes of the file at a path spell a text. -/
def FileTree.Holds (tree : FileTree) (path : Path) (text : Text) : Prop :=
  ∃ location contents, tree.locate path = .ok location ∧ tree.get? location = some contents ∧
    Text.Decodes contents text

namespace Command

open FileTree (Faults)

variable {tree : FileTree} {faults : Faults} {α β : Type}

/-! ## Looking -/

/-- The action leaves the tree as it is and gives the answer. -/
def Looks (tree : FileTree) (action : StateM FileTree α) (answer : Id α) : Prop :=
  action.run tree = (answer, tree)

namespace Looks

theorem pure (value : α) : Looks tree (Pure.pure value) (Pure.pure value) := rfl

theorem bind {action : StateM FileTree α} {answer : Id α} {next : α → StateM FileTree β}
    {nextAnswer : α → Id β} (first : Looks tree action answer)
    (second : ∀ value, Looks tree (next value) (nextAnswer value)) :
    Looks tree (action >>= next) (answer >>= nextAnswer) := by
  unfold Looks at first ⊢
  rw [StateT.run_bind, first]
  exact second answer

theorem kind (path : Text) :
    Looks tree ((FileTree.fileSystem faults).kind path) (tree.view.kind path) := rfl

theorem read (path : Path) :
    Looks tree ((FileTree.fileSystem faults).read path) (tree.view.read path) := rfl

theorem readText (path : Path) :
    Looks tree (Command.readText (FileTree.fileSystem faults).toFileView path)
      (Command.readText tree.view path) := by
  apply bind (read path)
  intro contents
  split
  · exact pure _
  · split
    all_goals exact pure _

theorem readTheme (path : Option Path) :
    Looks tree (Command.readTheme (FileTree.fileSystem faults).toFileView path)
      (Command.readTheme tree.view path) := by
  cases path with
  | none => exact pure _
  | some path =>
      apply bind (readText path)
      intro text
      split
      · exact pure _
      · split
        all_goals exact pure _

theorem runCheck (request : Request) :
    Looks tree (Command.runCheck (FileTree.fileSystem faults).toFileView request)
      (Command.runCheck tree.view request) := by
  apply bind (readTheme request.theme)
  intro theme
  split
  · exact pure _
  · exact pure _
  · apply bind (readText request.source)
    intro text
    split
    all_goals exact pure _

theorem runInspect (request : Request) :
    Looks tree (Command.runInspect (FileTree.fileSystem faults).toFileView request)
      (Command.runInspect tree.view request) := by
  apply bind (readText request.source)
  intro text
  split
  · exact pure _
  · simp only
    split
    all_goals exact pure _

end Looks

/-- The same for an action that may end the run. -/
def Checks (tree : FileTree) (action : ExceptT Outcome (StateM FileTree) α)
    (answer : ExceptT Outcome Id α) : Prop :=
  Looks tree action.run answer.run

namespace Checks

theorem pure (value : α) : Checks tree (Pure.pure value) (Pure.pure value) := rfl

theorem throw (outcome : Outcome) :
    Checks tree (MonadExcept.throw outcome : ExceptT Outcome (StateM FileTree) α)
      (MonadExcept.throw outcome) := rfl

theorem lift {action : StateM FileTree α} {answer : Id α} (looks : Looks tree action answer) :
    Checks tree (liftM action) (liftM answer) :=
  looks.bind fun value => Looks.pure (Except.ok value)

theorem bind {action : ExceptT Outcome (StateM FileTree) α} {answer : ExceptT Outcome Id α}
    {next : α → ExceptT Outcome (StateM FileTree) β} {nextAnswer : α → ExceptT Outcome Id β}
    (first : Checks tree action answer)
    (second : ∀ value, Checks tree (next value) (nextAnswer value)) :
    Checks tree (action >>= next) (answer >>= nextAnswer) := by
  unfold Checks
  rw [ExceptT.run_bind, ExceptT.run_bind]
  apply Looks.bind first
  intro result
  cases result with
  | ok value => exact second value
  | error outcome => exact Looks.pure (Except.error outcome)

theorem checkFile (command : Command) (parameter path : Text) :
    Checks tree (Command.checkFile (FileTree.fileSystem faults).toFileView command parameter path)
      (Command.checkFile tree.view command parameter path) := by
  apply bind (lift (Looks.kind path))
  intro kind
  split
  · exact pure ()
  all_goals exact throw _

theorem checkNoDirectory (command : Command) (parameter path : Text) :
    Checks tree
      (Command.checkNoDirectory (FileTree.fileSystem faults).toFileView command parameter path)
      (Command.checkNoDirectory tree.view command parameter path) := by
  apply bind (lift (Looks.kind path))
  intro kind
  split
  · exact throw _
  · exact throw _
  · exact throw _
  · exact pure ()

theorem checkSwitches (command : Command) (arguments : Arguments) :
    Checks tree (Command.checkSwitches (FileTree.fileSystem faults).toFileView command arguments)
      (Command.checkSwitches tree.view command arguments) := by
  unfold Command.checkSwitches
  induction (arguments.given.map Prod.fst).eraseDups with
  | nil => exact pure ()
  | cons switch switches ih =>
      refine bind ?_ fun _ => ih
      beta_reduce
      split
      · exact checkFile command _ _
      · exact checkNoDirectory command _ _
      · exact pure ()

theorem checkSource (command : Command) (arguments : Arguments) :
    Checks tree (Command.checkSource (FileTree.fileSystem faults).toFileView command arguments)
      (Command.checkSource tree.view command arguments) := by
  unfold Command.checkSource
  split
  · exact throw _
  · next path _ => exact bind (checkFile command _ path) fun _ => pure path

theorem checkTheme (command : Command) (arguments : Arguments) (setting : Option Text) :
    Checks tree
      (Command.checkTheme (FileTree.fileSystem faults).toFileView command arguments setting)
      (Command.checkTheme tree.view command arguments setting) := by
  unfold Command.checkTheme
  split
  · exact pure _
  · split
    · exact pure _
    · next path _ => exact bind (checkFile command _ path) fun _ => pure _

theorem request (command : Command) (setting : Option Text) (verbose : Bool) (words : List Text) :
    Checks tree
      (Command.request (FileTree.fileSystem faults).toFileView command setting verbose words)
      (Command.request tree.view command setting verbose words) := by
  unfold Command.request
  split
  · exact throw _
  · next arguments _ =>
    split
    · exact throw _
    · apply bind (checkSwitches command arguments)
      intro _
      apply bind (checkSource command arguments)
      intro source
      apply bind (checkTheme command arguments setting)
      intro theme
      split
      · exact pure _
      · exact throw _

end Checks

/-! ## Accepted command lines -/

/-- The theme file that is used: the one that is given, or else the one that is set for all runs. -/
def Arguments.themeFile (arguments : Arguments) (command : Command) (setting : Option Text) :
    Option Text :=
  (arguments.value? .theme).or
    (setting.filter fun path => !path.isEmpty && command.switches.contains .theme)

/-- The request of a command line with one source. -/
def Arguments.request (arguments : Arguments) (command : Command) (setting : Option Text)
    (verbose : Bool) (source : Text) : Request where
  source := Path.parse source
  theme := (arguments.themeFile command setting).map Path.parse
  out := ((arguments.value? .out).filter fun path => !path.isEmpty).map Path.parse
  verbose

/-- Nothing that is known of the path forbids to write a file there. -/
def MayHold (found : Except FileError FileKind) : Prop :=
  found ≠ .ok .directory ∧ found ≠ .error .impossiblePath ∧ found ≠ .error .unencodable

/-- The command line is no question, has one source, and the files that it names are there. -/
structure Accepts (tree : FileTree) (command : Command) (setting : Option Text)
    (arguments : Arguments) (source : Text) : Prop where
  noQuestion : arguments.question? = none
  positional : arguments.positional = [source]
  isSource : tree.kind source = .ok .file
  isTheme : ∀ path, arguments.themeFile command setting = some path → tree.kind path = .ok .file
  isOut : ∀ path, arguments.value? .out = some path → MayHold (tree.kind path)

/-- The action succeeds with the value if the condition holds, and else ends the run with a code
that is not zero. -/
structure Demands (action : ExceptT Outcome Id α) (condition : Prop) (value : α) : Prop where
  succeeds : condition → action.run = .ok value
  fails : ¬condition → ∃ outcome, action.run = .error outcome ∧ outcome.exitCode ≠ 0

namespace Demands

variable {action : ExceptT Outcome Id α} {condition : Prop} {value : α}

theorem congr {other : Prop} (demands : Demands action condition value) (same : condition ↔ other) :
    Demands action other value where
  succeeds holds := demands.succeeds (same.mpr holds)
  fails refused := demands.fails fun holds => refused (same.mp holds)

theorem pure (value : α) : Demands (Pure.pure value) True value where
  succeeds _ := rfl
  fails refused := absurd trivial refused

theorem throw {outcome : Outcome} (isFailure : outcome.exitCode ≠ 0) (value : α) :
    Demands (MonadExcept.throw outcome) False value where
  succeeds := False.elim
  fails _ := ⟨outcome, rfl, isFailure⟩

theorem misuse (command : Option Command) (error : UsageError) (value : α) :
    Demands (MonadExcept.throw (Outcome.misuse command error)) False value :=
  throw (Nat.succ_ne_zero 1) value

theorem crash (crash : Crash) (value : α) :
    Demands (MonadExcept.throw (Outcome.crashed crash)) False value :=
  throw (Nat.succ_ne_zero 0) value

theorem bind {next : α → ExceptT Outcome Id β} {later : Prop} {result : β}
    (first : Demands action condition value) (second : Demands (next value) later result) :
    Demands (action >>= next) (condition ∧ later) result where
  succeeds holds := by
    rw [ExceptT.run_bind, first.succeeds holds.1]
    exact second.succeeds holds.2
  fails refused := by
    rw [ExceptT.run_bind]
    by_cases holds : condition
    · rw [first.succeeds holds]
      exact second.fails fun laterHolds => refused ⟨holds, laterHolds⟩
    · rcases first.fails holds with ⟨outcome, ends, isFailure⟩
      rw [ends]
      exact ⟨outcome, rfl, isFailure⟩

theorem look (answer : Id α) : Demands (liftM answer) True answer :=
  pure answer

theorem checkFile (command : Command) (parameter path : Text) :
    Demands (Command.checkFile tree.view command parameter path)
      (tree.kind path = .ok .file) () := by
  refine congr ((look (tree.kind path)).bind ?_) (iff_of_eq (true_and _))
  split
  · next isFile => exact (pure ()).congr (by simp [isFile])
  · next found => exact (misuse _ _ ()).congr (by simp [found])
  · next found => exact (crash _ ()).congr (by simp [found])
  · next found => exact (crash _ ()).congr (by simp [found])
  · next found => exact (misuse _ _ ()).congr (by simp [found])

theorem checkNoDirectory (command : Command) (parameter path : Text) :
    Demands (Command.checkNoDirectory tree.view command parameter path)
      (MayHold (tree.kind path)) () := by
  refine congr ((look (tree.kind path)).bind ?_) (iff_of_eq (true_and _))
  unfold MayHold
  split
  · next found => exact (misuse _ _ ()).congr (by simp [found])
  · next found => exact (crash _ ()).congr (by simp [found])
  · next found => exact (crash _ ()).congr (by simp [found])
  · next noDirectory possible encodable =>
    exact (pure ()).congr (by simp_all)

theorem mem_of_value? {arguments : Arguments} {switch : Switch} {path : Text}
    (isValue : arguments.value? switch = some path) :
    switch ∈ (arguments.given.map Prod.fst).eraseDups := by
  rw [List.mem_eraseDups]
  rcases List.lookup_eq_some_iff.mp isValue with ⟨before, after, isGiven, _⟩
  apply List.mem_map.mpr
  refine ⟨(switch, path), ?_, rfl⟩
  rw [← List.mem_reverse, isGiven]
  simp

/-- What is demanded of an option. -/
def SwitchHolds (tree : FileTree) (arguments : Arguments) : Switch → Prop
  | .theme => ∀ path, arguments.value? .theme = some path → tree.kind path = .ok .file
  | .out => ∀ path, arguments.value? .out = some path → MayHold (tree.kind path)
  | _ => True

theorem forM {check : Switch → ExceptT Outcome Id Unit} {Holds : Switch → Prop}
    (ofEach : ∀ switch, Demands (check switch) (Holds switch) ()) (switches : List Switch) :
    Demands (switches.forM check) (∀ switch ∈ switches, Holds switch) () := by
  induction switches with
  | nil => exact (pure ()).congr (by simp)
  | cons switch switches ih =>
      exact congr (bind (ofEach switch) ih) List.forall_mem_cons.symm

theorem checkSwitches (command : Command) (arguments : Arguments) :
    Demands (Command.checkSwitches tree.view command arguments)
      (SwitchHolds tree arguments .theme ∧ SwitchHolds tree arguments .out) () := by
  unfold Command.checkSwitches
  refine (forM (fun switch => show Demands _ (SwitchHolds tree arguments switch) () from ?_)
    _).congr ⟨?_, ?_⟩
  · split
    · next path isPath =>
      exact (checkFile command _ path).congr (by simp [SwitchHolds, isPath])
    · next path isPath =>
      exact (checkNoDirectory command _ path).congr (by simp [SwitchHolds, isPath])
    · next switch _ _ noTheme noOut =>
      apply (pure ()).congr
      cases switch with
      | theme => simpa [SwitchHolds] using fun path isPath => (noTheme path rfl isPath).elim
      | out => simpa [SwitchHolds] using fun path isPath => (noOut path rfl isPath).elim
      | _ => exact Iff.rfl
  · intro holds
    constructor
    · exact fun path isPath => holds .theme (mem_of_value? isPath) path isPath
    · exact fun path isPath => holds .out (mem_of_value? isPath) path isPath
  · intro holds switch _
    cases switch with
    | theme => exact holds.1
    | out => exact holds.2
    | _ => trivial

theorem checkSource (command : Command) (arguments : Arguments) :
    Demands (Command.checkSource tree.view command arguments)
      (arguments.positional ≠ [] ∧ tree.kind (arguments.positional.headD []) = .ok .file)
      (arguments.positional.headD []) := by
  unfold Command.checkSource
  cases isPositional : arguments.positional with
  | nil => exact (misuse _ _ _).congr (by simp)
  | cons path rest => exact ((checkFile command _ path).bind (pure path)).congr (by simp)

theorem checkTheme (command : Command) (arguments : Arguments) (setting : Option Text) :
    Demands (Command.checkTheme tree.view command arguments setting)
      (arguments.value? .theme = none →
        ∀ path, arguments.themeFile command setting = some path → tree.kind path = .ok .file)
      (arguments.themeFile command setting) := by
  unfold Command.checkTheme Arguments.themeFile
  split
  · next path isPath =>
    rw [isPath, Option.some_or]
    exact (pure _).congr (by simp)
  · next noTheme =>
    rw [noTheme, Option.none_or]
    split
    · next noSetting =>
      rw [noSetting]
      exact (pure _).congr (by simp)
    · next path isPath =>
      rw [isPath]
      exact ((checkFile command _ path).bind (pure (some path))).congr (by simp)

end Demands

/-- A command line that is no question is carried out exactly if it is accepted. -/
theorem demands_request {command : Command} {setting : Option Text} {verbose : Bool}
    {words : List Text} {arguments : Arguments}
    (read : readArguments command.form words = .ok arguments)
    (noQuestion : arguments.question? = none) :
    Demands (request tree.view command setting verbose words)
      (Accepts tree command setting arguments (arguments.positional.headD []))
      (arguments.request command setting verbose (arguments.positional.headD [])) := by
  unfold request
  simp only [read, noQuestion]
  refine Demands.congr ((Demands.checkSwitches command arguments).bind
    ((Demands.checkSource command arguments).bind
      ((Demands.checkTheme command arguments setting).bind
        (show Demands _ (arguments.positional.drop 1 = []) _ from ?_)))) ⟨?_, ?_⟩
  · split
    · next isLast => exact (Demands.pure _).congr (by simp [isLast])
    · next extra => exact (Demands.misuse _ _ _).congr (by simpa using extra)
  · rintro ⟨⟨isTheme, isOut⟩, ⟨isSome, isSource⟩, isSetting, isLast⟩
    refine ⟨noQuestion, ?_, isSource, ?_, isOut⟩
    · cases isPositional : arguments.positional with
      | nil => exact absurd isPositional isSome
      | cons source extra =>
          rw [isPositional, List.drop_one, List.tail_cons] at isLast
          rw [isLast, List.headD_cons]
    · intro path isPath
      cases given : arguments.value? .theme with
      | none => exact isSetting given path isPath
      | some theme =>
          rw [Arguments.themeFile, given, Option.some_or, Option.some.injEq] at isPath
          exact isTheme path (by rw [given, isPath])
  · intro accepts
    refine ⟨⟨?_, accepts.isOut⟩, ⟨?_, accepts.isSource⟩, fun _ => accepts.isTheme, ?_⟩
    · intro path isPath
      apply accepts.isTheme
      rw [Arguments.themeFile, isPath, Option.some_or]
    · rw [accepts.positional]
      simp
    · rw [accepts.positional]
      rfl

/-! ## Reading files -/

theorem holds_iff {path : Path} {text : Text} : tree.Holds path text ↔
    ∃ contents, tree.read path = .ok contents ∧ Text.decode? contents = some text := by
  have reads : ∀ contents, tree.read path = .ok contents ↔
      ∃ location, tree.locate path = .ok location ∧ tree.get? location = some contents := by
    intro contents
    simp only [FileTree.read, bind_eq_ok]
    refine exists_congr fun location => and_congr_right fun _ => ?_
    cases tree.get? location <;> simp
  simp only [FileTree.Holds, reads, Text.decode?_eq_some_iff]
  grind

theorem readText_eq_ok_iff {path : Path} {text : Text} :
    readText tree.view path = .ok text ↔ tree.Holds path text := by
  change (readText tree.view path).run = Except.ok text ↔ _
  simp only [holds_iff, readText, Id.run_bind]
  cases isRead : tree.read path with
  | error error => simp [show (tree.view.read path).run = .error error from isRead]
  | ok contents =>
      rw [show (tree.view.read path).run = .ok contents from isRead]
      cases isText : Text.decode? contents <;> simp [isText]

/-- The theme of a file, which is the empty one without a file. -/
def HoldsTheme (tree : FileTree) : Option Path → Theme → Prop
  | none, theme => theme = {}
  | some path, theme => ∃ text, tree.Holds path text ∧ Theme.ofFile path.render text = .ok theme

/-- The source and the theme of a request as they stand in a tree. -/
structure Loads (tree : FileTree) (request : Request) (theme : Theme) (text : Text) : Prop where
  theme : HoldsTheme tree request.theme theme
  text : tree.Holds request.source text

/-- The log lines of reading the theme of a request. -/
def Request.themeLog (request : Request) (theme : Theme) : List Text :=
  request.theme.elim [] fun _ => [Log.theme theme]

theorem readTheme_eq_ok_iff {request : Request} {theme : Theme} {log : List Text} :
    readTheme tree.view request.theme = .ok (.ok (theme, log)) ↔
      HoldsTheme tree request.theme theme ∧ log = request.themeLog theme := by
  change (readTheme tree.view request.theme).run = Except.ok (Except.ok (theme, log)) ↔ _
  rw [Request.themeLog]
  cases request.theme with
  | none => simp [readTheme, HoldsTheme, eq_comm]
  | some path =>
      have holds : ∀ text, tree.Holds path text ↔
          (readText tree.view path).run = Except.ok text := fun _ => readText_eq_ok_iff.symm
      simp only [HoldsTheme, holds, readTheme, Id.run_bind]
      cases (readText tree.view path).run with
      | error crash => simp
      | ok text =>
          cases isTheme : Theme.ofFile path.render text with
          | error error => simp [isTheme]
          | ok found =>
              simp [isTheme]
              grind

/-! ## Printing -/

/-- The run once its result is printed, or cannot be. -/
def Outcome.delivered (outcome : Outcome) : Option FileError → Outcome
  | some error => if outcome.output.isEmpty then outcome else outcome.unprinted error
  | none => outcome

theorem run_deliver (faults : Faults) (tree : FileTree) (outcome : Outcome) :
    (deliver (FileTree.fileSystem faults) outcome).run tree =
      (outcome.delivered faults.print, tree) := by
  unfold deliver Outcome.delivered
  cases faults with
  | mk create write replace print =>
      cases print with
      | none => split <;> rfl
      | some error => split <;> rfl

theorem exitCode_of_delivered {outcome : Outcome} {failure : Option FileError}
    (isSuccess : (outcome.delivered failure).exitCode = 0) : outcome.exitCode = 0 := by
  unfold Outcome.delivered at isSuccess
  split at isSuccess
  · split at isSuccess
    · exact isSuccess
    · exact absurd isSuccess (Nat.succ_ne_zero 0)
  · exact isSuccess

theorem exitCode_delivered_of_one {outcome : Outcome} (isOne : outcome.exitCode = 1)
    (failure : Option FileError) : (outcome.delivered failure).exitCode = 1 := by
  unfold Outcome.delivered
  split
  · split
    · exact isOne
    · rfl
  · exact isOne

theorem delivered_of_silent {outcome : Outcome} (silent : outcome.output = [])
    (failure : Option FileError) : outcome.delivered failure = outcome := by
  cases failure with
  | none => rfl
  | some error => rw [Outcome.delivered, silent, List.isEmpty_nil, if_pos rfl]

/-! ## Runs -/

@[simp] theorem delivered_logged (outcome : Outcome) (lines : List Text)
    (failure : Option FileError) :
    (outcome.logged lines).delivered failure = (outcome.delivered failure).logged lines := by
  cases failure with
  | none => rfl
  | some error =>
      by_cases isEmpty : outcome.output.isEmpty <;>
        simp [Outcome.delivered, Outcome.logged, Outcome.unprinted, isEmpty]

@[simp] theorem exitCode_logged (outcome : Outcome) (lines : List Text) :
    (outcome.logged lines).exitCode = outcome.exitCode := rfl

theorem exitCode_ofError (error : Error) (message : Text) :
    (Outcome.ofError error message).exitCode ≠ 0 := by
  unfold Outcome.ofError
  split <;> exact Nat.succ_ne_zero 0

section Runs

variable {request : Request} {theme : Theme} {text : Text} {target : Path}

theorem Loads.readTheme (loads : Loads tree request theme text) :
    Command.readTheme tree.view request.theme = .ok (.ok (theme, request.themeLog theme)) :=
  readTheme_eq_ok_iff.mpr ⟨loads.theme, rfl⟩

theorem Loads.readText (loads : Loads tree request theme text) :
    Command.readText tree.view request.source = .ok text :=
  readText_eq_ok_iff.mpr loads.text

theorem loads_of_read {loaded : Theme × List Text}
    (isTheme : readTheme tree.view request.theme = .ok (.ok loaded))
    (isText : readText tree.view request.source = .ok text) : Loads tree request loaded.1 text :=
  ⟨(readTheme_eq_ok_iff.mp isTheme).1, readText_eq_ok_iff.mp isText⟩

theorem runCheck_of_loads (loads : Loads tree request theme text) :
    runCheck tree.view request =
      (checkText request theme text).logged (request.log (request.themeLog theme)) := by
  simp only [runCheck, loads.readTheme, loads.readText]
  rfl

theorem exitCode_runCheck (unread : ∀ theme text, ¬Loads tree request theme text) :
    (runCheck tree.view request).exitCode ≠ 0 := by
  unfold runCheck
  cases isTheme : readTheme tree.view request.theme with
  | error crash => exact Nat.succ_ne_zero 0
  | ok loaded =>
      cases loaded with
      | error error => exact exitCode_ofError _ _
      | ok loaded =>
          cases isText : readText tree.view request.source with
          | error crash => exact Nat.succ_ne_zero 0
          | ok text => exact absurd (loads_of_read isTheme isText) (unread loaded.1 text)

/-- A compilation goes on like this once theme and source are read. -/
theorem runCompile_of_loads (isTarget : target? request = some target)
    (loads : Loads tree request theme text) :
    (runCompile (FileTree.fileSystem faults) request).run tree =
      StateT.run (do
        let lines := request.log (request.themeLog theme ++ Log.compiling theme text)
        match TerseStyle.compile theme text with
        | .error error => return (Outcome.ofError error error.message).logged lines
        | .ok css =>
          match ← (FileTree.fileSystem faults).writeAtomic target css with
          | .error error => return (Outcome.crashed (.file error)).logged lines
          | .ok () => return (Outcome.success ["Wrote " ++ target.render]).logged lines) tree := by
  have readsTheme : Looks tree (readTheme
    (FileTree.fileSystem faults).toFileView request.theme) _ :=
    Looks.readTheme request.theme
  have readsText : Looks tree (readText (FileTree.fileSystem faults).toFileView request.source) _ :=
    Looks.readText request.source
  rw [Looks, loads.readTheme] at readsTheme
  rw [Looks, loads.readText] at readsText
  simp only [runCompile, isTarget, StateT.run_bind, readsTheme]
  change StateT.run (_ >>= _) tree = _
  rw [StateT.run_bind, readsText]
  rfl

theorem runCompile_of_refused {error : Error} (isTarget : target? request = some target)
    (loads : Loads tree request theme text)
    (refused : TerseStyle.compile theme text = .error error) :
    (runCompile (FileTree.fileSystem faults) request).run tree =
      ((Outcome.ofError error error.message).logged
        (request.log (request.themeLog theme ++ Log.compiling theme text)), tree) := by
  rw [runCompile_of_loads isTarget loads, refused]
  rfl

theorem runCompile_of_unwritten {css : Text} {error : FileError} {after : FileTree}
    (isTarget : target? request = some target) (loads : Loads tree request theme text)
    (compiles : TerseStyle.compile theme text = .ok css)
    (fails : ((FileTree.fileSystem faults).writeAtomic target css).run tree =
      (.error error, after)) :
    (runCompile (FileTree.fileSystem faults) request).run tree =
      ((Outcome.crashed (.file error)).logged
        (request.log (request.themeLog theme ++ Log.compiling theme text)), after) := by
  rw [runCompile_of_loads isTarget loads, compiles]
  simp only [StateT.run_bind, fails]
  rfl

theorem runCompile_of_written {css : Text} {after : FileTree}
    (isTarget : target? request = some target) (loads : Loads tree request theme text)
    (compiles : TerseStyle.compile theme text = .ok css)
    (writes : ((FileTree.fileSystem faults).writeAtomic target css).run tree = (.ok (), after)) :
    (runCompile (FileTree.fileSystem faults) request).run tree =
      ((Outcome.success ["Wrote " ++ target.render]).logged
        (request.log (request.themeLog theme ++ Log.compiling theme text)), after) := by
  rw [runCompile_of_loads isTarget loads, compiles]
  simp only [StateT.run_bind, writes]
  rfl

theorem runCompile_of_unread (faults : Faults)
    (unread : ∀ theme text, ¬Loads tree request theme text) :
    ∃ outcome, (runCompile (FileTree.fileSystem faults) request).run tree = (outcome, tree) ∧
      outcome.exitCode ≠ 0 := by
  unfold runCompile
  cases target? request with
  | none => exact ⟨_, rfl, Nat.succ_ne_zero 0⟩
  | some target =>
      have readsTheme :
          Looks tree (readTheme (FileTree.fileSystem faults).toFileView request.theme) _ :=
        Looks.readTheme request.theme
      rw [Looks] at readsTheme
      simp only [StateT.run_bind, readsTheme]
      cases isTheme : readTheme tree.view request.theme with
      | error crash => exact ⟨_, rfl, Nat.succ_ne_zero 0⟩
      | ok loaded =>
          cases loaded with
          | error error => exact ⟨_, rfl, exitCode_ofError _ _⟩
          | ok loaded =>
              cases isText : readText tree.view request.source with
              | error crash =>
                  have readsText :
                      Looks tree (readText (FileTree.fileSystem faults).toFileView request.source)
                        _ := Looks.readText request.source
                  rw [Looks, isText] at readsText
                  change ∃ outcome, StateT.run (_ >>= _) tree = _ ∧ _
                  rw [StateT.run_bind, readsText]
                  exact ⟨_, rfl, Nat.succ_ne_zero 0⟩
              | ok text => exact absurd (loads_of_read isTheme isText) (unread loaded.1 text)

/-- The words call a command with the words after it, and may ask for log lines. -/
def Calls (words : List Text) (command : Command) (verbose : Bool) (rest : List Text) : Prop :=
  ∃ arguments name, readArguments programForm words = .ok arguments ∧
    arguments.question? = none ∧ arguments.positional = name :: rest ∧
    ofName? name = some command ∧ arguments.has .verbose = verbose

/-- The words after a command ask something that is answered at once. -/
def AsksHelp (command : Command) (rest : List Text) : Prop :=
  ∃ arguments, readArguments command.form rest = .ok arguments ∧ arguments.question? ≠ none

variable {setting : Option Text} {words rest : List Text} {command : Command} {verbose : Bool}

theorem run_of_calls (faults : Faults) (tree : FileTree)
    (calls : Calls words command verbose rest) :
    (run (FileTree.fileSystem faults) setting words).run tree =
      Prod.map (Outcome.delivered · faults.print) id
        ((runCommand (FileTree.fileSystem faults) setting verbose command rest).run tree) := by
  rcases calls with ⟨arguments, name, read, noQuestion, isPositional, isCommand, rfl⟩
  have isWord : words.isEmpty = false := by
    cases words with
    | nil =>
        rw [readArguments, Except.ok.injEq] at read
        rw [← read] at isPositional
        simp at isPositional
    | cons => rfl
  have carries : carryOut (FileTree.fileSystem faults) setting words =
      runCommand (FileTree.fileSystem faults) setting (arguments.has .verbose) command rest := by
    rw [carryOut, isWord]
    simp only [Bool.false_eq_true, if_false, read, noQuestion, isPositional, isCommand]
  rw [run, carries, StateT.run_bind]
  exact run_deliver _ _ _

theorem runCommand_of_accepts {arguments : Arguments} {source : Text}
    (read : readArguments command.form rest = .ok arguments)
    (accepts : Accepts tree command setting arguments source) :
    (runCommand (FileTree.fileSystem faults) setting verbose command rest).run tree =
      (perform (FileTree.fileSystem faults) command
        (arguments.request command setting verbose source)).run tree := by
  have isSource : arguments.positional.headD [] = source := by
    rw [accepts.positional, List.headD_cons]
  have asked : (request tree.view command setting verbose rest).run = .ok _ :=
    (demands_request read accepts.noQuestion).succeeds (isSource.symm ▸ accepts)
  have checks : Checks tree
      (request (FileTree.fileSystem faults).toFileView command setting verbose rest) _ :=
    Checks.request command setting verbose rest
  rw [Checks, Looks, asked, isSource] at checks
  rw [runCommand, StateT.run_bind, checks]
  rfl

theorem runCommand_of_not_accepts (faults : Faults) (verbose : Bool)
    (refused : ∀ arguments source, readArguments command.form rest = .ok arguments →
      ¬Accepts tree command setting arguments source) (noHelp : ¬AsksHelp command rest) :
    ∃ outcome, (runCommand (FileTree.fileSystem faults) setting verbose command rest).run tree =
      (outcome, tree) ∧ outcome.exitCode ≠ 0 := by
  have ends : ∃ outcome, (request tree.view command setting verbose rest).run = .error outcome ∧
      outcome.exitCode ≠ 0 := by
    cases read : readArguments command.form rest with
    | error error =>
        refine ⟨Outcome.misuse command error, ?_, Nat.succ_ne_zero 1⟩
        rw [request, read]
        rfl
    | ok arguments =>
        have noQuestion : arguments.question? = none := by
          by_contra isQuestion
          exact noHelp ⟨arguments, read, isQuestion⟩
        exact (demands_request read noQuestion).fails (refused _ _ read)
  rcases ends with ⟨outcome, ends, isFailure⟩
  have checks : Checks tree
      (request (FileTree.fileSystem faults).toFileView command setting verbose rest) _ :=
    Checks.request command setting verbose rest
  rw [Checks, Looks, ends] at checks
  refine ⟨outcome, ?_, isFailure⟩
  rw [runCommand, StateT.run_bind, checks]
  rfl

end Runs

end Command

end TerseStyle

import TerseStyle.Proofs.Command
import TerseStyle.Proofs.Reference

/-!
# All or nothing

The command that writes a style sheet writes it as a whole or changes nothing at all. That is so of
the tree whatever step fails. It is not quite so of the exit code: the last thing a run does is to
print where the style sheet went, and a line that cannot be printed ends it badly after the file was
written. So a run that has written the style sheet ends well exactly if the path of the target can
be printed.
-/

namespace TerseStyle

/-! ## What is printed -/

namespace Text

theorem recogniseControlSequence_of_ne {c : CodePoint} {rest : Text} (differs : c ≠ escapeChar) :
    recogniseControlSequence (c :: rest) = none := by
  unfold recogniseControlSequence
  split
  · next escape after isText =>
    cases isText
    simp only [differs, false_and, if_false]
    split <;> rfl
  · rfl

theorem withoutControlSequences_append_of_noEscape {before : Text} (noEscape : escapeChar ∉ before)
    (rest : Text) :
    withoutControlSequences (before ++ rest) = before ++ withoutControlSequences rest := by
  induction before with
  | nil => rfl
  | cons c more ih =>
      rw [List.mem_cons, not_or] at noEscape
      have nothing : recogniseControlSequence (c :: (more ++ rest)) = none :=
        recogniseControlSequence_of_ne (Ne.symm noEscape.1)
      rw [List.cons_append, withoutControlSequences, replaceItems, pieces_cons_of_none nothing,
        List.flatMap_cons]
      exact congrArg (c :: ·) (ih noEscape.2)

end Text

namespace Command

open FileTree (Faults)

theorem printed_singleton (line : Text) :
    Outcome.printed [line] = Text.withoutControlSequences (line ++ "\n") := by
  simp [Outcome.printed, renderLines]

theorem printing_of_hasBytes (exitCode : Nat) {line : Text} (hasBytes : line.HasBytes) :
    Outcome.printing exitCode [line] = { exitCode, output := Outcome.printed [line] } := by
  simp [Outcome.printing, Text.isEncodable_iff.mpr hasBytes]

/-- A line is printed if it has bytes and printing does not fail. -/
theorem exitCode_delivered_success {c : CodePoint} (plain : c ≠ escapeChar) (rest : Text)
    (failure : Option FileError) :
    ((Outcome.success [c :: rest]).delivered failure).exitCode = 0 ↔
      failure = none ∧ Text.HasBytes (c :: rest) := by
  by_cases hasBytes : Text.HasBytes (c :: rest)
  · have starts : Outcome.printed [c :: rest] =
        c :: Text.withoutControlSequences (rest ++ "\n") := by
      have noEscape : escapeChar ∉ [c] := by simpa using plain.symm
      exact (printed_singleton _).trans (Text.withoutControlSequences_append_of_noEscape noEscape _)
    rw [Outcome.success, printing_of_hasBytes 0 hasBytes, starts]
    cases failure with
    | none => simpa [Outcome.delivered] using hasBytes
    | some error => simp [Outcome.delivered, Outcome.unprinted]
  · have isCrash : (Outcome.success [c :: rest]).exitCode ≠ 0 := by
      have notEncodable : Text.isEncodable (c :: rest) = false := by
        rwa [← Bool.not_eq_true, Text.isEncodable_iff]
      simp [Outcome.success, Outcome.printing, notEncodable, Outcome.crashed]
    exact ⟨fun isSuccess => absurd (exitCode_of_delivered isSuccess) isCrash,
      fun prints => absurd prints.2 hasBytes⟩

theorem exitCode_delivered_wrote (target : Path) (failure : Option FileError) :
    ((Outcome.success ["Wrote " ++ target.render]).delivered failure).exitCode = 0 ↔
      failure = none ∧ target.render.HasBytes := by
  have printable : Text.HasBytes ("Wrote " ++ target.render) ↔ target.render.HasBytes := by simp
  rw [← printable]
  exact exitCode_delivered_success (by decide) _ failure

/-! ## What is written -/

variable {tree : FileTree} {target : Path}

theorem locate_of_targetLocation {location : Location}
    (found : tree.targetLocation target = .ok location) : tree.locate target = .ok location := by
  rcases bind_eq_ok.mp found with ⟨place, located, found⟩
  split at found
  · simp at found
  · rwa [← Except.ok.inj found]

/-- The trees differ in one file: at the target of the request stand the bytes of the style sheet of
its source under its theme. -/
def Wrote (request : Request) (target : Path) (before after : FileTree) : Prop :=
  ∃ theme text string location,
    Loads before request theme text ∧ TerseStyle.compile theme text = .ok (Text.ofString string) ∧
    before.locate target = .ok location ∧ after.get? location = some string.toUTF8 ∧
    ∀ other, other ≠ location → after.get? other = before.get? other

theorem runCompile_cases (faults : Faults) (tree : FileTree) (request : Request) :
    let result := (runCompile (FileTree.fileSystem faults) request).run tree
    (result.1.exitCode ≠ 0 ∧ result.2 = tree) ∨
      ∃ target lines, target? request = some target ∧ Wrote request target tree result.2 ∧
        result.1 = (Outcome.success ["Wrote " ++ target.render]).logged lines := by
  intro result
  by_cases read : ∃ theme text, Loads tree request theme text
  · rcases read with ⟨theme, text, loads⟩
    cases isTarget : target? request with
    | none =>
        left
        have ends : result = (Outcome.crashed .nameless, tree) := by
          simp only [result, runCompile, isTarget]
          rfl
        rw [ends]
        exact ⟨Nat.succ_ne_zero 0, rfl⟩
    | some target =>
        cases compiles : TerseStyle.compile theme text with
        | error error =>
            left
            simp only [result, runCompile_of_refused isTarget loads compiles]
            exact ⟨exitCode_ofError _ _, trivial⟩
        | ok css =>
            rcases FileTree.writeAtomic_cases faults tree target css with ⟨error, fails⟩ |
              ⟨contents, location, isContents, located, writes⟩
            · left
              simp only [result, runCompile_of_unwritten isTarget loads compiles fails]
              exact ⟨Nat.succ_ne_zero 0, trivial⟩
            · right
              rcases Text.encode?_eq_some_iff.mp isContents with ⟨string, rfl, rfl⟩
              simp only [result, runCompile_of_written isTarget loads compiles writes]
              refine ⟨target, _, rfl, ⟨theme, text, string, location, loads, compiles,
                locate_of_targetLocation located, ?_, ?_⟩, rfl⟩
              · simp
              · intro other elsewhere
                simp [elsewhere]
  · left
    rcases runCompile_of_unread faults (fun theme text loads => read ⟨theme, text, loads⟩) with
      ⟨outcome, ends, isFailure⟩
    simp only [result, ends]
    exact ⟨isFailure, trivial⟩

theorem runCommand_of_ne_compile (faults : Faults) (tree : FileTree) (setting : Option Text)
    (verbose : Bool) {command : Command} (differs : command ≠ compile) (rest : List Text) :
    ((runCommand (FileTree.fileSystem faults) setting verbose command rest).run tree).2 = tree := by
  have checks : Checks tree
      (request (FileTree.fileSystem faults).toFileView command setting verbose rest) _ :=
    Checks.request command setting verbose rest
  rw [Checks, Looks] at checks
  rw [runCommand, StateT.run_bind, checks]
  cases (request tree.view command setting verbose rest).run with
  | error outcome => rfl
  | ok request =>
      change ((perform (FileTree.fileSystem faults) command request).run tree).2 = tree
      cases command with
      | compile => exact absurd rfl differs
      | check => exact congrArg Prod.snd (Looks.runCheck request)
      | inspect => exact congrArg Prod.snd (Looks.runInspect request)

/-- A run that compiles ends badly and has changed nothing, or has written the style sheet and
nothing else, whatever step of writing fails; in the second case it ends well exactly if the path of
the target can be printed. Runs that check or inspect change nothing. -/
theorem run_all_or_nothing (faults : Faults) (tree : FileTree) (setting : Option Text)
    (words : List Text) :
    let result := (run (FileTree.fileSystem faults) setting words).run tree
    (∀ verbose rest, Calls words compile verbose rest → ¬AsksHelp compile rest →
      (result.1.exitCode ≠ 0 ∧ result.2 = tree) ∨
      ∃ arguments source target, readArguments compile.form rest = .ok arguments ∧
        arguments.positional = [source] ∧
        target? (arguments.request compile setting verbose source) = some target ∧
        Wrote (arguments.request compile setting verbose source) target tree result.2 ∧
        (result.1.exitCode = 0 ↔ faults.print = none ∧ target.render.HasBytes)) ∧
    ∀ command verbose rest, Calls words command verbose rest → command ≠ compile →
      result.2 = tree := by
  intro result
  constructor
  · intro verbose rest calls noHelp
    simp only [result, run_of_calls faults tree calls]
    by_cases accepted : ∃ arguments source, readArguments compile.form rest = .ok arguments ∧
        Accepts tree compile setting arguments source
    · rcases accepted with ⟨arguments, source, read, accepts⟩
      rw [runCommand_of_accepts read accepts]
      rcases runCompile_cases faults tree (arguments.request compile setting verbose source) with
        ⟨isFailure, unchanged⟩ | ⟨target, lines, isTarget, wrote, ends⟩
      · exact Or.inl ⟨fun isSuccess => isFailure (exitCode_of_delivered isSuccess), unchanged⟩
      · refine Or.inr ⟨arguments, source, target, read, accepts.positional, isTarget, wrote, ?_⟩
        simp only [Prod.map_fst, perform, ends, delivered_logged, exitCode_logged]
        exact exitCode_delivered_wrote target faults.print
    · left
      rcases runCommand_of_not_accepts faults verbose
        (fun arguments source read accepts => accepted ⟨arguments, source, read, accepts⟩) noHelp
        with ⟨outcome, ends, isFailure⟩
      simp only [ends]
      exact ⟨fun isSuccess => isFailure (exitCode_of_delivered isSuccess), rfl⟩
  · intro command verbose rest calls differs
    simp only [result, run_of_calls faults tree calls]
    exact runCommand_of_ne_compile faults tree setting verbose differs rest

/-- A source and an older style sheet of it. -/
def compiledTree : FileTree :=
  ((⟨∅⟩ : FileTree).put { names := ["a"] } ".a \x7b w[1px] \x7d".toUTF8).put { names := ["a.css"] }
    "old".toUTF8

theorem calls_compile : Calls ["compile", "a"] compile false ["a"] :=
  ⟨{ positional := ["compile", "a"] }, "compile", by decide, by decide, rfl, by decide, by decide⟩

theorem readArguments_compile :
    readArguments compile.form ["a"] = .ok { positional := ["a"] } := by decide

theorem not_asksHelp_compile : ¬AsksHelp compile ["a"] := by
  rintro ⟨arguments, read, isQuestion⟩
  cases readArguments_compile.symm.trans read
  exact isQuestion rfl

/-- The style sheet is replaced, or stays if the disk is full after the first byte. -/
theorem run_all_or_nothing_full_disk :
    (∃ arguments source target, readArguments compile.form ["a"] = .ok arguments ∧
      arguments.positional = [source] ∧
      target? (arguments.request compile none false source) = some target ∧
      Wrote (arguments.request compile none false source) target compiledTree
        ((run (FileTree.fileSystem {}) none ["compile", "a"]).run compiledTree).2) ∧
    ((run (FileTree.fileSystem { write := some (.refused, ".".toUTF8) }) none
      ["compile", "a"]).run compiledTree).2 = compiledTree := by
  constructor
  · have isSuccess : ((run (FileTree.fileSystem {}) none ["compile", "a"]).run
        compiledTree).1.exitCode = 0 := by decide +kernel
    rcases (run_all_or_nothing {} compiledTree none ["compile", "a"]).1 false ["a"] calls_compile
      not_asksHelp_compile with ⟨isFailure, _⟩ |
        ⟨arguments, source, target, read, isSource, isTarget, wrote, _⟩
    · exact absurd isSuccess isFailure
    · exact ⟨arguments, source, target, read, isSource, isTarget, wrote⟩
  · have isFailure : ((run (FileTree.fileSystem { write := some (.refused, ".".toUTF8) }) none
        ["compile", "a"]).run compiledTree).1.exitCode ≠ 0 := by decide +kernel
    rcases (run_all_or_nothing { write := some (.refused, ".".toUTF8) } compiledTree none
      ["compile", "a"]).1 false ["a"] calls_compile not_asksHelp_compile with
      ⟨_, unchanged⟩ | ⟨arguments, source, target, read, isSource, isTarget, _, ends⟩
    · exact unchanged
    · cases readArguments_compile.symm.trans read
      cases isSource
      cases isTarget
      exact absurd (ends.mpr ⟨rfl, Text.isEncodable_iff.mp (by decide +kernel)⟩) isFailure

/-- A style sheet that is written under a name that cannot be printed, here the byte 255, ends the
run badly. -/
theorem run_compile_unprintable :
    let result := (run (FileTree.fileSystem {}) none
      ["compile", "a", "--out", [.half 1279]]).run compiledTree
    result.1.exitCode = 1 ∧ compiledTree.get? { names := [[.half 1279]] } = none ∧
      result.2.get? { names := [[.half 1279]] } = some ".a\x7bwidth:1px;\x7d".toUTF8 := by
  decide +kernel

end Command

end TerseStyle

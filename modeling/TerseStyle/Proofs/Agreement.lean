import TerseStyle.Proofs.AllOrNothing
import TerseStyle.Proofs.CompiledBytes
import TerseStyle.Proofs.ThemeBytes

/-!
# Checking agrees with compiling

Both commands read the same files and compile the same text, but they end in different ways: one
prints the length of the style sheet or a diagnostic, the other writes a file and prints its path,
or fails. So they agree on a source as far as the two lines can be printed: the name of the source
in one, and the path of the target in the other. What is said about the style sheet or about the
error is the same.
-/

namespace TerseStyle

/-! ## Control sequences in printed lines -/

namespace Text

theorem isParameterChar_of_isLetter {c : CodePoint} (letter : isLetter c = true) :
    isParameterChar c = false := by
  rw [Bool.eq_false_iff]
  intro isParameter
  simp only [isParameterChar, isAsciiDigit, Bool.or_eq_true, Bool.and_eq_true, beq_iff_eq,
    decide_eq_true_eq] at isParameter
  rcases isParameter with (rfl | rfl) | digit
  · exact absurd letter (by decide)
  · exact absurd letter (by decide)
  · simp only [isLetter, Bool.or_eq_true, Bool.and_eq_true, decide_eq_true_eq] at letter
    omega

theorem recogniseControlSequence_eq_some_iff {text : Text} {width : Nat} :
    recogniseControlSequence text = some ((), width) ↔
      ∃ parameters final rest, text = escapeChar :: .char '[' :: (parameters ++ final :: rest) ∧
        (∀ c ∈ parameters, isParameterChar c = true) ∧ isLetter final = true ∧
        width = parameters.length + 3 := by
  constructor
  · intro found
    unfold recogniseControlSequence at found
    split at found
    · next escape after =>
      simp only at found
      split at found
      · next final rest isRest =>
        split at found
        · next isSequence =>
          simp only [Option.some.injEq, Prod.mk.injEq, true_and] at found
          refine ⟨after.takeWhile isParameterChar, final, rest, ?_,
            fun c isChar => List.mem_takeWhile_imp isChar, isSequence.2, found.symm⟩
          have beginning :=
            List.prefix_iff_eq_take.mp (List.takeWhile_prefix isParameterChar (l := after))
          have parts := List.take_append_drop (after.takeWhile isParameterChar).length after
          rw [← beginning, isRest] at parts
          rw [isSequence.1, parts]
        · simp at found
      · simp at found
    · simp at found
  · rintro ⟨parameters, final, rest, rfl, areParameters, letter, rfl⟩
    have taken : (parameters ++ final :: rest).takeWhile isParameterChar = parameters := by
      rw [List.takeWhile_append_of_pos areParameters, List.takeWhile_cons,
        isParameterChar_of_isLetter letter]
      simp
    simp [recogniseControlSequence, taken, letter]

/-- No control sequence runs over a space. -/
theorem recogniseControlSequence_of_append_space {before rest : Text} {width : Nat}
    (found : recogniseControlSequence (before ++ .char ' ' :: rest) = some ((), width)) :
    recogniseControlSequence before = some ((), width) := by
  rcases recogniseControlSequence_eq_some_iff.mp found with
    ⟨parameters, final, after, same, areParameters, letter, isWidth⟩
  have noSpace : CodePoint.char ' ' ∉ escapeChar :: .char '[' :: (parameters ++ [final]) := by
    simp only [List.mem_cons, List.mem_append, List.not_mem_nil, or_false, not_or]
    refine ⟨by decide, by decide, ?_, ?_⟩
    · exact fun isParameter => absurd (areParameters _ isParameter) (by decide)
    · rintro rfl
      exact absurd letter (by decide)
  have aligned : before ++ .char ' ' :: rest =
      (escapeChar :: .char '[' :: (parameters ++ [final])) ++ after := by
    rw [same]
    simp
  rw [recogniseControlSequence_eq_some_iff]
  rcases List.append_eq_append_iff.mp aligned with ⟨extra, isSequence, isAfter⟩ |
    ⟨extra, isBefore, _⟩
  · cases extra with
    | nil =>
        rw [List.append_nil] at isSequence
        refine ⟨parameters, final, [], ?_, areParameters, letter, isWidth⟩
        rw [← isSequence]
    | cons c more =>
        rw [List.cons_append, List.cons.injEq] at isAfter
        rw [isSequence, ← isAfter.1] at noSpace
        simp at noSpace
  · refine ⟨parameters, final, extra, ?_, areParameters, letter, isWidth⟩
    rw [isBefore]
    simp

theorem pieces_append_space (before rest : Text) :
    pieces recogniseControlSequence (before ++ .char ' ' :: rest) =
      pieces recogniseControlSequence before ++ .char ' ' ::
        pieces recogniseControlSequence rest := by
  -- A sequence is taken off as a whole, so the induction is on the length of the text.
  induction length : before.length using Nat.strong_induction_on generalizing before with
  | _ size ih =>
    cases before with
    | nil => exact pieces_cons_of_none (recogniseControlSequence_of_ne (by decide))
    | cons c more =>
        cases found : recogniseControlSequence (c :: more) with
        | none =>
            have nothing : recogniseControlSequence (c :: (more ++ .char ' ' :: rest)) = none := by
              rw [Option.eq_none_iff_forall_ne_some]
              rintro ⟨⟨⟩, width⟩ isFound
              have isOwn : recogniseControlSequence (c :: more) = some ((), width) :=
                recogniseControlSequence_of_append_space isFound
              simp [found] at isOwn
            have later := ih more.length (by simp [← length]) more rfl
            rw [List.cons_append, pieces_cons_of_none nothing, pieces_cons_of_none found, later]
            rfl
        | some item =>
            rcases item with ⟨⟨⟩, width⟩
            rcases recogniseControlSequence_eq_some_iff.mp found with
              ⟨parameters, final, after, same, areParameters, letter, isWidth⟩
            have taken : ∀ tail : Text, pieces recogniseControlSequence
                (escapeChar :: (.char '[' :: (parameters ++ [final])) ++ tail) =
                .found () :: pieces recogniseControlSequence tail := by
              intro tail
              apply pieces_append_of_some
              rw [recogniseControlSequence_eq_some_iff]
              exact ⟨parameters, final, tail, by simp, areParameters, letter, by simp⟩
            have aligned : c :: more =
                escapeChar :: (.char '[' :: (parameters ++ [final])) ++ after := by
              rw [same]
              simp
            have shorter : after.length < size := by
              rw [← length, aligned]
              simp
              omega
            rw [aligned, List.append_assoc, taken, taken, ih _ shorter after rfl]
            rfl

theorem withoutControlSequences_append_space (before rest : Text) :
    withoutControlSequences (before ++ .char ' ' :: rest) =
      withoutControlSequences before ++ .char ' ' :: withoutControlSequences rest := by
  simp [withoutControlSequences, replaceItems, pieces_append_space, Piece.render]

end Text

namespace Command

open FileTree (Faults)

/-! ## Options -/

theorem mem_switches_of_readLetters {form : Form} {letters : Text} {given : List (Switch × Text)}
    (read : readLetters form letters = .ok given) : ∀ entry ∈ given, entry.1 ∈ form.switches := by
  induction letters generalizing given with
  | nil =>
      cases read
      simp
  | cons letter rest ih =>
      rw [readLetters] at read
      split at read
      · simp at read
      · next switch found =>
        rcases map_eq_ok.mp read with ⟨later, readLater, rfl⟩
        rw [List.forall_mem_cons]
        exact ⟨List.mem_of_find?_eq_some found, ih readLater⟩

theorem mem_switches_of_readSwitch {form : Form} {word : Text} {said : SwitchWord}
    (read : readSwitch form word = .ok said) :
    (∀ given, said = .complete given → ∀ entry ∈ given, entry.1 ∈ form.switches) ∧
      ∀ switch, said = .awaiting switch → switch ∈ form.switches := by
  unfold readSwitch at read
  simp only at read
  split at read
  · next switch found =>
    have isKnown := List.mem_of_find?_eq_some found
    split at read
    · cases read
      simpa using isKnown
    · cases read
      simpa using isKnown
    · simp at read
    · cases read
      simpa using isKnown
  · split at read
    · simp at read
    · rcases map_eq_ok.mp read with ⟨given, readGiven, rfl⟩
      simpa using mem_switches_of_readLetters readGiven

theorem mem_switches_of_readArguments {form : Form} {words : List Text} {arguments : Arguments}
    (read : readArguments form words = .ok arguments) :
    ∀ entry ∈ arguments.given, entry.1 ∈ form.switches := by
  fun_induction readArguments form words generalizing arguments with
  | case1 =>
      cases read
      simp
  | case2 =>
      cases read
      simp
  | case3 => simp at read
  | case4 word rest _ _ given readSwitch ih =>
      rcases map_eq_ok.mp read with ⟨later, readLater, rfl⟩
      exact List.forall_mem_append.mpr
        ⟨(mem_switches_of_readSwitch readSwitch).1 given rfl, ih readLater⟩
  | case5 => simp at read
  | case6 word _ _ switch readSwitch value rest ih =>
      rcases map_eq_ok.mp read with ⟨later, readLater, rfl⟩
      exact List.forall_mem_cons.mpr
        ⟨(mem_switches_of_readSwitch readSwitch).2 switch rfl, ih readLater⟩
  | case7 word rest _ _ _ ih =>
      rcases map_eq_ok.mp read with ⟨later, readLater, rfl⟩
      have ofLater := ih readLater
      exact ofLater
  | case8 =>
      cases read
      simp

/-! ## Texts that are read -/

variable {tree : FileTree} {request other : Request} {theme : Theme} {text css : Text}
  {error : Error}

/-- The document of a theme file spells characters, and no half of a pair. -/
def SpellsCharacters (tree : FileTree) (file : Option Path) : Prop :=
  ∀ path text document, file = some path → tree.Holds path text →
    Json.read text = .ok document → document.HasBytes

theorem hasBytes_of_holdsTheme {file : Option Path} (spells : SpellsCharacters tree file)
    (holds : HoldsTheme tree file theme) : theme.HasBytes := by
  cases file with
  | none =>
      have isEmpty : theme = {} := holds
      rw [isEmpty]
      constructor
      all_goals
        intros
        contradiction
  | some path =>
      rcases holds with ⟨text, isText, isTheme⟩
      exact Theme.hasBytes_of_ofFile (fun document => spells path text document rfl isText) isTheme

theorem Loads.congr (loads : Loads tree request theme text)
    (sameTheme : request.theme = other.theme) (sameSource : request.source = other.source) :
    Loads tree other theme text :=
  ⟨sameTheme ▸ loads.theme, sameSource ▸ loads.text⟩

theorem hasBytes_compile (spells : SpellsCharacters tree request.theme)
    (loads : Loads tree request theme text) :
    Yields Text.HasBytes (TerseStyle.compile theme text) := by
  rcases loads.text with ⟨_, _, _, _, decodes⟩
  exact yields_compile (hasBytes_of_holdsTheme spells loads.theme) decodes.hasBytes

/-- The source of a request compiles under its theme. -/
def Compiles (tree : FileTree) (request : Request) : Prop :=
  ∃ theme text css, Loads tree request theme text ∧ TerseStyle.compile theme text = .ok css

/-! ## What is printed -/

theorem spelled_of_hasBytes (hasBytes : text.HasBytes) : Outcome.spelled text = text := by
  rcases Text.exists_eq_ofChars hasBytes with ⟨chars, rfl⟩
  have spells : Text.spellHalves (Text.ofChars chars) = chars := by
    simp [Text.spellHalves, Text.ofChars, List.flatMap_map, Text.spellHalf]
  rw [Outcome.spelled, spells]

theorem escapeChar_notMem_ofNat (number : Nat) : escapeChar ∉ Text.ofNat number := by
  intro isChar
  rcases List.mem_map.mp isChar with ⟨digit, isDigit, same⟩
  have notEscape := Nat.isDigit_of_mem_toDigits (by decide) (by decide) isDigit
  cases same
  exact absurd notEscape (by decide)

theorem escapeChar_notMem_ofString {string : String} (noEscape : '\x1b' ∉ string.toList) :
    escapeChar ∉ Text.ofString string := by
  intro isChar
  rcases List.mem_map.mp isChar with ⟨char, isChar, same⟩
  cases same
  exact noEscape isChar

/-- How a diagnostic begins: with its severity and its line. -/
def diagnosticHead (line : Option Nat) : Text :=
  "ERROR" ++ (match line with
    | some line => " [line=" ++ Text.ofNat line ++ "]"
    | none => []) ++ ": "

theorem escapeChar_notMem_diagnosticHead (line : Option Nat) :
    escapeChar ∉ diagnosticHead line := by
  cases line with
  | none => simp [diagnosticHead, escapeChar_notMem_ofString]
  | some line => simp [diagnosticHead, escapeChar_notMem_ofString, escapeChar_notMem_ofNat]

theorem hasBytes_diagnosticHead (line : Option Nat) : Text.HasBytes (diagnosticHead line) := by
  cases line <;> simp [diagnosticHead]

theorem render_ofError (error : Error) :
    (Diagnostic.ofError error).render = diagnosticHead error.line ++ error.message := rfl

theorem printed_diagnostic (error : Error) :
    Outcome.printed [(Diagnostic.ofError error).render] =
      diagnosticHead error.line ++ Outcome.printed [error.message] := by
  rw [printed_singleton, printed_singleton, render_ofError, List.append_assoc]
  exact Text.withoutControlSequences_append_of_noEscape (escapeChar_notMem_diagnosticHead _) _

theorem hasBytes_message (hasBytes : error.HasBytes) : Text.HasBytes error.message := by
  have described : Text.HasBytes error.cause.describe := hasBytes.describe
  simp [Error.message, described]

theorem hasBytes_printed {lines : List Text} (hasBytes : ∀ line ∈ lines, line.HasBytes) :
    Text.HasBytes (Outcome.printed lines) := by
  have whole : Text.HasBytes (renderLines lines) := by
    intro c isChar
    rcases List.mem_flatMap.mp isChar with ⟨line, isLine, isChar⟩
    have ofLine : Text.HasBytes (line ++ "\n") := by simpa using hasBytes line isLine
    exact ofLine c isChar
  exact whole.replaceItems (by simp)

theorem ofError_of_hasBytes (noDefect : error.defect? = none) (hasBytes : error.HasBytes) :
    Outcome.ofError error error.message =
      { exitCode := 1, messages := Outcome.printed [error.message] } := by
  have prints : ∀ line ∈ [error.message], line.HasBytes := by
    simpa using hasBytes_message hasBytes
  simp only [Outcome.ofError, noDefect, Outcome.failure,
    spelled_of_hasBytes (hasBytes_printed prints)]

/-- The line that a check prints for a source that compiles. -/
def checkLine (request : Request) (css : Text) : Text :=
  "OK: " ++ request.source.name?.getD [] ++ " compiles (" ++ Text.ofNat css.length ++ " chars)"

theorem checkText_of_ok (request : Request) (compiles : TerseStyle.compile theme text = .ok css) :
    checkText request theme text =
      (Outcome.success [checkLine request css]).logged
        (request.log (Log.compiling theme text)) := by
  have isReport : report theme text = .ok { css := some css, diagnostics := [] } := by
    rw [report, compiles]
  simp only [checkText, isReport, checkLine]

theorem hasBytes_checkLine (request : Request) (css : Text) :
    Text.HasBytes (checkLine request css) ↔ Text.HasBytes (request.source.name?.getD []) := by
  simp [checkLine]

theorem printed_checkLine (request : Request) (css : Text) : ∃ before,
    Outcome.printed [checkLine request css] =
      before ++ " compiles (" ++ Text.ofNat css.length ++ " chars)\n" := by
  refine ⟨Text.withoutControlSequences ("OK: " ++ request.source.name?.getD []), ?_⟩
  -- The name may hold control sequences, and none of them reaches over the blank after it.
  have noEscape : escapeChar ∉ ("compiles (" : Text) ++ Text.ofNat css.length ++ " chars)\n" := by
    simp [escapeChar_notMem_ofString, escapeChar_notMem_ofNat]
  have stays := Text.withoutControlSequences_append_of_noEscape noEscape []
  simp only [List.append_nil] at stays
  simp only [printed_singleton, checkLine, List.append_assoc] at stays ⊢
  rw [← List.append_assoc]
  exact (Text.withoutControlSequences_append_space _ _).trans (congrArg (_ ++ .char ' ' :: ·) stays)

theorem exitCode_checkText_of_error (request : Request)
    (refused : TerseStyle.compile theme text = .error error) :
    (checkText request theme text).exitCode = 1 := by
  cases isDefect : error.defect? with
  | none =>
      simp only [checkText, report, refused, isDefect, exitCode_logged, Outcome.printing]
      split <;> rfl
  | some defect =>
      simp only [checkText, report, refused, isDefect]
      rfl

theorem output_checkText_of_error (request : Request)
    (refused : TerseStyle.compile theme text = .error error) (noDefect : error.defect? = none)
    (hasBytes : error.HasBytes) :
    (checkText request theme text).output =
      diagnosticHead error.line ++ Outcome.printed [error.message] := by
  have prints : Text.HasBytes (Diagnostic.ofError error).render := by
    rw [render_ofError]
    exact Text.madeOf_append.mpr ⟨hasBytes_diagnosticHead _, hasBytes_message hasBytes⟩
  simp only [checkText, report, refused, noDefect, List.map_cons, List.map_nil,
    printing_of_hasBytes 1 prints, Outcome.logged, printed_diagnostic]

/-! ## The two commands on one request -/

theorem exitCode_delivered_runCheck (tree : FileTree) (request : Request)
    (failure : Option FileError) :
    ((runCheck tree.view request).delivered failure).exitCode = 0 ↔
      Compiles tree request ∧ failure = none ∧ Text.HasBytes (request.source.name?.getD []) := by
  by_cases compiles : Compiles tree request
  · rcases id compiles with ⟨theme, text, css, loads, isCss⟩
    rw [runCheck_of_loads loads, checkText_of_ok request isCss, ← hasBytes_checkLine request css,
      and_iff_right compiles]
    simp only [delivered_logged, exitCode_logged]
    exact exitCode_delivered_success (by decide) _ failure
  · refine iff_of_false (fun isSuccess => ?_) fun holds => compiles holds.1
    have isZero := exitCode_of_delivered isSuccess
    by_cases read : ∃ theme text, Loads tree request theme text
    · rcases read with ⟨theme, text, loads⟩
      rw [runCheck_of_loads loads, exitCode_logged] at isZero
      cases isCss : TerseStyle.compile theme text with
      | ok css => exact compiles ⟨theme, text, css, loads, isCss⟩
      | error error => simp [exitCode_checkText_of_error request isCss] at isZero
    · exact exitCode_runCheck (fun theme text loads => read ⟨theme, text, loads⟩) isZero

theorem exitCode_delivered_runCompile {faults : Faults} {target : Path}
    (isTarget : target? request = some target)
    (writes : ∀ css, Text.HasBytes css →
      (((FileTree.fileSystem faults).writeAtomic target css).run tree).1 = .ok ())
    (spells : SpellsCharacters tree request.theme) (failure : Option FileError) :
    (((runCompile (FileTree.fileSystem faults) request).run tree).1.delivered failure).exitCode =
      0 ↔ Compiles tree request ∧ failure = none ∧ target.render.HasBytes := by
  by_cases compiles : Compiles tree request
  · rcases id compiles with ⟨theme, text, css, loads, isCss⟩
    have isWritten := writes css ((hasBytes_compile spells loads).of_ok isCss)
    rw [runCompile_of_written isTarget loads isCss (Prod.ext isWritten rfl), and_iff_right compiles]
    simp only [delivered_logged, exitCode_logged]
    exact exitCode_delivered_wrote target failure
  · refine iff_of_false (fun isSuccess => ?_) fun holds => compiles holds.1
    rcases runCompile_cases faults tree request with
      ⟨isFailure, _⟩ | ⟨_, _, _, ⟨theme, text, string, _, loads, isCss, _⟩, _⟩
    · exact isFailure (exitCode_of_delivered isSuccess)
    · exact compiles ⟨theme, text, _, loads, isCss⟩

/-! ## The two commands on one source -/

/-- A check has printed the number of characters of the style sheet at the target. -/
def Counts (before : FileTree) (request : Request) (after : FileTree) (output : Text) : Prop :=
  ∃ string : String, ∃ target location front, target? request = some target ∧
    before.locate target = .ok location ∧ after.get? location = some string.toUTF8 ∧
    output = front ++ " compiles (" ++ Text.ofNat string.length ++ " chars)\n"

/-- The words call a command with arguments that ask no question. -/
def Asks (words : List Text) (command : Command) (verbose : Bool) (arguments : Arguments) : Prop :=
  ∃ rest, Calls words command verbose rest ∧ readArguments command.form rest = .ok arguments ∧
    arguments.question? = none

section Asks

variable {faults : Faults} {setting : Option Text} {words : List Text} {command : Command}
  {verbose : Bool} {arguments : Arguments} {source : Text}

theorem Asks.run_of_accepts (asks : Asks words command verbose arguments)
    (accepts : Accepts tree command setting arguments source) :
    (run (FileTree.fileSystem faults) setting words).run tree =
      Prod.map (Outcome.delivered · faults.print) id ((perform (FileTree.fileSystem faults) command
        (arguments.request command setting verbose source)).run tree) := by
  rcases asks with ⟨rest, calls, read, _⟩
  rw [run_of_calls faults tree calls, runCommand_of_accepts read accepts]

/-- Only a command line that is accepted ends well. -/
theorem Asks.accepts_of_success (asks : Asks words command verbose arguments)
    (isSuccess : ((run (FileTree.fileSystem faults) setting words).run tree).1.exitCode = 0) :
    ∃ source, Accepts tree command setting arguments source := by
  rcases asks with ⟨rest, calls, read, noQuestion⟩
  by_contra refused
  have onlyRead : ∀ others, readArguments command.form rest = .ok others → others = arguments := by
    intro others readOthers
    rw [read] at readOthers
    exact (Except.ok.inj readOthers).symm
  have noHelp : ¬AsksHelp command rest := by
    rintro ⟨others, readOthers, isQuestion⟩
    rw [onlyRead others readOthers] at isQuestion
    exact isQuestion noQuestion
  have refusesAll : ∀ others source, readArguments command.form rest = .ok others →
      ¬Accepts tree command setting others source := by
    intro others source readOthers accepts
    rw [onlyRead others readOthers] at accepts
    exact refused ⟨source, accepts⟩
  rcases runCommand_of_not_accepts faults verbose refusesAll noHelp with ⟨outcome, ends, isFailure⟩
  rw [run_of_calls faults tree calls, ends] at isSuccess
  exact isFailure (exitCode_of_delivered isSuccess)

theorem Asks.run_check (asks : Asks words check verbose arguments)
    (accepts : Accepts tree check setting arguments source) :
    ((run (FileTree.fileSystem faults) setting words).run tree).1 =
      (runCheck tree.view (arguments.request check setting verbose source)).delivered
        faults.print := by
  rw [asks.run_of_accepts accepts]
  exact congrArg (Outcome.delivered ·.1 faults.print) (Looks.runCheck _)

theorem Asks.value?_eq_none {switch : Switch} (asks : Asks words command verbose arguments)
    (unknown : switch ∉ command.form.switches) : arguments.value? switch = none := by
  rcases asks with ⟨rest, _, read, _⟩
  cases isValue : arguments.value? switch with
  | none => rfl
  | some value =>
      have given := Demands.mem_of_value? isValue
      rw [List.mem_eraseDups, List.mem_map] at given
      rcases given with ⟨entry, isEntry, rfl⟩
      exact absurd (mem_switches_of_readArguments read entry isEntry) unknown

end Asks

/-- Every style sheet that has bytes can be written to the target. -/
structure CanWrite (faults : Faults) (tree : FileTree) (arguments : Arguments) : Prop where
  mayHold : ∀ path, arguments.value? .out = some path → MayHold (tree.kind path)
  writes : ∀ setting verbose source, arguments.positional = [source] →
    ∃ target, target? (arguments.request compile setting verbose source) = some target ∧
      ∀ css, Text.HasBytes css →
        (((FileTree.fileSystem faults).writeAtomic target css).run tree).1 = .ok ()

/-- The command lines name the same sources and the same theme. -/
structure SameInput (checking compiling : Arguments) : Prop where
  positional : checking.positional = compiling.positional
  theme : checking.value? .theme = compiling.value? .theme

section SameInput

variable {faults : Faults} {setting : Option Text} {checking compiling : Arguments}
  {checkWords compileWords : List Text} {checkVerbose verbose : Bool} {source : Text}

theorem SameInput.themeFile (same : SameInput checking compiling) (setting : Option Text) :
    checking.themeFile check setting = compiling.themeFile compile setting := by
  rw [Arguments.themeFile, Arguments.themeFile, same.theme]
  rfl

theorem SameInput.accepts_iff (same : SameInput checking compiling)
    (checks : Asks checkWords check checkVerbose checking)
    (compiles : Asks compileWords compile verbose compiling)
    (canWrite : CanWrite faults tree compiling) (source : Text) :
    Accepts tree check setting checking source ↔ Accepts tree compile setting compiling source := by
  have noOut : checking.value? .out = none := checks.value?_eq_none (by decide)
  rcases checks with ⟨_, _, _, checkingNoQuestion⟩
  rcases compiles with ⟨_, _, _, compilingNoQuestion⟩
  constructor
  · intro accepts
    exact ⟨compilingNoQuestion, same.positional ▸ accepts.positional, accepts.isSource,
      same.themeFile setting ▸ accepts.isTheme, canWrite.mayHold⟩
  · intro accepts
    refine ⟨checkingNoQuestion, same.positional ▸ accepts.positional, accepts.isSource,
      (same.themeFile setting).symm ▸ accepts.isTheme, ?_⟩
    simp [noOut]

theorem SameInput.request_theme (same : SameInput checking compiling) :
    (checking.request check setting checkVerbose source).theme =
      (compiling.request compile setting verbose source).theme :=
  congrArg (Option.map Path.parse) (same.themeFile setting)

theorem SameInput.loads_iff (same : SameInput checking compiling) :
    Loads tree (checking.request check setting checkVerbose source) theme text ↔
      Loads tree (compiling.request compile setting verbose source) theme text :=
  ⟨fun loads => loads.congr same.request_theme rfl,
    fun loads => loads.congr same.request_theme.symm rfl⟩

section

variable (checks : Asks checkWords check checkVerbose checking)
  (compiles : Asks compileWords compile verbose compiling) (same : SameInput checking compiling)
  (canWrite : CanWrite faults tree compiling)
  (spells : SpellsCharacters tree ((compiling.themeFile compile setting).map Path.parse))

include checks compiles same canWrite spells

theorem exitCodes_of_accepts (accepts : Accepts tree compile setting compiling source)
    {target : Path}
    (isTarget : target? (compiling.request compile setting verbose source) = some target) :
    (((run (FileTree.fileSystem faults) setting checkWords).run tree).1.exitCode = 0 ↔
      Compiles tree (compiling.request compile setting verbose source) ∧ faults.print = none ∧
        Text.HasBytes ((Path.parse source).name?.getD [])) ∧
    (((run (FileTree.fileSystem faults) setting compileWords).run tree).1.exitCode = 0 ↔
      Compiles tree (compiling.request compile setting verbose source) ∧ faults.print = none ∧
        target.render.HasBytes) := by
  have accepted := (same.accepts_iff checks compiles canWrite source).mpr accepts
  have compiles_iff : Compiles tree (checking.request check setting checkVerbose source) ↔
      Compiles tree (compiling.request compile setting verbose source) :=
    exists_congr fun _ => exists_congr fun _ => exists_congr fun _ => and_congr_left' same.loads_iff
  rcases canWrite.writes setting verbose source accepts.positional with ⟨_, isSame, writes⟩
  cases isTarget.symm.trans isSame
  rw [checks.run_check accepted, compiles.run_of_accepts accepts, exitCode_delivered_runCheck,
    compiles_iff]
  exact ⟨Iff.rfl, exitCode_delivered_runCompile isTarget writes spells faults.print⟩

/-- The exit codes agree exactly if both lines can be printed, or none. -/
theorem exitCodes_agree_iff :
    (((run (FileTree.fileSystem faults) setting checkWords).run tree).1.exitCode = 0 ↔
      ((run (FileTree.fileSystem faults) setting compileWords).run tree).1.exitCode = 0) ↔
    ∀ source target, Accepts tree compile setting compiling source →
      target? (compiling.request compile setting verbose source) = some target →
      Compiles tree (compiling.request compile setting verbose source) → faults.print = none →
      (Text.HasBytes ((Path.parse source).name?.getD []) ↔ target.render.HasBytes) := by
  constructor
  · intro agree source target accepts isTarget isCompiled prints
    rcases exitCodes_of_accepts checks compiles same canWrite spells accepts isTarget with
      ⟨ofCheck, ofCompile⟩
    simpa [ofCheck, ofCompile, isCompiled, prints] using agree
  · intro agree
    by_cases accepted : ∃ source, Accepts tree compile setting compiling source
    · rcases accepted with ⟨source, accepts⟩
      rcases canWrite.writes setting verbose source accepts.positional with ⟨target, isTarget, _⟩
      rcases exitCodes_of_accepts checks compiles same canWrite spells accepts isTarget with
        ⟨ofCheck, ofCompile⟩
      rw [ofCheck, ofCompile]
      exact and_congr_right fun isCompiled => and_congr_right fun prints =>
        agree source target accepts isTarget isCompiled prints
    · refine iff_of_false (fun isSuccess => accepted ?_) fun isSuccess =>
        accepted (compiles.accepts_of_success isSuccess)
      rcases checks.accepts_of_success isSuccess with ⟨source, accepts⟩
      exact ⟨source, (same.accepts_iff checks compiles canWrite source).mp accepts⟩

/-- A check that ends well counts the characters that the compilation writes. -/
theorem counted_of_check :
    let checked := ((run (FileTree.fileSystem faults) setting checkWords).run tree).1
    let compiled := (run (FileTree.fileSystem faults) setting compileWords).run tree
    checked.exitCode = 0 → ∃ source, compiling.positional = [source] ∧
      Counts tree (compiling.request compile setting verbose source) compiled.2 checked.output := by
  intro checked compiled isSuccess
  rcases checks.accepts_of_success isSuccess with ⟨source, accepted⟩
  have isChecked : checked = _ := checks.run_check accepted
  rw [isChecked, exitCode_delivered_runCheck] at isSuccess
  rcases isSuccess with ⟨⟨theme, text, css, loads, isCss⟩, noFailure, ofName⟩
  have accepts := (same.accepts_iff checks compiles canWrite source).mp accepted
  have loadsToo : Loads tree (compiling.request compile setting verbose source) theme text :=
    same.loads_iff.mp loads
  have isCompiled : compiled = _ := compiles.run_of_accepts accepts
  rcases canWrite.writes setting verbose source accepts.positional with ⟨target, isTarget, writes⟩
  have isWritten := writes css ((hasBytes_compile spells loadsToo).of_ok isCss)
  rcases FileTree.writeAtomic_cases faults tree target css with ⟨error, fails⟩ |
    ⟨contents, location, isContents, located, isAfter⟩
  · rw [fails] at isWritten
    simp at isWritten
  · rcases Text.encode?_eq_some_iff.mp isContents with ⟨string, rfl, rfl⟩
    rcases printed_checkLine (checking.request check setting checkVerbose source)
      (Text.ofString string) with ⟨before, isLine⟩
    refine ⟨source, accepts.positional, string, target, location, before, isTarget,
      locate_of_targetLocation located, ?_, ?_⟩
    · rw [isCompiled, perform, runCompile_of_written isTarget loadsToo isCss isAfter]
      simp
    · have prints : Text.HasBytes (checkLine (checking.request check setting checkVerbose source)
          (Text.ofString string)) := (hasBytes_checkLine _ _).mpr ofName
      rw [isChecked, runCheck_of_loads loads, checkText_of_ok _ isCss, Outcome.success,
        printing_of_hasBytes 0 prints, noFailure]
      rw [Text.length_ofString] at isLine
      exact isLine

/-- An error of the source ends the compilation and is the diagnostic of the check. -/
theorem diagnosed_of_refused (accepts : Accepts tree compile setting compiling source)
    (loads : Loads tree (compiling.request compile setting verbose source) theme text)
    (refused : TerseStyle.compile theme text = .error error) (noDefect : error.defect? = none) :
    let checked := ((run (FileTree.fileSystem faults) setting checkWords).run tree).1
    let compiled := (run (FileTree.fileSystem faults) setting compileWords).run tree
    checked.exitCode = 1 ∧ compiled.1.exitCode = 1 ∧
      (faults.print = none →
        checked.output = diagnosticHead error.line ++ Outcome.printed [error.message]) ∧
      ∃ lines, (verbose = false → lines = []) ∧
        compiled.1.messages =
          Outcome.spelled (renderLines lines) ++ Outcome.printed [error.message] := by
  intro checked compiled
  have hasBytes : error.HasBytes := (hasBytes_compile spells loads).of_error refused
  have accepted := (same.accepts_iff checks compiles canWrite source).mpr accepts
  have isChecked : checked = _ := checks.run_check accepted
  rw [runCheck_of_loads (same.loads_iff.mpr loads), delivered_logged] at isChecked
  have isCompiled : compiled = _ := compiles.run_of_accepts accepts
  rcases canWrite.writes setting verbose source accepts.positional with ⟨target, isTarget, _⟩
  rw [perform, runCompile_of_refused isTarget loads refused, ofError_of_hasBytes noDefect hasBytes]
    at isCompiled
  have silent : Outcome.delivered { exitCode := 1, messages := Outcome.printed [error.message] }
      faults.print = _ := delivered_of_silent rfl _
  simp only [isCompiled, isChecked, Prod.map, delivered_logged, exitCode_logged, silent]
  refine ⟨exitCode_delivered_of_one (exitCode_checkText_of_error _ refused) _, trivial, ?_, _, ?_,
    rfl⟩
  · intro noFailure
    rw [noFailure]
    exact output_checkText_of_error _ refused noDefect hasBytes
  · rintro rfl
    rfl

end

/-- A check ends as the compilation of the same source does, unless the source compiles and only one
of two lines can be printed: the check names the source, and the compilation the path of the target.
The check counts the characters of the style sheet that the compilation writes, and its one
diagnostic is the error that ends the compilation. -/
theorem check_agrees_with_compile (faults : Faults) (tree : FileTree) (setting : Option Text)
    {checking compiling : Arguments} {checkWords compileWords : List Text}
    {checkVerbose verbose : Bool} (checks : Asks checkWords check checkVerbose checking)
    (compiles : Asks compileWords compile verbose compiling) (same : SameInput checking compiling)
    (canWrite : CanWrite faults tree compiling)
    (spells : SpellsCharacters tree ((compiling.themeFile compile setting).map Path.parse)) :
    let checked := ((run (FileTree.fileSystem faults) setting checkWords).run tree).1
    let compiled := (run (FileTree.fileSystem faults) setting compileWords).run tree
    ((checked.exitCode = 0 ↔ compiled.1.exitCode = 0) ↔
      ∀ source target, Accepts tree compile setting compiling source →
        target? (compiling.request compile setting verbose source) = some target →
        Compiles tree (compiling.request compile setting verbose source) → faults.print = none →
        (Text.HasBytes ((Path.parse source).name?.getD []) ↔ target.render.HasBytes)) ∧
    (checked.exitCode = 0 → ∃ source, compiling.positional = [source] ∧
      Counts tree (compiling.request compile setting verbose source) compiled.2 checked.output) ∧
    ∀ source theme text error, Accepts tree compile setting compiling source →
      Loads tree (compiling.request compile setting verbose source) theme text →
      TerseStyle.compile theme text = .error error → error.defect? = none →
      checked.exitCode = 1 ∧ compiled.1.exitCode = 1 ∧
      (faults.print = none →
        checked.output = diagnosticHead error.line ++ Outcome.printed [error.message]) ∧
      ∃ lines, (verbose = false → lines = []) ∧
        compiled.1.messages =
          Outcome.spelled (renderLines lines) ++ Outcome.printed [error.message] := by
  intro checked compiled
  refine ⟨exitCodes_agree_iff checks compiles same canWrite spells,
    counted_of_check checks compiles same canWrite spells, ?_⟩
  intro source theme text error accepts loads refused noDefect
  exact diagnosed_of_refused checks compiles same canWrite spells accepts loads refused noDefect

theorem asks_check : Asks ["check", "a"] check false { positional := ["a"] } := by
  refine ⟨["a"], ?_, by decide, by decide⟩
  exact ⟨{ positional := ["check", "a"] }, "check", by decide, by decide, rfl, by decide, by decide⟩

theorem asks_compile : Asks ["compile", "a"] compile false { positional := ["a"] } :=
  ⟨["a"], calls_compile, by decide, by decide⟩

theorem canWrite_compiledTree : CanWrite {} compiledTree { positional := ["a"] } where
  mayHold path isOut := by simp [Arguments.value?] at isOut
  writes setting verbose source isSource := by
    cases isSource
    refine ⟨Path.parse "a.css", rfl, ?_⟩
    intro css hasBytes
    rcases Option.isSome_iff_exists.mp (Text.isEncodable_iff.mpr hasBytes) with
      ⟨contents, isContents⟩
    simp only [FileSystem.writeAtomic, FileSystem.fill, isContents]
    rfl

/-- A style sheet of one class is counted and written. -/
theorem check_agrees_with_compile_class :
    let checked := ((run (FileTree.fileSystem {}) none ["check", "a"]).run compiledTree).1
    let compiled := (run (FileTree.fileSystem {}) none ["compile", "a"]).run compiledTree
    (checked.exitCode = 0 ↔ compiled.1.exitCode = 0) ∧
    Counts compiledTree (({ positional := ["a"] } : Arguments).request compile none false "a")
      compiled.2 checked.output := by
  intro checked compiled
  have isSuccess : checked.exitCode = 0 := by decide +kernel
  have noTheme : SpellsCharacters compiledTree none := by
    intro path text document isFile
    cases isFile
  rcases check_agrees_with_compile {} compiledTree none asks_check asks_compile ⟨rfl, rfl⟩
    canWrite_compiledTree noTheme with ⟨agree, count, _⟩
  rcases count isSuccess with ⟨source, isSource, counts⟩
  cases isSource
  refine ⟨agree.mpr ?_, counts⟩
  intro source target accepts isTarget _ _
  cases accepts.positional
  cases isTarget
  exact iff_of_true (Text.isEncodable_iff.mp (by decide +kernel))
    (Text.isEncodable_iff.mp (by decide +kernel))

/-- A source in a directory whose name cannot be printed: the check prints the name of the source
only, the compilation ends badly after it has written the style sheet. -/
theorem check_disagrees_with_compile :
    let path : Text := .half 1279 :: "/a"
    let tree : FileTree :=
      (⟨∅⟩ : FileTree).put { names := [[.half 1279], "a"] } ".a \x7b w[1px] \x7d".toUTF8
    let compiled := (run (FileTree.fileSystem {}) none ["compile", path]).run tree
    ((run (FileTree.fileSystem {}) none ["check", path]).run tree).1.exitCode = 0 ∧
      compiled.1.exitCode = 1 ∧
      compiled.2.get? { names := [[.half 1279], "a.css"] } =
        some ".a\x7bwidth:1px;\x7d".toUTF8 := by
  decide +kernel

end SameInput

end Command

end TerseStyle

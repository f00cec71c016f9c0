import TerseStyle.Sheet
import TerseStyle.Source.Basic
import TerseStyle.Statement.Block
import TerseStyle.Style.Runtime

/-!
# Keyframes

A keyframe is a list of steps `from(...)`, `50%(...)`, `to(...)`. The declarations of a step are
read like those of a class, but a step takes no local variables, no blocks and no directives. A
runtime variable of a step is named after the keyframe and the step.
-/

namespace TerseStyle

/-- A step of a keyframe. -/
structure KeyframeStep where
  /-- When the step applies. -/
  label : Text
  /-- The declarations of the step. -/
  properties : Properties
  deriving DecidableEq

/-- A keyframe with its final name. -/
structure Keyframe where
  name : Text
  final : Text
  steps : List KeyframeStep
  rootVariables : Properties
  deriving DecidableEq

namespace Keyframe

/-- The final names of the keyframes of a source. -/
def finalNames (scope : Text) (blocks : List KeyframeBlock) :
    Except Error (OrderedMap Text Text) :=
  blocks.foldlM
    (fun names block =>
      if names.contains block.name then
        .error (Cause.duplicateBlock "keyframe" block.name : Cause)
      else .ok (names.insert block.name (Naming.final scope block.name)))
    ∅

/-- A percentage of one to three decimal digits of any script, and the text after it. -/
def readPercentage? (text : Text) : Option (Text × Text) :=
  let isDigit := fun c => (decimalValue? c).isSome
  let digits := text.takeWhile isDigit
  match text.dropWhile isDigit with
  | .char '%' :: rest =>
    if 1 ≤ digits.length ∧ digits.length ≤ 3 then some (digits ++ "%", rest) else none
  | _ => none

/-- The label of a step, and the text after it. -/
def readLabel? (statement : Text) : Option (Text × Text) :=
  match Text.dropBeginning? "from" statement with
  | some rest => some ("from", rest)
  | none =>
    match Text.dropBeginning? "to" statement with
    | some rest => some ("to", rest)
    | none => readPercentage? statement

/-- The label and the inside of a step. -/
def readStep? (statement : Text) : Option (Text × Text) :=
  match readLabel? statement with
  | some (label, .char '(' :: rest) =>
    if rest.getLast? = some (CodePoint.char ')') then some (label, rest.dropLast) else none
  | _ => none

theorem readLabel?_eq_some {statement label rest : Text}
    (found : readLabel? statement = some (label, rest)) : statement = label ++ rest := by
  unfold readLabel? at found
  split at found
  · next begins =>
    cases found
    exact Text.dropBeginning?_eq_some begins
  · split at found
    · next begins =>
      cases found
      exact Text.dropBeginning?_eq_some begins
    · unfold readPercentage? at found
      simp only at found
      split at found
      · next isRest =>
        split at found
        · cases found
          have parts := List.takeWhile_append_dropWhile (p := fun c => (decimalValue? c).isSome)
            (l := statement)
          rw [isRest] at parts
          rw [List.append_assoc]
          exact parts.symm
        · simp at found
      · simp at found

theorem readStep?_eq_some {statement label inside : Text}
    (found : readStep? statement = some (label, inside)) :
    statement = label ++ .char '(' :: (inside ++ [.char ')']) := by
  unfold readStep? at found
  split at found
  · next isLabel =>
    split at found
    · next closes =>
      cases found
      rcases List.getLast?_eq_some_iff.mp closes with ⟨inside, rfl⟩
      rw [readLabel?_eq_some isLabel, List.dropLast_concat]
    · simp at found
  · simp at found

/-- The number that decimal digits spell. -/
def number (digits : Text) : Nat :=
  digits.foldl (fun value digit => 10 * value + (decimalValue? digit).getD 0) 0

/-- The label without the percent sign. -/
def baseLabel (label : Text) : Text :=
  label.filter (· ≠ CodePoint.char '%')

/-- Whether a label is a percentage above one hundred. -/
def isOutOfRange (label : Text) : Bool :=
  label.getLast? == some (CodePoint.char '%') && number (baseLabel label) > 100

/-- The label and the inside of a step that may be compiled. -/
def parseStep (statement : Text) : Except Error (Text × Text) :=
  match readStep? statement with
  | none => .error (Cause.invalidStep statement : Cause)
  | some (label, inside) =>
    if isOutOfRange label then .error (Cause.stepOutOfRange label statement : Cause)
    else if Value.mentionsLocal inside then .error (Cause.localInKeyframe statement : Cause)
    else if CodePoint.char '@' ∈ inside then .error (Cause.directiveInKeyframe statement : Cause)
    else .ok (label, inside)

/-- The label and the style of a step, before its runtime variables are named. -/
def readStyle (environment : Environment) (statement : Text) : Except Error (Text × Style) := do
  let (label, inside) ← parseStep statement
  let style ← ((∅ : Style).dispatchBody { environment with context := .keyframe } inside).toExcept
  return (label, style)

/-- What the runtime variables of a step are named after. -/
def stepDisplay (final label : Text) : Text :=
  final ++ "-" ++ baseLabel label

/-- Compiles one step of a keyframe with the given final name: the step, and its declarations for
the root element. -/
def compileStep (environment : Environment) (scope final statement : Text) :
    Except Error (KeyframeStep × Properties) := do
  let (label, style) ← readStyle environment statement
  let style ← (style.nameVariables (stepDisplay final label) scope).toExcept
  return ({ label, properties := style.base }, style.rootVariables)

/-- Compiles a keyframe. The names of the environment are those of the source. -/
def compile (environment : Environment) (scope : Text) (block : KeyframeBlock) :
    Except Error Keyframe := do
  let final := (environment.keyframes.get? block.name).getD (Naming.final scope block.name)
  let steps ← (← statements block.body).mapM (compileStep environment scope final)
  return {
    name := block.name
    final
    steps := steps.map Prod.fst
    rootVariables := steps.foldl (fun declared step => declared.merge step.2) ∅ }

/-- The keyframe as it is written, after its variables. -/
def render (keyframe : Keyframe) : Text :=
  let root :=
    if keyframe.rootVariables.isEmpty then []
    else Rule.enclose ":root" (Rule.renderDeclarations keyframe.rootVariables)
  let steps := keyframe.steps.flatMap fun step =>
    Rule.enclose step.label (Rule.renderDeclarations step.properties)
  root ++ Rule.enclose ("@keyframes " ++ keyframe.final) steps

end Keyframe

end TerseStyle

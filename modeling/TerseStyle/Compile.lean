import TerseStyle.Keyframe
import TerseStyle.Query.Body

/-!
# Compiling a source

A source is compiled in a fixed order: its directives are checked, its keyframes named, its
constants compiled, its classes compiled one by one, its bindings checked, and then the style sheet
is written, keyframes first. The first error ends the compilation.
-/

namespace TerseStyle

/-- A class after compilation. -/
structure CompiledClass where
  /-- The name in the source. -/
  name : Text
  /-- The final name. -/
  display : Text
  /-- What the body contributes. -/
  style : Style
  /-- The nested queries. -/
  queries : List QueryTree

/-- What a compilation produces. -/
structure Compiled where
  scope : Text
  keyframes : List Keyframe
  constants : Constants
  classes : List CompiledClass
  css : Text

namespace Source

/-- Every directive is a scope or a binding. -/
def checkDirectives : List Directive → Except Error Unit
  | [] => .ok ()
  | directive :: rest =>
    if directive.name = "scope" ∨ directive.name = "bind" then checkDirectives rest
    else .error (Cause.unknownDirective directive.name : Cause)

/-- Compiles the constants, each on its own. -/
def compileConstants (environment : Environment) (blocks : List ConstantBlock) :
    Except Error Constants := do
  let environment := { environment with context := .constant }
  let compiled ← blocks.mapM fun block => do
    let attempt := (∅ : Style).dispatchAll environment block.statements
    return (block.name, ← attempt.toExcept)
  return .ofList compiled

/-- The local variables that a class and its queries mention. -/
def usedLocals (style : Style) (queries : List QueryTree) : Names :=
  (QueryTree.preorder queries).foldl
    (fun names query => names.merge query.style.usedLocals) style.usedLocals

/-- Every local variable that is mentioned is declared. Of several that are not, the first in
alphabetical order is reported. -/
def checkLocals (scope name : Text) (style : Style) (queries : List QueryTree) :
    Except Error Unit :=
  let used := Text.sort (usedLocals style queries).keys
  match used.find? fun used => !style.localVariables.contains used with
  | none => .ok ()
  | some undeclared => .error (Cause.undeclaredLocal undeclared name scope : Cause)

/-- The style and the queries of a class, before its runtime variables are named. -/
def readClass (environment : Environment) (scope : Text) (constants : Constants)
    (block : ClassBlock) : Except Error (Style × List QueryTree) := do
  let (lines, queries) ← QueryTree.parse block.body
  let style ← ((∅ : Style).dispatchLines environment constants false lines).toExcept
  let queries ← (QueryTree.compileForest environment constants queries).toExcept
  checkLocals scope block.name style queries
  return (style, queries)

/-- Compiles a class. -/
def compileClass (environment : Environment) (scope : Text) (constants : Constants)
    (block : ClassBlock) : Except Error CompiledClass := do
  let (style, queries) ← readClass environment scope constants block
  let display := Naming.final scope block.name
  let style ← (style.nameVariables display scope).toExcept
  return { name := block.name, display, style, queries }

/-- Checks the classes that a binding names. -/
def checkBoundClasses (names : OrderedMap Text Text) : List Text → Except Error Unit
  | [] => .ok ()
  | reference :: rest =>
    match reference with
    | .char '.' :: name =>
      if names.contains name then checkBoundClasses names rest
      else .error (Cause.unknownBindClass name : Cause)
    | _ => .error (Cause.bindWithoutDot reference : Cause)

/-- Checks the bindings among directives: each has a key of its own, which is no class, and names
classes of the source. -/
def checkBindings (names : OrderedMap Text Text) (keys : List Text) :
    List Directive → Except Error Unit
  | [] => .ok ()
  | directive :: rest =>
    if directive.name ≠ "bind" then checkBindings names keys rest
    else
      match Text.words directive.value with
      | key :: reference :: references =>
        if key ∈ keys then .error (Cause.duplicateBind key : Cause)
        else if names.contains key then .error (Cause.bindNamesClass key : Cause)
        else
          match checkBoundClasses names (reference :: references) with
          | .error error => .error error
          | .ok () => checkBindings names (key :: keys) rest
      | _ => .error (Cause.invalidBind directive.value : Cause)

/-- Refuses a style sheet in which a reference is left. -/
def checkResolved (css : Text) : Except Error Unit :=
  match Reference.leftover? css with
  | none => .ok ()
  | some reference => .error (Cause.unresolvedReference reference : Cause)

/-- What decides the meaning of the statements of a source under a theme. -/
def environment (theme : Theme) (source : Source) : Except Error Environment := do
  checkDirectives source.directives
  let keyframes ← Keyframe.finalNames source.scope source.keyframes
  return { context := .rule, theme, keyframes }

/-- Compiles a source under a theme, without a last look at the style sheet. -/
def assemble (theme : Theme) (source : Source) : Except Error Compiled := do
  let environment ← source.environment theme
  let scope := source.scope
  let constants ← compileConstants environment source.constants
  let classes ← source.classes.mapM (compileClass environment scope constants)
  let names : OrderedMap Text Text := .ofList (classes.map fun item => (item.name, item.display))
  checkBindings names [] source.directives
  let keyframes ← source.keyframes.mapM (Keyframe.compile environment scope)
  let rules ← classes.mapM fun item => classRules names item.display item.style item.queries
  let css := keyframes.flatMap Keyframe.render ++ rules.flatMap renderRules
  return { scope, keyframes, constants, classes, css }

/-- Compiles a source under a theme. -/
def compile (theme : Theme) (source : Source) : Except Error Compiled := do
  let compiled ← source.assemble theme
  checkResolved compiled.css
  return compiled

/-- The names that a source declares, with their final names. -/
structure Summary where
  scope : Text
  constants : List Text
  keyframes : OrderedMap Text Text
  classes : OrderedMap Text Text
  bindings : List Text

/-- Summarises a source without compiling it. -/
def summary (source : Source) : Except Error Summary := do
  let scope := source.scope
  let keyframes ← Keyframe.finalNames scope source.keyframes
  return {
    scope
    constants := source.constants.map fun block => block.name
    keyframes
    classes := .ofList (source.classes.map fun block => (block.name, Naming.final scope block.name))
    bindings := (source.directives.filter fun directive => directive.name == ("bind" : Text)).map
      fun directive => directive.value }

end Source

/-- Compiles the text of a source under a theme to a style sheet. -/
def compile (theme : Theme) (text : Text) : Except Error Text := do
  let source ← Source.parse text
  let compiled ← source.compile theme
  return compiled.css

/-- Summarises the text of a source. -/
def describe (text : Text) : Except Error Source.Summary := do
  (← Source.parse text).summary

end TerseStyle

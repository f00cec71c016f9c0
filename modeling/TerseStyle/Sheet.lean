import TerseStyle.Naming
import TerseStyle.Query.Tree

/-!
# Style sheets

A style sheet is a list of rules. The rules of a class are its root variables, then for the class
itself the rules of its own properties, its states, plugin states, screens, containers, plugin
containers and pseudo-elements, and then the same for each nested query, outer queries before inner
ones. A rule without declarations is not emitted.
-/

namespace TerseStyle

/-- A rule of a style sheet. -/
structure Rule where
  /-- The condition that encloses the rule, if there is one. -/
  wrapper : Option Text := none
  /-- The selector. -/
  selector : Text
  /-- The declarations in order. -/
  declarations : Properties
  deriving DecidableEq

namespace Rule

/-- Declarations as they are written. -/
def renderDeclarations (declarations : Properties) : Text :=
  declarations.entries.flatMap fun entry => entry.1 ++ ":" ++ entry.2 ++ ";"

/-- A text in braces after a head. -/
def enclose (head body : Text) : Text :=
  head ++ "\x7b" ++ body ++ "\x7d"

/-- The rule as it is written. -/
def render (rule : Rule) : Text :=
  let inner := enclose rule.selector (renderDeclarations rule.declarations)
  match rule.wrapper with
  | none => inner
  | some wrapper => enclose wrapper inner

end Rule

/-- The rules as they are written. -/
def renderRules (rules : List Rule) : Text :=
  rules.flatMap Rule.render

namespace Style

/-- The values of properties with the local variables of the owning class. -/
def resolveLocals (owner : Text) (properties : Properties) : Properties :=
  properties.map (Reference.resolveLocal fun name =>
    Naming.use (Naming.localVariable name owner))

/-- A rule for every place of a style: for its own properties, which are given, and for everything
else. Some may be without declarations. -/
def placeRules (selector : Text) (own : Properties) (style : Style) : List Rule :=
  let base : List Rule := [{ selector, declarations := own }]
  let states := style.states.entries.map fun (name, properties) =>
    { selector := selector ++ ":" ++ name, declarations := properties : Rule }
  let pluginStates := style.pluginStates.entries.map fun (_, state) =>
    { selector := selector ++ "." ++ state.selector, declarations := state.properties : Rule }
  let screens := style.screens.map fun block =>
    { wrapper := some ("@media only screen and " ++ block.query)
      selector, declarations := block.properties : Rule }
  let containers := style.containers.map fun block =>
    { wrapper := some ("@container " ++ block.query)
      selector, declarations := block.properties : Rule }
  let pluginContainers := style.pluginContainers.entries.map fun (containerClass, properties) =>
    { selector := "." ++ containerClass ++ " " ++ selector, declarations := properties : Rule }
  let elements := style.elements.entries.map fun (name, properties) =>
    { selector := selector ++ "::" ++ name, declarations := properties : Rule }
  base ++ states ++ pluginStates ++ screens ++ containers ++ pluginContainers ++ elements

/-- The rules of one selector, in which local variables are references. -/
def writtenRules (selector : Text) (own : Properties) (style : Style) : List Rule :=
  (style.placeRules selector own).filter fun rule => !rule.declarations.isEmpty

/-- The rules of one selector, for a class that owns it. -/
def rules (owner selector : Text) (own : Properties) (style : Style) : List Rule :=
  (style.writtenRules selector own).map fun rule =>
    { rule with declarations := resolveLocals owner rule.declarations }

/-- The declarations of the local variables of a class, followed by its own properties. -/
def ownProperties (display : Text) (style : Style) : Properties :=
  let locals : Properties := .ofList (style.localVariables.entries.map fun (name, value) =>
    (Naming.localVariable name display, value))
  locals.merge style.base

/-- The rule of the root variables, if there are any. -/
def rootRules (style : Style) : List Rule :=
  if style.rootVariables.isEmpty then []
  else [{ selector := ":root", declarations := style.rootVariables }]

end Style

namespace QueryTree

/-- Queries with the selector of their common parent. -/
def under (parent : Text) (queries : List QueryTree) : List (Text × QueryTree) :=
  queries.map fun query => (parent, query)

@[simp]
theorem map_snd_under (parent : Text) (queries : List QueryTree) :
    (under parent queries).map Prod.snd = queries := by
  simp [under, Function.comp_def]

/-- The rules of nested queries, each given with the selector of its parent, in the order of a walk
that finishes each query before the next. -/
def rules (names : OrderedMap Text Text) (owner : Text) :
    List (Text × QueryTree) → Except Error (List Rule)
  | [] => .ok []
  | (parent, node written _ style children) :: rest => do
    let selector ← Selector.nest names parent written
    let more ← rules names owner (under selector children ++ rest)
    return style.rules owner selector style.base ++ more
termination_by queries => forestSize (queries.map Prod.snd)
decreasing_by
  simp only [List.map_append, map_snd_under, forestSize_append, List.map_cons, forestSize, size]
  omega

end QueryTree

/-- The rules of a class: its style and its nested queries, given the final names of the classes of
the source. -/
def classRules (names : OrderedMap Text Text) (display : Text) (style : Style)
    (queries : List QueryTree) : Except Error (List Rule) :=
  let selector := "." ++ display
  (QueryTree.rules names display (QueryTree.under selector queries)).map fun nested =>
    style.rootRules ++ style.rules display selector (style.ownProperties display) ++ nested

end TerseStyle

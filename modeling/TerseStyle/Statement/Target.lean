import TerseStyle.Style.Basic
import TerseStyle.Value
import TerseStyle.Vocabulary.Name

/-!
# Targets

Declarations stand either at the top level of a body or inside a block. A `Target` says what the
declarations of that place may do and what they contribute: at the top level a whole style, inside
a block only the `Body` of that block. A body therefore cannot reach beyond its block; `Slot.place`
and `Condition.place` turn it into the contribution of the block.
-/

namespace TerseStyle

/-- What the declarations of one block contribute. -/
@[ext]
structure Body where
  /-- Properties of the block. -/
  properties : Properties := ∅
  /-- Runtime variables of the block with their defaults. -/
  defaults : Properties := ∅
  /-- Local variables that are mentioned. -/
  usedLocals : Names := ∅
  deriving DecidableEq

namespace Body

instance : EmptyCollection Body := ⟨{ properties := ∅ }⟩

/-- The contributions of the first body followed by those of the second. -/
def append (left right : Body) : Body where
  properties := left.properties.merge right.properties
  defaults := left.defaults.merge right.defaults
  usedLocals := left.usedLocals.merge right.usedLocals

instance : Append Body := ⟨append⟩

/-- The same value for several properties. -/
def ofProperties (names : List Text) (value : Text) : Body :=
  { properties := OrderedMap.ofList (names.map fun name => (name, value)) }

end Body

/-- Local variables of the place where a declaration stands. -/
structure LocalScope (ω : Type) where
  /-- Whether a variable is declared already. -/
  isDeclared : Text → Bool
  /-- The contribution of declaring a variable with a value. -/
  declare : Text → Text → ω

/-- The place where a declaration stands. -/
structure Target (ω : Type) where
  /-- How messages name the place. -/
  label : Text
  /-- The name of the block in references to its runtime variables. -/
  block : Text
  /-- Whether the place is a pseudo-element. -/
  isElement : Bool
  /-- Whether runtime variables may be declared. -/
  takesRuntime : Bool
  /-- The local variables, where they may be declared. -/
  locals? : Option (LocalScope ω)
  /-- The contribution of declarations that write into the place itself. -/
  contribute : Body → ω
  /-- The contribution of a fragment of the theme, perhaps made important. -/
  define : (fragment : Style) → (important : Bool) → ω

/-- The properties of a fragment, perhaps made important. -/
def Style.importantBase (important : Bool) (fragment : Style) : Properties :=
  fragment.base.map (Value.withImportance important)

/-- The contribution of a body at the top level. -/
def Style.ofBody (body : Body) : Style where
  base := body.properties
  usedLocals := body.usedLocals
  hasRuntime := !body.defaults.isEmpty
  pending := { base := body.defaults }

namespace Target

/-- The top level of a body. A fragment is used as a whole; if it is to be important, its own
properties are written once more with the mark. -/
def topLevel (isDeclared : Text → Bool) : Target Style where
  label := "base"
  block := []
  isElement := false
  takesRuntime := true
  locals? := some
    { isDeclared
      declare := fun name value => { localVariables := OrderedMap.single name value } }
  contribute := Style.ofBody
  define := fun fragment important =>
    if important then fragment.shared ++ { base := fragment.importantBase true }
    else fragment.shared

/-- The inside of a block. Of a fragment only its own properties are taken. -/
def insideBlock (label name : Text) (isElement takesRuntime : Bool) : Target Body where
  label
  block := name
  isElement
  takesRuntime
  locals? := none
  contribute := id
  define := fun fragment important => { properties := fragment.importantBase important }

end Target

/-- A block that belongs to the element or its surroundings. -/
inductive Slot where
  /-- A pseudo-class. -/
  | state (name : Text)
  /-- A pseudo-element. -/
  | element (name : Text)
  /-- A plugin state with its selector. -/
  | pluginState (name selector : Text)
  /-- A plugin container, by the head of the block, with its class. -/
  | pluginContainer (name containerClass : Text)
  deriving Repr, DecidableEq

namespace Slot

/-- The block that a name heads. -/
def ofHead? (head : Text) : Option Slot :=
  if head ∈ Vocabulary.pseudoClasses then some (state head)
  else if head ∈ Vocabulary.pseudoElements then some (element head)
  else
    match Vocabulary.pluginStateSelector? head with
    | some selector => some (pluginState head selector)
    | none => (Vocabulary.pluginContainerClass? head).map (pluginContainer head)

/-- The inside of the block. -/
def target : Slot → Target Body
  | state name => .insideBlock name name false true
  | element name => .insideBlock name name true true
  | pluginState name _ => .insideBlock name name false true
  | pluginContainer name containerClass => .insideBlock name containerClass false true

/-- The contribution of a block with the given body. The block gets its entries even if the body is
empty. -/
def place (body : Body) : Slot → Style
  | state name =>
    { states := .single name body.properties
      usedLocals := body.usedLocals
      hasRuntime := !body.defaults.isEmpty
      pending := { states := .single name body.defaults } }
  | element name =>
    { elements := .single name body.properties
      usedLocals := body.usedLocals
      hasRuntime := !body.defaults.isEmpty
      pending := { elements := .single name body.defaults } }
  | pluginState name selector =>
    { pluginStates := .single name { selector, properties := body.properties }
      usedLocals := body.usedLocals
      hasRuntime := !body.defaults.isEmpty
      pending := { states := .single name body.defaults } }
  | pluginContainer _ containerClass =>
    { pluginContainers := .single containerClass body.properties
      usedLocals := body.usedLocals
      hasRuntime := !body.defaults.isEmpty
      pending := { containers := .single containerClass body.defaults } }

end Slot

/-- What a condition is about. -/
inductive Condition where
  | screen
  | container
  deriving Repr, DecidableEq

namespace Condition

/-- The head of the block. -/
def head : Condition → Text
  | screen => "screen"
  | container => "container"

/-- The condition that a name heads. -/
def ofHead? (name : Text) : Option Condition :=
  if name = screen.head then some screen
  else if name = container.head then some container
  else none

/-- The inside of the block, which takes no runtime variables. -/
def target (condition : Condition) : Target Body :=
  .insideBlock condition.head [] false false

/-- The contribution of a block with the given condition and properties. -/
def place (query : Text) (properties : Properties) : Condition → Style
  | screen => { screens := [{ query, properties }] }
  | container => { containers := [{ query, properties }] }

end Condition

end TerseStyle

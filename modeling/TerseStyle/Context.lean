import TerseStyle.Text.Basic

/-!
# Contexts

A statement may stand in the body of a class, in a constant, in a nested query, in a fragment of
the theme or in a step of a keyframe. The context decides which forms of statement are allowed.
-/

namespace TerseStyle

/-- Where a statement stands. -/
inductive Context where
  | rule
  | constant
  | query
  | theme
  | keyframe
  deriving Repr, DecidableEq

namespace Context

/-- Runtime variables may be declared. -/
def allowsRuntime : Context → Bool
  | rule | keyframe => true
  | constant | query | theme => false

/-- Local variables may be declared. -/
def allowsLocalDeclarations : Context → Bool
  | rule => true
  | constant | query | theme | keyframe => false

/-- Local variables may be referred to. -/
def allowsLocalReferences : Context → Bool
  | rule | constant | query => true
  | theme | keyframe => false

/-- A declaration may carry the importance mark. -/
def allowsImportance : Context → Bool
  | rule | query | keyframe => true
  | constant | theme => false

/-- Blocks may be opened. -/
def allowsBlocks : Context → Bool
  | rule | constant | query | theme => true
  | keyframe => false

/-- The name of the context in messages. -/
def label : Context → String
  | rule => "class"
  | constant => "@const block"
  | query => "@query block"
  | theme => "theme define"
  | keyframe => "@keyframe step"

end Context

end TerseStyle

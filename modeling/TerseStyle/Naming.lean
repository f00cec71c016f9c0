import TerseStyle.Text.Basic

/-!
# Final names

A class, a keyframe or a variable gets its final name from the scope of the source and from the
class, keyframe step or block that it belongs to. The parts are joined by underscores and hyphens.
-/

namespace TerseStyle

namespace Naming

/-- The scope of a source that declares none. -/
def noScope : Text := "none"

/-- The final name of a class or keyframe. Without a scope it is the name itself. -/
def final (scope name : Text) : Text :=
  if scope = noScope then name else scope ++ "_" ++ name

/-- The custom property of a runtime variable. -/
def runtime (abbreviation display block : Text) : Text :=
  if block.isEmpty then "--" ++ abbreviation ++ "-" ++ display
  else "--" ++ abbreviation ++ "-" ++ display ++ "-" ++ block

/-- The custom property of a local variable. -/
def localVariable (name display : Text) : Text :=
  "--" ++ name ++ "-" ++ display

/-- A use of a custom property. -/
def use (property : Text) : Text :=
  "var(" ++ property ++ ")"

end Naming

end TerseStyle

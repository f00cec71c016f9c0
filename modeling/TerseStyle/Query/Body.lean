import TerseStyle.Query.Tree
import TerseStyle.Statement.Block

/-!
# Bodies of classes and queries

A body is a list of lines. A line `@use a b` takes over the named constants; the other lines, taken
together, are a list of statements. The constants come first, wherever their lines stand.
-/

namespace TerseStyle

/-- Fragments declared by a source, by name. -/
abbrev Constants := OrderedMap Text Style

namespace Query

/-- The constants that a line names, if it is a line of that kind. -/
def usedConstants? (line : Text) : Option (List Text) :=
  match Text.dropBeginning? "@use" line with
  | some [] => some []
  | some (.char ' ' :: names) => some (Text.words names)
  | _ => none

/-- The constants that the lines name, in order. -/
def usedConstants (lines : List Text) : List Text :=
  (lines.filterMap usedConstants?).flatten

/-- The lines that hold statements. -/
def statementLines (lines : List Text) : List Text :=
  lines.filter fun line => (usedConstants? line).isNone

end Query

namespace Style

/-- The style after using a constant. -/
def useConstant (constants : Constants) (nested : Bool) (name : Text) (style : Style) :
    Attempt Style :=
  match constants.get? name with
  | some fragment => { state := style.merge fragment }
  | none => { state := style, failure := some (Cause.unknownConstant name nested : Cause) }

/-- The style after using several constants, up to the first that is unknown. -/
def useConstants (constants : Constants) (nested : Bool) : List Text → Style → Attempt Style :=
  Attempt.forEach (useConstant constants nested)

/-- The style after the lines of a body. -/
def dispatchLines (environment : Environment) (constants : Constants) (nested : Bool)
    (lines : List Text) (style : Style) : Attempt Style :=
  (style.useConstants constants nested (Query.usedConstants lines)).andThen
    (dispatchBody environment (Text.joinWith ['\n'] (Query.statementLines lines)))

end Style

namespace QueryTree

mutual

/-- Adds to every query of a tree what its lines contribute, each query before those inside it, up
to the first failure. -/
def compile (environment : Environment) (constants : Constants) : QueryTree → Attempt QueryTree
  | node selector lines style children =>
    let own := style.dispatchLines { environment with context := .query } constants true lines
    match own.failure with
    | some error => { state := node selector lines own.state children, failure := some error }
    | none =>
      (compileForest environment constants children).map fun children =>
        node selector lines own.state children

/-- Adds to every query of a forest what its lines contribute, up to the first failure. -/
def compileForest (environment : Environment) (constants : Constants) :
    List QueryTree → Attempt (List QueryTree)
  | [] => { state := [] }
  | tree :: rest =>
    let compiled := compile environment constants tree
    match compiled.failure with
    | some error => { state := compiled.state :: rest, failure := some error }
    | none => (compileForest environment constants rest).map (compiled.state :: ·)

end

end QueryTree

end TerseStyle

import TerseStyle.Attempt
import TerseStyle.Statement.Flat

/-!
# Statements

A statement is a flat declaration or a block. The head of a block decides where its declarations
land. `Style.dispatch` adds the contribution of a statement to a style; if the statement fails half
way, the part that was read before the failure is added.
-/

namespace TerseStyle

/-- The head and the inside of a block statement. A statement that looks like a declaration is no
block, whatever it ends with. -/
def blockParts? (statement : Text) : Option (Text × Text) :=
  if Declaration.looksLike statement || statement.getLast? != some (CodePoint.char ')') then none
  else
    match Text.splitAtChar? '(' statement with
    | some (first :: head, rest) => some (first :: head, rest.dropLast)
    | _ => none

namespace Environment

/-- One declaration inside a block. -/
def blockToken (environment : Environment) (target : Target Body) (token : Text) :
    Draft Body Unit :=
  if (blockParts? token).isSome then .fail (Cause.nestedBlock token : Cause)
  else
    (Draft.lift (Declaration.parse token)).andThen fun declaration =>
      environment.declare target token declaration

/-- The declarations inside a block. -/
def blockBody (environment : Environment) (target : Target Body) (inside : Text) :
    Draft Body Unit :=
  (Draft.lift (statements inside)).andThen fun tokens =>
    .forEach (environment.blockToken target) tokens

/-- The condition of a conditional block as it is written in the style sheet. A condition without
brackets is the key of a breakpoint. -/
def conditionQuery (environment : Environment) (kind : Condition) (statement written : Text) :
    Except Error Text :=
  let written := Text.trim written
  let condition? : Option JsonValue :=
    if CodePoint.char '[' ∈ written then some (.string written)
    else environment.theme.breakpoints.value? written
  match condition? with
  | none => .error (Cause.unknownBreakpoint written kind.head : Cause)
  | some (.string condition) =>
    match Declaration.read? condition with
    | none => .error (Cause.invalidCondition kind.head condition : Cause)
    | some declaration =>
      match Abbreviation.expand? declaration.name, declaration.sigil with
      | some (property :: _), .plain =>
        .ok ("(" ++ property ++ ":" ++ Text.trim declaration.value ++ ")")
      | _, _ => .error (Cause.unknownCondition declaration.name kind.head statement : Cause)
  | some _ => .error (Cause.defectiveTheme .conditionNotText : Cause)

/-- A block under a condition. It is added only if all of it can be read; the local variables that
it mentions count in any case. -/
def conditional (environment : Environment) (kind : Condition) (statement inside : Text) :
    Draft Style Unit :=
  (Draft.lift (splitTopLevel (· == CodePoint.char ',') inside)).andThen fun
    | none => .fail (Cause.conditionWithoutBody kind.head statement : Cause)
    | some (condition, body) =>
      (Draft.lift (environment.conditionQuery kind statement condition)).andThen fun query =>
        let draft := environment.blockBody kind.target body
        let used : Style := { usedLocals := draft.written.usedLocals }
        match draft.result with
        | .error error => ⟨used, .error error⟩
        | .ok () => ⟨used ++ kind.place query draft.written.properties, .ok ()⟩

/-- A block of the element or its surroundings. -/
def slotted (environment : Environment) (slot : Slot) (inside : Text) : Draft Style Unit :=
  let draft := environment.blockBody slot.target inside
  ⟨slot.place draft.written, draft.result⟩

/-- A block with a known head. -/
def block? (environment : Environment) (head statement inside : Text) :
    Option (Draft Style Unit) :=
  match Slot.ofHead? head with
  | some slot => some (environment.slotted slot inside)
  | none => (Condition.ofHead? head).map (environment.conditional · statement inside)

/-- A flat declaration at the top level. -/
def flat (environment : Environment) (isDeclared : Text → Bool) (statement : Text) :
    Draft Style Unit :=
  (Draft.lift (Declaration.parse statement)).andThen fun declaration =>
    environment.declare (.topLevel isDeclared) statement declaration

/-- What a statement contributes to a style in which some local variables are declared. A block with
an unknown head is read as a declaration, and refused as one. -/
def contribution (environment : Environment) (isDeclared : Text → Bool) (statement : Text) :
    Draft Style Unit :=
  match Text.trim statement with
  | [] => .done ()
  | .char '@' :: rest =>
    .fail (Cause.directiveInStatement environment.context (.char '@' :: rest) : Cause)
  | statement =>
    match blockParts? statement with
    | none => environment.flat isDeclared statement
    | some (head, inside) =>
      if !environment.context.allowsBlocks then
        .fail (Cause.blockDisallowed head environment.context statement : Cause)
      else (environment.block? head statement inside).getD (environment.flat isDeclared statement)

end Environment

namespace Style

/-- The style after a statement. -/
def dispatch (environment : Environment) (statement : Text) (style : Style) : Attempt Style :=
  let draft := environment.contribution style.localVariables.contains statement
  { state := style ++ draft.written, failure := draft.failure? }

/-- The style after several statements, up to the first that fails. -/
def dispatchAll (environment : Environment) : List Text → Style → Attempt Style :=
  Attempt.forEach (dispatch environment)

/-- The style after the statements of a body. -/
def dispatchBody (environment : Environment) (body : Text) (style : Style) : Attempt Style :=
  match statements body with
  | .error error => { state := style, failure := some error }
  | .ok statements => style.dispatchAll environment statements

end Style

end TerseStyle

import TerseStyle.Declaration
import TerseStyle.Draft
import TerseStyle.Scan.Statement
import TerseStyle.Statement.Target
import TerseStyle.Theme.Basic
import TerseStyle.Theme.Preset
import TerseStyle.Vocabulary.Abbreviation

/-!
# Flat declarations

What a single declaration contributes to the place where it stands. A plain declaration sets the
properties of its abbreviation, applies a typography preset or takes a fragment from the theme; a
custom property is set as it is; a local variable is declared; a runtime variable gets a default
and its properties refer to it.
-/

namespace TerseStyle

namespace Environment

variable {ω : Type} [EmptyCollection ω] [Append ω]

/-- The value with its variables wrapped and its local variables made references. Local variables
are noted as used. -/
def resolveValue (environment : Environment) (target : Target ω) (statement value : Text) :
    Draft ω Text :=
  if Reference.hasMarker value then .fail (Cause.reservedInStatement statement : Cause)
  else
    let wrapped := Value.wrapVariables value
    if !Value.mentionsLocal wrapped then .done wrapped
    else if !environment.context.allowsLocalReferences then
      .fail (Cause.localReferenceDisallowed environment.context statement : Cause)
    else
      (Draft.write (target.contribute { usedLocals := .ofList (Value.localNames wrapped) })).andThen
        fun _ => .done (Value.referLocals wrapped)

/-- The value of an animation with its first word, the name of a keyframe, made final. -/
def renameKeyframe (environment : Environment) (value : Text) : Except Error Text :=
  match Text.words value with
  | [] => .ok value
  | first :: rest =>
    match environment.keyframe? first with
    | none => .ok (Text.trim value)
    | some (.string renamed) => .ok (Text.joinWith [' '] (renamed :: rest))
    | some _ => .error (Cause.defectiveTheme .keyframeNotText : Cause)

/-- Declares a custom property. -/
def custom (environment : Environment) (target : Target ω) (statement : Text)
    (declaration : Declaration) : Draft ω Unit :=
  (environment.resolveValue target statement declaration.value).andThen fun value =>
    .write (target.contribute (.ofProperties ["--" ++ declaration.name]
      (Value.withImportance declaration.important value)))

/-- Sets the properties of an abbreviation. -/
def setProperties (environment : Environment) (target : Target ω) (statement : Text)
    (declaration : Declaration) (properties : List Text) : Draft ω Unit :=
  let isAnimation := declaration.name = "am" ∨ declaration.name = "am-n"
  let renamed : Except Error Text :=
    if isAnimation then environment.renameKeyframe declaration.value else .ok declaration.value
  (Draft.lift renamed).andThen fun value =>
    (environment.resolveValue target statement value).andThen fun value =>
      let value := if declaration.name = "ct" ∧ target.isElement then Value.quoted value else value
      .write (target.contribute (.ofProperties properties
        (Value.withImportance declaration.important value)))

/-- Takes a fragment of a define group from the theme. -/
def useFragment (environment : Environment) (target : Target ω) (statement : Text)
    (declaration : Declaration) : Draft ω Unit :=
  match Text.words declaration.value with
  | [variant] =>
    match environment.theme.fragment? declaration.name variant with
    | none => .fail (Cause.unknownVariant declaration.name variant : Cause)
    | some fragment => .write (target.define fragment declaration.important)
  | _ => .fail (Cause.variantCount declaration.name statement : Cause)

/-- A plain declaration that is no typography preset, or a custom property. -/
def basic (environment : Environment) (target : Target ω) (statement : Text)
    (declaration : Declaration) : Draft ω Unit :=
  if declaration.sigil = .custom then environment.custom target statement declaration
  else
    match Abbreviation.expand? declaration.name with
    | some properties => environment.setProperties target statement declaration properties
    | none =>
      if environment.theme.isGroup declaration.name then
        environment.useFragment target statement declaration
      else .fail (Cause.unknownAbbreviation declaration.name statement : Cause)

/-- Whether the declaration carries a mark that the context does not allow. -/
def refusesImportance (environment : Environment) (declaration : Declaration) : Bool :=
  declaration.important && !environment.context.allowsImportance

/-- One declaration of a typography preset, important if the preset is used as important. -/
def presetToken (environment : Environment) (target : Target ω) (key : Text) (important : Bool)
    (token : Text) : Draft ω Unit :=
  (Draft.lift (Declaration.parse token)).andThen fun declaration =>
    if declaration.name = "ty" ∨ declaration.sigil = .runtime ∨
        declaration.sigil = .localVariable then
      .fail (Cause.unsupportedPresetToken key token : Cause)
    else
      let declaration := { declaration with important := important || declaration.important }
      if environment.refusesImportance declaration then
        .fail (Cause.importanceDisallowed environment.context token : Cause)
      else environment.basic target token declaration

/-- Applies a typography preset of the theme. -/
def usePreset (environment : Environment) (target : Target ω) (statement : Text)
    (declaration : Declaration) : Draft ω Unit :=
  let key := Text.trim declaration.value
  match environment.theme.typography.value? key with
  | none => .fail (Cause.unknownTypography key statement : Cause)
  | some preset =>
    (Draft.lift (Preset.statements preset)).andThen fun tokens =>
      .forEach (environment.presetToken target key declaration.important) tokens

/-- Declares a local variable. -/
def declareLocal (environment : Environment) (target : Target ω) (statement : Text)
    (declaration : Declaration) : Draft ω Unit :=
  if !environment.context.allowsLocalDeclarations then
    .fail (Cause.localDeclarationDisallowed environment.context.label statement : Cause)
  else
    match target.locals? with
    | none => .fail (Cause.localDeclarationDisallowed (target.label ++ "(...)") statement : Cause)
    | some locals =>
      if declaration.important then .fail (Cause.importantLocal statement : Cause)
      else if Abbreviation.isKnown declaration.name then
        .fail (Cause.localShadowsAbbreviation declaration.name : Cause)
      else if locals.isDeclared declaration.name then
        .fail (Cause.localRedeclared declaration.name : Cause)
      else
        (environment.resolveValue target statement declaration.value).andThen fun value =>
          .write (locals.declare declaration.name value)

/-- Declares a runtime variable: its default, and properties that refer to it. -/
def declareRuntime (environment : Environment) (target : Target ω) (statement : Text)
    (declaration : Declaration) : Draft ω Unit :=
  let name := declaration.name
  if !environment.context.allowsRuntime then
    .fail (Cause.runtimeDisallowed name environment.context statement : Cause)
  else if !target.takesRuntime then
    .fail (Cause.runtimeInBlock name target.label statement : Cause)
  else if name = "ty" then .fail (Cause.runtimeTypography statement : Cause)
  else if Value.mentionsLocal declaration.value then
    .fail (Cause.runtimeRefersToLocal statement : Cause)
  else
    match Abbreviation.expand? name with
    | none => .fail (Cause.unknownRuntimeAbbreviation name statement : Cause)
    | some properties =>
      (environment.resolveValue target statement declaration.value).andThen fun value =>
        let reference := (Reference.runtime name target.block).render
        .write (target.contribute
          { Body.ofProperties properties (Value.withImportance declaration.important reference) with
            defaults := .single name value })

/-- What a declaration contributes to the place where it stands. -/
def declare (environment : Environment) (target : Target ω) (statement : Text)
    (declaration : Declaration) : Draft ω Unit :=
  if environment.refusesImportance declaration then
    .fail (Cause.importanceDisallowed environment.context statement : Cause)
  else
    match declaration.sigil with
    | .localVariable => environment.declareLocal target statement declaration
    | .runtime => environment.declareRuntime target statement declaration
    | .custom => environment.basic target statement declaration
    | .plain =>
      if declaration.name = "ty" then environment.usePreset target statement declaration
      else environment.basic target statement declaration

end Environment

end TerseStyle

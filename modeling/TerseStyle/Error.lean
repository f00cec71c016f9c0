import TerseStyle.Context
import TerseStyle.Theme.Defect

/-!
# Errors

An error is a cause and, where the text it was found in is known, a line of that text. The cause
fixes everything else: the kind of mistake, whether it is one of structure or of meaning, and the
wording of the message.
-/

namespace TerseStyle

namespace Error

/-- What sort of mistake an error reports. -/
inductive Kind where
  | unterminatedBlock
  | unbalanced
  | duplicateName
  | invalidSyntax
  | unknownAbbreviation
  | unknownThemeKey
  | unknownReference
  | disallowedContext
  | undeclaredVariable
  | conflictingDeclaration
  | ambiguousName
  | internal
  deriving Repr, DecidableEq

/-- The kind as a word of diagnostics. -/
def Kind.word : Kind → String
  | unterminatedBlock => "unterminated_block"
  | unbalanced => "unbalanced"
  | duplicateName => "duplicate_name"
  | invalidSyntax => "invalid_syntax"
  | unknownAbbreviation => "unknown_abbreviation"
  | unknownThemeKey => "unknown_theme_key"
  | unknownReference => "unknown_reference"
  | disallowedContext => "disallowed_context"
  | undeclaredVariable => "undeclared_variable"
  | conflictingDeclaration => "conflicting_declaration"
  | ambiguousName => "ambiguous_name"
  | internal => "internal"

/-- Whether the text is badly formed, well formed but meaningless, or a promise of the compiler
itself was broken. -/
inductive Category where
  | structural
  | semantic
  | internal
  deriving Repr, DecidableEq

end Error

/-- Why a text cannot be compiled. -/
inductive Cause where
  /-- A closing bracket that closes nothing. -/
  | unexpectedCloser (closer : CodePoint) (excerpt : Text)
  /-- A block inside a block. -/
  | nestedBlock (excerpt : Text)
  /-- A brace or an at sign inside a block. -/
  | forbiddenInBlock (c : CodePoint) (excerpt : Text)
  /-- A bracket that is never closed. -/
  | missingCloser (opener : CodePoint) (excerpt : Text)
  /-- A brace that is never closed. -/
  | missingBrace (line : Nat)
  /-- A statement that is no declaration. -/
  | invalidDeclaration (statement : Text)
  /-- A reserved character inside a statement. -/
  | reservedInStatement (statement : Text)
  /-- A reserved character inside a source. -/
  | reservedInSource
  | localReferenceDisallowed (context : Context) (statement : Text)
  | importanceDisallowed (context : Context) (statement : Text)
  /-- A local variable declared in a context or block that takes none. -/
  | localDeclarationDisallowed (place statement : Text)
  | importantLocal (statement : Text)
  | localShadowsAbbreviation (name : Text)
  | localRedeclared (name : Text)
  | runtimeDisallowed (name : Text) (context : Context) (statement : Text)
  /-- A runtime variable declared in a block that takes none. -/
  | runtimeInBlock (name label statement : Text)
  | runtimeTypography (statement : Text)
  | runtimeRefersToLocal (statement : Text)
  | unknownRuntimeAbbreviation (name statement : Text)
  | unknownAbbreviation (name statement : Text)
  | unknownTypography (key statement : Text)
  /-- A typography preset that holds something other than a plain declaration. -/
  | unsupportedPresetToken (key token : Text)
  | variantCount (group statement : Text)
  | unknownVariant (group variant : Text)
  | unknownBreakpoint (key kind : Text)
  /-- A condition that is no declaration. -/
  | invalidCondition (kind condition : Text)
  /-- A condition on something that is no property. -/
  | unknownCondition (name kind statement : Text)
  /-- A conditional block without a comma after its condition. -/
  | conditionWithoutBody (kind statement : Text)
  | directiveInStatement (context : Context) (statement : Text)
  | blockDisallowed (head : Text) (context : Context) (statement : Text)
  /-- Two constants or two keyframes of one name. -/
  | duplicateBlock (kind name : Text)
  | duplicateClass (name : Text)
  | queryInConstant (name : Text)
  | blockInConstant (name : Text)
  | invalidScope (value : Text)
  | repeatedScope
  | strayText (excerpt : Text)
  | queryWithoutBrace
  | queryWithoutSelector
  /-- A use of a constant that is not declared, in a class or in a nested query. -/
  | unknownConstant (name : Text) (nested : Bool)
  | unknownScopeReference (name : Text)
  /-- A runtime variable in a source without scope. -/
  | runtimeWithoutScope (display : Text)
  | runtimeUndeclared (name display : Text)
  | unresolvedReference (reference : Text)
  | invalidStep (statement : Text)
  | stepOutOfRange (label statement : Text)
  | localInKeyframe (statement : Text)
  | directiveInKeyframe (statement : Text)
  | undeclaredLocal (name owner scope : Text)
  | invalidBind (value : Text)
  | duplicateBind (key : Text)
  | bindNamesClass (key : Text)
  | bindWithoutDot (reference : Text)
  | unknownBindClass (name : Text)
  | unknownDirective (name : Text)
  /-- A define group that has the name of an abbreviation. -/
  | groupIsAbbreviation (group : Text)
  | invalidThemeFile (path reason : Text)
  | themeNotObject (path : Text)
  /-- A theme, or an entry of it that is used, of the wrong form. -/
  | defectiveTheme (defect : Theme.Defect)
  deriving Repr, DecidableEq

namespace Cause

open Error

/-- The kind of mistake. -/
def kind : Cause → Kind
  | missingCloser .. | missingBrace .. | queryWithoutBrace => .unterminatedBlock
  | unexpectedCloser .. => .unbalanced
  | duplicateBlock .. | duplicateClass .. | repeatedScope | duplicateBind .. => .duplicateName
  | nestedBlock .. | forbiddenInBlock .. | invalidDeclaration .. | reservedInStatement ..
  | reservedInSource | invalidCondition .. | conditionWithoutBody .. | directiveInStatement ..
  | queryInConstant .. | blockInConstant .. | invalidScope .. | strayText ..
  | queryWithoutSelector | invalidStep .. | stepOutOfRange .. | directiveInKeyframe ..
  | invalidBind .. | bindWithoutDot .. | unknownDirective .. | invalidThemeFile ..
  | themeNotObject .. => .invalidSyntax
  | unknownRuntimeAbbreviation .. | unknownAbbreviation .. | unknownCondition .. =>
    .unknownAbbreviation
  | unknownTypography .. | unknownVariant .. | unknownBreakpoint .. => .unknownThemeKey
  | unknownConstant .. | unknownScopeReference .. | unknownBindClass .. => .unknownReference
  | localReferenceDisallowed .. | importanceDisallowed .. | localDeclarationDisallowed ..
  | runtimeDisallowed .. | runtimeInBlock .. | runtimeTypography .. | unsupportedPresetToken ..
  | variantCount .. | blockDisallowed .. | runtimeWithoutScope .. | localInKeyframe .. =>
    .disallowedContext
  | undeclaredLocal .. => .undeclaredVariable
  | importantLocal .. | localShadowsAbbreviation .. | localRedeclared ..
  | runtimeRefersToLocal .. | bindNamesClass .. => .conflictingDeclaration
  | groupIsAbbreviation .. => .ambiguousName
  | runtimeUndeclared .. | unresolvedReference .. | defectiveTheme .. => .internal

/-- Whether structure, meaning or the compiler is at fault. -/
def category : Cause → Category
  | unexpectedCloser .. | nestedBlock .. | forbiddenInBlock .. | missingCloser ..
  | missingBrace .. | invalidDeclaration .. | reservedInStatement .. | reservedInSource
  | invalidCondition .. | conditionWithoutBody .. | duplicateBlock .. | duplicateClass ..
  | queryInConstant .. | blockInConstant .. | invalidScope .. | repeatedScope | strayText ..
  | queryWithoutBrace | queryWithoutSelector | invalidStep .. | stepOutOfRange ..
  | invalidBind .. | duplicateBind .. | invalidThemeFile .. | themeNotObject .. => .structural
  | runtimeUndeclared .. | unresolvedReference .. | defectiveTheme .. => .internal
  | _ => .semantic

/-- The text between double quotation marks. -/
def marked (text : Text) : Text :=
  "\"" ++ text ++ "\""

/-- The wording of the cause. -/
def describe : Cause → Text
  | unexpectedCloser closer excerpt =>
    "Unexpected " ++ marked [closer] ++ " in " ++ marked excerpt ++ "."
  | nestedBlock excerpt => "Nested blocks are not allowed. Found: " ++ marked excerpt
  | forbiddenInBlock c excerpt =>
    marked [c] ++ " is not allowed inside a block. Found: " ++ marked excerpt
  | missingCloser opener excerpt =>
    "Missing closing for " ++ marked [opener] ++ " in " ++ marked excerpt ++ "."
  | missingBrace line =>
    "Missing closing \"\x7d\" for block starting at line " ++ Text.ofNat line ++ "."
  | invalidDeclaration statement =>
    "Invalid declaration " ++ marked statement ++ ". Expected <name>[<value>]."
  | reservedInStatement statement =>
    "Reserved characters \"⟦⟧\" found in " ++ marked statement ++ "."
  | reservedInSource => "Reserved characters \"⟦⟧\" are not allowed."
  | localReferenceDisallowed context statement =>
    "Local variable references are not allowed in " ++ context.label ++ ". Found: " ++
      marked statement
  | importanceDisallowed context statement =>
    "!important is not allowed in " ++ context.label ++ ". Found: " ++ marked statement
  | localDeclarationDisallowed place statement =>
    "Local variable declarations are not allowed in " ++ place ++ ". Found: " ++ marked statement
  | importantLocal statement =>
    "!important is not allowed with a local variable. Found: " ++ marked statement
  | localShadowsAbbreviation name =>
    "Local variable " ++ marked ("--&" ++ name) ++ " shadows the abbreviation " ++
      marked name ++ "."
  | localRedeclared name => "Local variable " ++ marked ("--&" ++ name) ++ " is already declared."
  | runtimeDisallowed name context statement =>
    "Runtime variable ($" ++ name ++ ") is not allowed in " ++ context.label ++ ". Found: " ++
      marked statement
  | runtimeInBlock name label statement =>
    "Runtime variable ($" ++ name ++ ") cannot be used in " ++ label ++ "(...). Found: " ++
      marked statement
  | runtimeTypography statement => "\"$ty[...]\" is not allowed. Found: " ++ marked statement
  | runtimeRefersToLocal statement =>
    "Runtime variable cannot reference a local variable. Found: " ++ marked statement
  | unknownRuntimeAbbreviation name statement =>
    marked name ++ " not defined in style abbreviation. Found: " ++ marked statement
  | unknownAbbreviation name statement =>
    marked name ++ " not defined in style abbreviation or theme define. Found: " ++ marked statement
  | unknownTypography key statement =>
    "Typography key " ++ marked key ++ " not found in theme typography. Found: " ++ marked statement
  | unsupportedPresetToken key token =>
    "Typography " ++ marked key ++ " contains an unsupported token " ++ marked token ++ "."
  | variantCount group statement =>
    marked (group ++ "[...]") ++ " takes exactly one variant key. Found: " ++ marked statement
  | unknownVariant group variant =>
    marked (group ++ "[" ++ variant ++ "]") ++ " not found in theme define."
  | unknownBreakpoint key kind =>
    "Unknown breakpoint key " ++ marked key ++ " not found in theme breakpoints for " ++ kind ++
      "(...)."
  | invalidCondition kind condition =>
    marked kind ++ " must contain something like min-w[600px]. Got " ++ marked condition
  | unknownCondition name kind statement =>
    marked name ++ " is not a valid " ++ kind ++ " condition. Found: " ++ marked statement
  | conditionWithoutBody kind statement => marked kind ++ " syntax error: " ++ marked statement
  | directiveInStatement context statement =>
    "Unexpected directive in " ++ context.label ++ ". Found: " ++ marked statement
  | blockDisallowed head context statement =>
    marked (head ++ "(...)") ++ " is not allowed in " ++ context.label ++ ". Found: " ++
      marked statement
  | duplicateBlock kind name =>
    "Duplicate " ++ kind ++ " name " ++ marked name ++ " in the same file."
  | duplicateClass name => "Duplicate class " ++ marked ("." ++ name) ++ " in the same file."
  | queryInConstant name => "@query is not allowed in @const block " ++ marked name ++ "."
  | blockInConstant name => "Nested blocks are not allowed in @const block " ++ marked name ++ "."
  | invalidScope value =>
    "Scope name must contain only letters, digits, underscore, or dash. Got: " ++ marked value
  | repeatedScope => "Only one @scope directive is allowed per file."
  | strayText excerpt => "Unexpected top-level text: " ++ marked excerpt
  | queryWithoutBrace => "Missing \"\x7b\" after @query."
  | queryWithoutSelector => "Missing selector after @query."
  | unknownConstant name nested =>
    let place := if nested then " in nested @query" else ""
    "@use refers to unknown const " ++ marked name ++ place ++ "."
  | unknownScopeReference name =>
    marked ("@scope." ++ name) ++ " does not match any class declared in this file."
  | runtimeWithoutScope display =>
    "$variable is not allowed in scope=none (found in " ++ marked display ++ ")."
  | runtimeUndeclared name display =>
    "Runtime variable " ++ marked ("$" ++ name) ++ " has no declaration in " ++
      marked display ++ "."
  | unresolvedReference reference => "Unresolved placeholder " ++ reference ++ " in output."
  | invalidStep statement => "Invalid keyframe syntax: " ++ marked statement
  | stepOutOfRange label statement =>
    "Keyframe step " ++ marked label ++ " is out of range. Found: " ++ marked statement
  | localInKeyframe statement =>
    "Local variable (--&xxx) is not allowed in @keyframe. Found: " ++ marked statement
  | directiveInKeyframe statement =>
    "Directives are not allowed in @keyframe. Found: " ++ marked statement
  | undeclaredLocal name owner scope =>
    "Local variable " ++ marked ("--&" ++ name) ++ " is used but not declared in " ++
      marked ("." ++ owner) ++ " (scope=" ++ marked scope ++ ")."
  | invalidBind value => "Invalid @bind syntax: " ++ marked ("@bind " ++ value)
  | duplicateBind key => "@bind key " ++ marked key ++ " is already used in this file."
  | bindNamesClass key =>
    "@bind key " ++ marked key ++ " conflicts with existing class " ++ marked ("." ++ key) ++ "."
  | bindWithoutDot reference =>
    "@bind must reference classes with a dot. Got " ++ marked reference
  | unknownBindClass name =>
    "@bind references " ++ marked ("." ++ name) ++ " but that class is not defined."
  | unknownDirective name => "Unknown directive " ++ marked ("@" ++ name) ++ "."
  | groupIsAbbreviation group =>
    "Define group " ++ marked group ++ " collides with the abbreviation " ++ marked group ++ "."
  | invalidThemeFile path reason => "Invalid theme file " ++ path ++ ": " ++ reason
  | themeNotObject path => "Theme file " ++ path ++ " must contain a JSON object."
  | defectiveTheme _ => "The theme has the wrong form."

end Cause

/-- A cause and, where it is known, the line of the scanned text. -/
structure Error where
  /-- What went wrong. -/
  cause : Cause
  /-- The line, counted from one. -/
  line : Option Nat := none
  deriving Repr, DecidableEq

namespace Error

/-- The kind of mistake. -/
def kind (error : Error) : Kind :=
  error.cause.kind

/-- Whether structure, meaning or the compiler is at fault. -/
def category (error : Error) : Category :=
  error.cause.category

/-- The defect of the theme behind an error, if there is one. -/
def defect? (error : Error) : Option Theme.Defect :=
  match error.cause with
  | .defectiveTheme defect => some defect
  | _ => none

/-- The message as it is shown, marked as a message of the compiler. -/
def message (error : Error) : Text :=
  "[CSS-CTRL-ERR] " ++ error.cause.describe

end Error

instance : Coe Cause Error := ⟨fun cause => { cause }⟩

end TerseStyle

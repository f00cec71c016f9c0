import TerseStyle.Proofs.Provenance
import TerseStyle.Proofs.Resolved

/-!
# What contexts keep out of styles

However many statements are dispatched in one context, and whether they succeed or fail, the style
that they lead to has nothing in it that the context does not allow: no runtime variable and no
local declaration in constants, queries and fragments of the theme, no reference to a local variable
in fragments and steps of keyframes, no important declaration in constants and fragments. The one
text that is copied into a style unseen is the condition of a block: references can stand there
exactly if they are spelled in a statement or in the theme.
-/

namespace TerseStyle

open Reference (Unmarked Within)

namespace Style

/-- The style after statements that are dispatched one by one in a context, each with the names of
the keyframes that it may use. A statement that fails leaves what it had written. -/
def dispatchEach (context : Context) (theme : Theme) :
    List (OrderedMap Text Text × Text) → Style → Style
  | [], style => style
  | (keyframes, statement) :: rest, style =>
    dispatchEach context theme rest
      (style.dispatch { context, theme, keyframes } statement).state

/-- What holds of a style, and still holds after every contribution of the statements, holds after
all of them. -/
theorem dispatchEach_induction {context : Context} {theme : Theme} (Good : Style → Prop)
    {calls : List (OrderedMap Text Text × Text)}
    (step : ∀ style contribution call, call ∈ calls → Good style →
      Contribution { context, theme, keyframes := call.1 } (Text.trim call.2) contribution →
      Good (style ++ contribution))
    {style : Style} (initial : Good style) : Good (style.dispatchEach context theme calls) := by
  induction calls generalizing style with
  | nil => exact initial
  | cons call rest ih =>
      apply ih
      · intro style contribution later isLater
        exact step style contribution later (List.mem_cons_of_mem _ isLater)
      · exact step _ _ call List.mem_cons_self initial (Environment.contribution_of_statement _)

/-- A text that stands somewhere in a style. -/
inductive Spells (style : Style) : Text → Prop where
  | name {name value : Text} (sets : style.Sets name value) : Spells style name
  | value {name value : Text} (sets : style.Sets name value) : Spells style value
  | label {label : Text} (isLabel : label ∈ style.labels) : Spells style label
  | localName {entry : Text × Text} (isEntry : entry ∈ style.localVariables.entries) :
      Spells style entry.1
  | localValue {entry : Text × Text} (isEntry : entry ∈ style.localVariables.entries) :
      Spells style entry.2
  | rootName {entry : Text × Text} (isEntry : entry ∈ style.rootVariables.entries) :
      Spells style entry.1
  | rootValue {entry : Text × Text} (isEntry : entry ∈ style.rootVariables.entries) :
      Spells style entry.2
  | default {block name default : Text}
      (isDefault : (block, name, default) ∈ style.pending.defaults) : Spells style default
  | condition {block : Conditional} (isBlock : block ∈ style.screens ++ style.containers) :
      Spells style block.query

namespace Sound

variable {style : Style}

/-- The texts of a sound style refer to what it covers, but for its conditions. -/
theorem within_of_spells (sound : style.Sound) {text : Text} (spells : style.Spells text) :
    Within style.Covers text ∨ ∃ block ∈ style.screens ++ style.containers, text = block.query := by
  cases spells with
  | name sets => exact Or.inl (.of_unmarked (sound.values sets).1)
  | value sets => exact Or.inl (sound.values sets).2
  | label isLabel => exact Or.inl (.of_unmarked (sound.labels _ isLabel))
  | localName isEntry => exact Or.inl (.of_unmarked (sound.locals _ isEntry).1)
  | localValue isEntry =>
      left
      apply (sound.locals _ isEntry).2.mono
      intro reference isLocal
      obtain ⟨name, isUsed, rfl⟩ := isLocal.exists_eq
      exact isUsed
  | rootName isEntry => simp [sound.rootVariables] at isEntry
  | rootValue isEntry => simp [sound.rootVariables] at isEntry
  | default isDefault => exact Or.inl (.of_unmarked (sound.defaults isDefault).2.2)
  | condition isBlock => exact Or.inr ⟨_, isBlock, rfl⟩

/-- Without pending variables, only a condition can spell a reference to a runtime variable. -/
theorem runtimeNames_eq_nil_iff (sound : style.Sound) (noVariable : style.pending.isEmpty = true) :
    (∀ text, style.Spells text → Reference.runtimeNames text = []) ↔
      ∀ block ∈ style.screens ++ style.containers, Reference.runtimeNames block.query = [] := by
  refine ⟨fun noneSpelled block isBlock => noneSpelled _ (.condition isBlock), ?_⟩
  intro plainConditions text spells
  rcases sound.within_of_spells spells with within | ⟨block, isBlock, rfl⟩
  · rw [Reference.runtimeNames, List.filterMap_eq_nil_iff]
    intro reference isFound
    have covers := (within.mem_all isFound).1
    cases reference with
    | runtime name block =>
        simp [Covers, Pending.isEmpty_iff_not_declares.mp noVariable] at covers
    | localVariable name => rfl
    | scope name => rfl
  · exact plainConditions block isBlock

/-- Without used local variables, only a condition can spell a reference to a local variable. -/
theorem localNames_eq_nil_iff (sound : style.Sound) (noneUsed : style.usedLocals = ∅) :
    (∀ text, style.Spells text → Reference.localNames text = []) ↔
      ∀ block ∈ style.screens ++ style.containers, Reference.localNames block.query = [] := by
  refine ⟨fun noneSpelled block isBlock => noneSpelled _ (.condition isBlock), ?_⟩
  intro plainConditions text spells
  rcases sound.within_of_spells spells with within | ⟨block, isBlock, rfl⟩
  · rw [Reference.localNames, List.filterMap_eq_nil_iff]
    intro reference isFound
    have covers := (within.mem_all isFound).1
    cases reference with
    | localVariable name => simp [Covers, noneUsed] at covers
    | runtime name block => rfl
    | scope name => rfl
  · exact plainConditions block isBlock

end Sound

section Run

variable {texts : Theme.Texts} {theme : Theme} {context : Context}
  {calls : List (OrderedMap Text Text × Text)}

theorem sound_dispatchEach (soundTheme : theme.Sound) :
    ((∅ : Style).dispatchEach context theme calls).Sound := by
  apply dispatchEach_induction Sound _ sound_empty
  intro style contribution call _ sound contributes
  exact sound.append (contributes.sound soundTheme)

theorem variableFree_dispatchEach (noRuntime : context.allowsRuntime = false)
    (noLocals : context.allowsLocalDeclarations = false) :
    ((∅ : Style).dispatchEach context theme calls).VariableFree := by
  apply dispatchEach_induction VariableFree _ variableFree_empty
  intro style contribution call _ free contributes
  exact free.append (contributes.variableFree noRuntime noLocals)

theorem usedLocals_dispatchEach (soundTheme : theme.Sound)
    (noReferences : context.allowsLocalReferences = false) :
    ((∅ : Style).dispatchEach context theme calls).usedLocals = ∅ := by
  apply dispatchEach_induction (fun style => style.usedLocals = ∅) _ rfl
  intro style contribution call _ noneUsed contributes
  rw [usedLocals_append, noneUsed, contributes.usedLocals noReferences soundTheme,
    OrderedMap.merge_empty]

theorem hasPlainConditions_dispatchEach (plainTheme : theme.HasPlainConditions)
    (unmarked : ∀ call ∈ calls, Unmarked call.2) :
    ((∅ : Style).dispatchEach context theme calls).HasPlainConditions := by
  apply dispatchEach_induction HasPlainConditions _ (.of_noConditions rfl rfl)
  intro style contribution call isCall plain contributes
  apply plain.append
  apply contributes.hasPlainConditions plainTheme
  exact (unmarked call isCall).of_subset fun c => Text.mem_of_mem_trim

theorem traces_dispatchEach (traced : theme.Traced texts) (bare : context.IsBare)
    {style : Style} {allowed : Text → Text → Prop} (setsOnly : style.SetsOnly allowed)
    (wide : ∀ call ∈ calls, ∀ name value, Environment.Traces texts
      { context, theme, keyframes := call.1 } call.2 name value → allowed name value) :
    (style.dispatchEach context theme calls).SetsOnly allowed := by
  induction calls generalizing style with
  | nil => exact setsOnly
  | cons call rest ih =>
      rw [dispatchEach]
      apply ih
      · apply setsOnly.append
        exact (Environment.traces_contribution traced bare _).mono (wide call List.mem_cons_self)
      · intro later isLater
        exact wide later (List.mem_cons_of_mem _ isLater)

end Run

end Style

namespace Environment

variable {environment : Environment} {declaration : Declaration}

theorem declare_of_refused {ω : Type} [EmptyCollection ω] [Append ω]
    (noImportance : environment.context.allowsImportance = false)
    (important : declaration.important = true) (target : Target ω) (statement : Text) :
    environment.declare target statement declaration =
      .fail (Cause.importanceDisallowed environment.context statement : Cause) := by
  have refused : environment.refusesImportance declaration = true := by
    simp [refusesImportance, noImportance, important]
  rw [declare, if_pos refused]

theorem Writes.unimportant (noImportance : environment.context.allowsImportance = false)
    {name value : Text} (writes : environment.Writes declaration name value) :
    declaration.important = false := by
  obtain ⟨_, _, _, _, _, _, isEntry⟩ := writes
  by_contra important
  rw [declare_of_refused noImportance (by simpa using important)] at isEntry
  simp [Draft.fail] at isEntry

end Environment

theorem Context.isBare_of_mem {context : Context} (isBare : context ∈ [Context.constant, .theme]) :
    context.IsBare := by
  simp only [List.mem_cons, List.not_mem_nil, or_false] at isBare
  rcases isBare with rfl | rfl
  · exact ⟨rfl, rfl, rfl⟩
  · exact ⟨rfl, rfl, rfl⟩

/-- In a context without importance no declaration that is reached is important and accepted. -/
theorem LeadsTo.noImportance {texts : Theme.Texts} {environment last : Environment}
    {statement : Text} {declaration : Declaration} (bare : environment.context.IsBare)
    (leads : LeadsTo texts environment statement last declaration) :
    last.context.allowsImportance = false := by
  rcases leads.context with same | isTheme
  · rw [same]
    exact bare.noImportance
  · rw [isTheme]
    rfl

/-- Contexts are enforced on every path, whatever presets, fragments and blocks it leads through and
whichever statements fail. Where runtime variables are not allowed, none is declared and no text of
the style refers to one, and where local variables are not allowed, none is mentioned, apart from
the conditions of blocks, which spell what they were written with. Where importance is not allowed,
each property comes from a declaration without it, and every declaration with it is refused. -/
theorem Style.respectsContext_dispatchEach {texts : Theme.Texts} {theme : Theme}
    (built : Theme.ofTexts texts = .ok theme) (context : Context)
    (calls : List (OrderedMap Text Text × Text)) :
    let style := (∅ : Style).dispatchEach context theme calls
    (context ∈ [Context.constant, .query, .theme] →
      style.VariableFree ∧
      ((∀ text, style.Spells text → Reference.runtimeNames text = []) ↔
        ∀ block ∈ style.screens ++ style.containers, Reference.runtimeNames block.query = [])) ∧
    (context ∈ [Context.theme, .keyframe] →
      style.usedLocals = ∅ ∧
      ((∀ text, style.Spells text → Reference.localNames text = []) ↔
        ∀ block ∈ style.screens ++ style.containers, Reference.localNames block.query = [])) ∧
    (context ∈ [Context.constant, .theme] →
      (style.SetsOnly fun name value => ∃ call ∈ calls, ∃ last declaration,
        LeadsTo texts { context, theme, keyframes := call.1 } call.2 last declaration ∧
          last.Writes declaration name value ∧ declaration.important = false) ∧
      ∀ call ∈ calls, ∀ last declaration,
        LeadsTo texts { context, theme, keyframes := call.1 } call.2 last declaration →
        declaration.important = true →
        ∀ (ω : Type) [EmptyCollection ω] [Append ω] (target : Target ω) (statement : Text),
          last.declare target statement declaration =
            .fail (Cause.importanceDisallowed last.context statement : Cause)) ∧
    ((∀ call ∈ calls, Unmarked call.2) → (∀ entry ∈ texts.breakpoints, Unmarked entry.2) →
      (∀ group ∈ texts.defines, ∀ entry ∈ group.2, Unmarked entry.2) →
      ∀ block ∈ style.screens ++ style.containers, Unmarked block.query) := by
  intro style
  have soundTheme : theme.Sound := Theme.sound_of_ofTexts built
  have sound : style.Sound := sound_dispatchEach soundTheme
  refine ⟨?_, ?_, ?_, ?_⟩
  · intro isContext
    have free : style.VariableFree := by
      simp only [List.mem_cons, List.not_mem_nil, or_false] at isContext
      rcases isContext with rfl | rfl | rfl <;> exact variableFree_dispatchEach rfl rfl
    exact ⟨free, sound.runtimeNames_eq_nil_iff free.pending⟩
  · intro isContext
    have noneUsed : style.usedLocals = ∅ := by
      simp only [List.mem_cons, List.not_mem_nil, or_false] at isContext
      rcases isContext with rfl | rfl <;> exact usedLocals_dispatchEach soundTheme rfl
    exact ⟨noneUsed, sound.localNames_eq_nil_iff noneUsed⟩
  · intro isContext
    have bare := Context.isBare_of_mem isContext
    constructor
    · refine traces_dispatchEach (Theme.traced_of_ofTexts built) bare .empty ?_
      rintro call isCall name value ⟨last, declaration, leads, writes⟩
      exact ⟨call, isCall, last, declaration, leads, writes,
        writes.unimportant (leads.noImportance bare)⟩
    · intro call _ last declaration leads important ω _ _ target statement
      exact Environment.declare_of_refused (leads.noImportance bare) important target statement
  · intro unmarkedCalls unmarkedBreakpoints unmarkedDefines
    exact hasPlainConditions_dispatchEach
      (Theme.hasPlainConditions_of_ofTexts built unmarkedBreakpoints unmarkedDefines) unmarkedCalls

set_option maxRecDepth 100000 in
/-- A constant that uses a fragment, which uses a preset; what is refused leaves what stands before
it. -/
theorem Style.respectsContext_dispatchEach_fragment :
    let texts : Theme.Texts :=
      { typography := [("body", "fs[16px] lh[1.5]")]
        defines := [("card", [("x", "ty[body] hover(bg[red])")])] }
    let calls : List (OrderedMap Text Text × Text) :=
      [(∅, "card[x]"), (∅, "focus(c[--&tone] bg[blue]!)"), (∅, "$bg[red]"), (∅, "ty[body]!")]
    ∃ theme, Theme.ofTexts texts = .ok theme ∧
      (∅ : Style).dispatchEach .constant theme calls =
        { base := .ofList [("font-size", "16px"), ("line-height", "1.5")]
          states := .ofList [("hover", .single "background-color" "red"),
            ("focus", .single "color" (Reference.localVariable "tone").render)]
          usedLocals := .single "tone" ()
          pending := { states := .single "focus" ∅ } } ∧
      ((∅ : Style).dispatchEach .constant theme calls).VariableFree ∧
      ∃ call ∈ calls, ∃ last declaration,
        LeadsTo texts { context := .constant, theme, keyframes := call.1 } call.2 last declaration ∧
          last.Writes declaration "font-size" "16px" ∧ declaration.important = false := by
  intro texts calls
  have evaluates : (Theme.ofTexts texts >>= fun theme =>
      (pure ((∅ : Style).dispatchEach .constant theme calls) : Except Error Style)) =
      .ok { base := .ofList [("font-size", "16px"), ("line-height", "1.5")]
            states := .ofList [("hover", .single "background-color" "red"),
              ("focus", .single "color" (Reference.localVariable "tone").render)]
            usedLocals := .single "tone" ()
            pending := { states := .single "focus" ∅ } } := by
    decide +kernel
  obtain ⟨theme, built, outcome⟩ := bind_eq_ok.mp evaluates
  have isStyle := Except.ok.inj outcome
  have respects := Style.respectsContext_dispatchEach built .constant calls
  refine ⟨theme, built, isStyle, (respects.1 (by decide)).1, (respects.2.2.1 (by decide)).1 _ _ ?_⟩
  rw [isStyle]
  exact .base (by decide)

set_option maxRecDepth 100000 in
/-- The condition of a block is copied as it is written, so that a constant can spell a reference to
a runtime variable there. -/
theorem Style.runtimeNames_ne_nil_condition :
    let style := (∅ : Style).dispatchEach .constant {} [(∅, "screen(min-w[⟦$:bg:⟧], w[2px])")]
    ∃ text, style.Spells text ∧ Reference.runtimeNames text = [(("bg" : Text), [])] := by
  intro style
  have isBlock : { query := "(min-width:⟦$:bg:⟧)", properties := .single "width" "2px" } ∈
      style.screens ++ style.containers := by
    decide +kernel
  exact ⟨_, .condition isBlock, by decide +kernel⟩

end TerseStyle

import TerseStyle.Proofs.Animation

/-!
# What a block leaves alone

A block statement changes nothing but the entries of its own head: not the element itself, not its
variables, and no other block, whatever presets and fragments its declarations take from the theme.
A fragment that is used inside a block gives its own properties only, and its blocks and conditions
stay behind. A block under a condition is added as a whole or not at all. All of this holds whether
the statement succeeds or fails half way (`Style.dispatch_isolated`).

Nested queries stand beside a style and not in it, so that no statement can reach them.
-/

namespace TerseStyle

namespace OrderedMap

variable {κ α : Type} [DecidableEq κ]

/-- The maps have the same entries in the same order, except for the one at a key if there is one.
-/
def AgreeExcept (own? : Option κ) (left right : OrderedMap κ α) : Prop :=
  left.entries.filter (fun entry => own? ≠ some entry.1) =
    right.entries.filter (fun entry => own? ≠ some entry.1)

theorem filter_insertEntry (combine : α → α → α) (key : κ) (value : α) (entries : List (κ × α)) :
    (insertEntry combine key value entries).filter (fun entry => some key ≠ some entry.1) =
      entries.filter (fun entry => some key ≠ some entry.1) := by
  induction entries with
  | nil => simp [insertEntry]
  | cons entry rest ih =>
      rw [insertEntry]
      split
      · next isKey => simp [isKey]
      · rw [List.filter_cons, List.filter_cons, ih]

theorem agreeExcept_single (combine : α → α → α) (map : OrderedMap κ α) (key : κ) (value : α) :
    AgreeExcept (some key) map (map.mergeWith combine (.single key value)) :=
  (filter_insertEntry combine key value map.entries).symm

end OrderedMap

namespace Slot

/-- The entry of the block among those of the pseudo-classes. -/
def ownState? : Slot → Option Text
  | state name => some name
  | element _ | pluginState _ _ | pluginContainer _ _ => none

/-- The entry of the block among those of the pseudo-elements. -/
def ownElement? : Slot → Option Text
  | element name => some name
  | state _ | pluginState _ _ | pluginContainer _ _ => none

/-- The entry of the block among those of the plugin states. -/
def ownPluginState? : Slot → Option Text
  | pluginState name _ => some name
  | state _ | element _ | pluginContainer _ _ => none

/-- The entry of the block among those of the plugin containers. -/
def ownPluginContainer? : Slot → Option Text
  | pluginContainer _ containerClass => some containerClass
  | state _ | element _ | pluginState _ _ => none

/-- The entry of the block among the runtime variables of states, which pseudo-classes and plugin
states share. -/
def ownStateDefaults? (slot : Slot) : Option Text :=
  slot.ownState?.or slot.ownPluginState?

end Slot

namespace Style

open OrderedMap (AgreeExcept agreeExcept_single)

/-- Nothing changed outside a block: not the element itself, not its variables, and no entry of
another block. Without a block, none of these changed at all. -/
structure AgreeOutside (slot? : Option Slot) (before after : Style) : Prop where
  base : after.base = before.base
  baseDefaults : after.pending.base = before.pending.base
  localVariables : after.localVariables = before.localVariables
  rootVariables : after.rootVariables = before.rootVariables
  states : AgreeExcept (slot?.bind Slot.ownState?) before.states after.states
  elements : AgreeExcept (slot?.bind Slot.ownElement?) before.elements after.elements
  pluginStates :
    AgreeExcept (slot?.bind Slot.ownPluginState?) before.pluginStates after.pluginStates
  pluginContainers : AgreeExcept (slot?.bind Slot.ownPluginContainer?) before.pluginContainers
    after.pluginContainers
  stateDefaults :
    AgreeExcept (slot?.bind Slot.ownStateDefaults?) before.pending.states after.pending.states
  elementDefaults :
    AgreeExcept (slot?.bind Slot.ownElement?) before.pending.elements after.pending.elements
  containerDefaults : AgreeExcept (slot?.bind Slot.ownPluginContainer?) before.pending.containers
    after.pending.containers

theorem AgreeOutside.refl (slot? : Option Slot) (style : Style) : AgreeOutside slot? style style :=
  ⟨rfl, rfl, rfl, rfl, rfl, rfl, rfl, rfl, rfl, rfl, rfl⟩

theorem AgreeOutside.trans {slot? : Option Slot} {first second third : Style}
    (ofFirst : AgreeOutside slot? first second) (ofSecond : AgreeOutside slot? second third) :
    AgreeOutside slot? first third where
  base := ofSecond.base.trans ofFirst.base
  baseDefaults := ofSecond.baseDefaults.trans ofFirst.baseDefaults
  localVariables := ofSecond.localVariables.trans ofFirst.localVariables
  rootVariables := ofSecond.rootVariables.trans ofFirst.rootVariables
  states := Eq.trans ofFirst.states ofSecond.states
  elements := Eq.trans ofFirst.elements ofSecond.elements
  pluginStates := Eq.trans ofFirst.pluginStates ofSecond.pluginStates
  pluginContainers := Eq.trans ofFirst.pluginContainers ofSecond.pluginContainers
  stateDefaults := Eq.trans ofFirst.stateDefaults ofSecond.stateDefaults
  elementDefaults := Eq.trans ofFirst.elementDefaults ofSecond.elementDefaults
  containerDefaults := Eq.trans ofFirst.containerDefaults ofSecond.containerDefaults

theorem agreeOutside_usedLocals (slot? : Option Slot) (style : Style) (used : Names) :
    AgreeOutside slot? style { style with usedLocals := used } :=
  ⟨rfl, rfl, rfl, rfl, rfl, rfl, rfl, rfl, rfl, rfl, rfl⟩

theorem agreeOutside_place (style : Style) (slot : Slot) (body : Body) :
    AgreeOutside (some slot) style (style ++ slot.place body) := by
  have own : ∀ {α : Type} {combine : α → α → α} {map : OrderedMap Text α} {name : Text} {value : α},
      AgreeExcept (some name) map (map.mergeWith combine (.single name value)) :=
    agreeExcept_single _ _ _ _
  cases slot with
  | state name => exact ⟨rfl, rfl, rfl, rfl, own, rfl, rfl, rfl, own, rfl, rfl⟩
  | element name => exact ⟨rfl, rfl, rfl, rfl, rfl, own, rfl, rfl, rfl, own, rfl⟩
  | pluginState name selector => exact ⟨rfl, rfl, rfl, rfl, rfl, rfl, own, rfl, own, rfl, rfl⟩
  | pluginContainer name containerClass =>
      exact ⟨rfl, rfl, rfl, rfl, rfl, rfl, rfl, own, rfl, rfl, own⟩

theorem conditionals_append_place (style : Style) (slot : Slot) (body : Body) (kind : Condition) :
    (style ++ slot.place body).conditionals kind = style.conditionals kind := by
  cases slot <;> cases kind <;> exact List.append_nil _

theorem agreeOutside_place_condition (style : Style) (kind : Condition) (query : Text)
    (properties : Properties) :
    AgreeOutside none style (style ++ kind.place query properties) := by
  cases kind <;> exact ⟨rfl, rfl, rfl, rfl, rfl, rfl, rfl, rfl, rfl, rfl, rfl⟩

theorem conditionals_append_place_condition (style : Style) (kind : Condition) (query : Text)
    (properties : Properties) :
    (style ++ kind.place query properties).conditionals kind =
      style.conditionals kind ++ [⟨query, properties⟩] := by
  cases kind <;> rfl

theorem conditionals_append_place_other (style : Style) {kind other : Condition} (query : Text)
    (properties : Properties) (isOther : other ≠ kind) :
    (style ++ kind.place query properties).conditionals other = style.conditionals other := by
  cases kind with
  | screen =>
      cases other with
      | screen => exact absurd rfl isOther
      | container => exact List.append_nil _
  | container =>
      cases other with
      | screen => exact List.append_nil _
      | container => exact absurd rfl isOther

theorem append_usedLocals (style : Style) (used : Names) :
    style ++ ({ usedLocals := used } : Style) =
      { style with usedLocals := style.usedLocals.merge used } := by
  apply Style.ext <;> simp

end Style

namespace Environment

variable {environment : Environment} {statement head inside : Text}

/-- What becomes of a statement with the shape of a block: nothing if it is refused as a whole, else
the block of its head. -/
theorem contribution_of_block (isDeclared : Text → Bool)
    (parts : blockParts? (Text.trim statement) = some (head, inside)) :
    (∃ error, environment.contribution isDeclared statement = .fail error) ∨
    (∃ slot, Slot.ofHead? head = some slot ∧
      environment.contribution isDeclared statement = environment.slotted slot inside) ∨
    ∃ kind, Condition.ofHead? head = some kind ∧
      environment.contribution isDeclared statement =
        environment.conditional kind (Text.trim statement) inside := by
  unfold contribution
  split
  · next isEmpty => simp [isEmpty, blockParts?] at parts
  · exact .inl ⟨_, rfl⟩
  · simp only [parts]
    split
    · exact .inl ⟨_, rfl⟩
    · rw [block?]
      cases isSlot : Slot.ofHead? head with
      | some slot => exact .inr (.inl ⟨slot, rfl, rfl⟩)
      | none =>
          cases isCondition : Condition.ofHead? head with
          | some kind => exact .inr (.inr ⟨kind, rfl, rfl⟩)
          | none =>
              -- What has the shape of a block is no declaration.
              have noDeclaration : Declaration.read? (Text.trim statement) = none := by
                by_contra found
                rw [blockParts?_of_read? found] at parts
                simp at parts
              refine .inl ⟨(Cause.invalidDeclaration (Text.trim statement) : Cause), ?_⟩
              simp only [Option.map_none, Option.getD_none, flat, Declaration.parse, noDeclaration,
                Draft.lift_error_andThen]

/-- A block under a condition is added as a whole, or only the variables that it mentions are. -/
theorem conditional_cases (kind : Condition) (statement inside : Text) :
    (∃ used error, environment.conditional kind statement inside =
      ⟨{ usedLocals := used }, .error error⟩) ∨
    ∃ used query properties, environment.conditional kind statement inside =
      ⟨{ usedLocals := used } ++ kind.place query properties, .ok ()⟩ := by
  unfold conditional
  cases splitTopLevel (· == CodePoint.char ',') inside with
  | error error => exact .inl ⟨∅, error, rfl⟩
  | ok parts =>
      rw [Draft.lift_ok_andThen]
      cases parts with
      | none => exact .inl ⟨∅, _, rfl⟩
      | some parts =>
          obtain ⟨condition, body⟩ := parts
          simp only
          cases environment.conditionQuery kind statement condition with
          | error error => exact .inl ⟨∅, error, rfl⟩
          | ok query =>
              rw [Draft.lift_ok_andThen]
              split
              · exact .inl ⟨_, _, rfl⟩
              · exact .inr ⟨_, query, _, rfl⟩

end Environment

/-- A block statement leaves everything outside its own block alone. A block of the element that
succeeds adds its body there. A block under a condition adds one entry to its list if it succeeds,
and nothing but the mentioned variables if it fails; no other block adds a condition. -/
theorem Style.dispatch_isolated (environment : Environment) (style : Style)
    {statement head inside : Text}
    (isBlock : blockParts? (Text.trim statement) = some (head, inside)) :
    let attempt := style.dispatch environment statement
    AgreeOutside (Slot.ofHead? head) style attempt.state ∧
    (∀ slot, Slot.ofHead? head = some slot → attempt.failure = none →
      ∃ body, environment.blockBody slot.target inside = ⟨body, .ok ()⟩ ∧
        attempt.state = style ++ slot.place body) ∧
    (∀ kind, Condition.ofHead? head = some kind → attempt.failure = none →
      ∃ block, attempt.state.conditionals kind = style.conditionals kind ++ [block] ∧
        ∀ other, other ≠ kind → attempt.state.conditionals other = style.conditionals other) ∧
    (∀ kind, Condition.ofHead? head = some kind → attempt.failure ≠ none →
      attempt.state = { style with usedLocals := attempt.state.usedLocals }) ∧
    (Condition.ofHead? head = none →
      ∀ kind, attempt.state.conditionals kind = style.conditionals kind) := by
  intro attempt
  rcases environment.contribution_of_block style.localVariables.contains isBlock with
    ⟨error, refused⟩ | ⟨slot, isSlot, added⟩ | ⟨kind, isCondition, added⟩
  · have attempted : attempt = ⟨style, some error⟩ := by
      simp only [attempt, dispatch, refused, Draft.fail, append_empty]
      rfl
    rw [attempted]
    exact ⟨.refl _ _, by simp, by simp, fun _ _ _ => rfl, fun _ _ => rfl⟩
  · have noCondition : Condition.ofHead? head = none := by
      by_contra found
      obtain ⟨kind, isCondition⟩ := Option.ne_none_iff_exists'.mp found
      simp [Condition.ofHead?_eq_none kind isCondition] at isSlot
    have written : attempt.state =
        style ++ slot.place (environment.blockBody slot.target inside).written := by
      simp only [attempt, dispatch, added, Environment.slotted]
    refine ⟨isSlot ▸ written ▸ agreeOutside_place _ _ _, ?_, by simp [noCondition],
      by simp [noCondition], fun _ kind => written ▸ conditionals_append_place _ _ _ kind⟩
    intro own isOwn succeeded
    cases isSlot.symm.trans isOwn
    cases ended : (environment.blockBody slot.target inside).result with
    | ok => exact ⟨_, by rw [← ended], written⟩
    | error error =>
        simp [attempt, dispatch, added, Environment.slotted, Draft.failure?, ended] at succeeded
  · have noSlot : Slot.ofHead? head = none := Condition.ofHead?_eq_none kind isCondition
    rw [noSlot, isCondition]
    rcases environment.conditional_cases kind (Text.trim statement) inside with
      ⟨used, error, failed⟩ | ⟨used, query, properties, succeeded⟩
    · have attempted : attempt = ⟨style ++ { usedLocals := used }, some error⟩ := by
        simp only [attempt, dispatch, added, failed, Draft.failure?]
      rw [attempted, append_usedLocals]
      exact ⟨agreeOutside_usedLocals _ _ _, by simp, by simp, fun _ _ _ => rfl, by simp⟩
    · have attempted : attempt =
          ⟨style ++ { usedLocals := used } ++ kind.place query properties, none⟩ := by
        simp only [attempt, dispatch, added, succeeded, Draft.failure?, append_assoc]
      rw [attempted, append_usedLocals]
      refine ⟨(agreeOutside_usedLocals _ _ _).trans (agreeOutside_place_condition _ kind query _),
        by simp, ?_, by simp, by simp⟩
      rintro _ ⟨⟩ _
      exact ⟨_, conditionals_append_place_condition _ kind query properties, fun other isOther =>
        conditionals_append_place_other _ query properties isOther⟩

set_option maxRecDepth 100000 in
/-- A fragment with a block and a condition, taken by a preset inside a block that then fails: only
the properties of the fragment itself reach the block. -/
theorem Style.dispatch_isolated_fragment :
    let card : Style :=
      { base := .single "padding" "1px"
        states := .single "focus" (.single "color" "red")
        screens := [⟨"(width:1px)", .single "color" "blue"⟩] }
    let environment : Environment :=
      { context := .rule
        theme :=
          { typography := .ofTexts [("t", "w[2px] card[x]")]
            defines := .single "card" (.single "x" card) } }
    let style : Style := { base := .single "color" "black" }
    let head : Text := "hover"
    let inside : Text := "ty[t] oops"
    let statement := head ++ [CodePoint.char '('] ++ inside ++ [CodePoint.char ')']
    let attempt := style.dispatch environment statement
    blockParts? (Text.trim statement) = some (head, inside) ∧
      AgreeOutside (Slot.ofHead? head) style attempt.state ∧
      attempt.failure ≠ none ∧
      attempt.state =
        { style with
          states := .single head (.ofList [("width", "2px"), ("padding", "1px")])
          pending := { states := .single head ∅ } } := by
  intro card environment style head inside statement attempt
  have isBlock : blockParts? (Text.trim statement) = some (head, inside) := by decide +kernel
  exact ⟨isBlock, (dispatch_isolated environment style isBlock).1, by decide +kernel,
    by decide +kernel⟩

end TerseStyle

import TerseStyle.Draft
import TerseStyle.Proofs.OrderedMap
import TerseStyle.Statement.Target

/-!
# Adding styles

Styles, and the bodies of blocks, form a monoid: adding is associative in every field, insertion
order included, and the empty style adds nothing. What a style shares with its users, and the
contribution of a body at the top level, respect the addition.
-/

namespace TerseStyle

namespace Blocks

@[simp]
theorem append_empty (left : Blocks) : Blocks.append left ∅ = left := rfl

@[simp]
theorem empty_append (right : Blocks) : Blocks.append ∅ right = right :=
  OrderedMap.empty_mergeWith _ right

theorem append_assoc (first second third : Blocks) :
    Blocks.append (Blocks.append first second) third =
      Blocks.append first (Blocks.append second third) :=
  OrderedMap.mergeWith_assoc OrderedMap.merge_assoc first second third

theorem mem_entries_append {left right : Blocks} {name : Text} {properties : Properties}
    {entry : Text × Text} (isBlock : (name, properties) ∈ (Blocks.append left right).entries)
    (isEntry : entry ∈ properties.entries) :
    ∃ own, ((name, own) ∈ left.entries ∨ (name, own) ∈ right.entries) ∧ entry ∈ own.entries := by
  rcases OrderedMap.mem_entries_mergeWith isBlock with inLeft | inRight |
    ⟨old, new, inLeft, inRight, same⟩
  · exact ⟨properties, Or.inl inLeft, isEntry⟩
  · exact ⟨properties, Or.inr inRight, isEntry⟩
  · simp only at same
    rw [same] at isEntry
    rcases OrderedMap.mem_entries_merge isEntry with inOld | inNew
    · exact ⟨old, Or.inl inLeft, inOld⟩
    · exact ⟨new, Or.inr inRight, inNew⟩

end Blocks

namespace PluginState

theorem append_assoc (first second third : PluginState) :
    (first.append second).append third = first.append (second.append third) := by
  simp [append, OrderedMap.merge_assoc]

end PluginState

namespace Pending

@[simp]
theorem append_empty (left : Pending) : left.append {} = left := rfl

@[simp]
theorem empty_append (right : Pending) : ({} : Pending).append right = right := by
  simp [append]

theorem append_assoc (first second third : Pending) :
    (first.append second).append third = first.append (second.append third) := by
  simp [append, OrderedMap.merge_assoc, Blocks.append_assoc]

end Pending

namespace Style

variable {left right : Style}

@[simp]
theorem base_append : (left ++ right).base = left.base.merge right.base := rfl

@[simp]
theorem states_append : (left ++ right).states = Blocks.append left.states right.states := rfl

@[simp]
theorem pluginStates_append : (left ++ right).pluginStates =
    left.pluginStates.mergeWith PluginState.append right.pluginStates := rfl

@[simp]
theorem screens_append : (left ++ right).screens = left.screens ++ right.screens := rfl

@[simp]
theorem containers_append : (left ++ right).containers = left.containers ++ right.containers := rfl

theorem mem_conditionals_append {block : Conditional}
    (isBlock : block ∈ (left ++ right).screens ++ (left ++ right).containers) :
    block ∈ left.screens ++ left.containers ∨ block ∈ right.screens ++ right.containers := by
  simp only [screens_append, containers_append, List.mem_append] at isBlock ⊢
  tauto

@[simp]
theorem pluginContainers_append : (left ++ right).pluginContainers =
    Blocks.append left.pluginContainers right.pluginContainers := rfl

@[simp]
theorem elements_append : (left ++ right).elements = Blocks.append left.elements right.elements :=
  rfl

@[simp]
theorem rootVariables_append :
    (left ++ right).rootVariables = left.rootVariables.merge right.rootVariables := rfl

@[simp]
theorem localVariables_append :
    (left ++ right).localVariables = left.localVariables.merge right.localVariables := rfl

@[simp]
theorem usedLocals_append :
    (left ++ right).usedLocals = left.usedLocals.merge right.usedLocals := rfl

@[simp]
theorem hasRuntime_append : (left ++ right).hasRuntime = (left.hasRuntime || right.hasRuntime) :=
  rfl

@[simp]
theorem pending_append : (left ++ right).pending = left.pending.append right.pending := rfl

@[simp]
theorem base_empty : (∅ : Style).base = ∅ := rfl

@[simp]
theorem states_empty : (∅ : Style).states = ∅ := rfl

@[simp]
theorem pluginStates_empty : (∅ : Style).pluginStates = ∅ := rfl

@[simp]
theorem screens_empty : (∅ : Style).screens = [] := rfl

@[simp]
theorem containers_empty : (∅ : Style).containers = [] := rfl

@[simp]
theorem pluginContainers_empty : (∅ : Style).pluginContainers = ∅ := rfl

@[simp]
theorem elements_empty : (∅ : Style).elements = ∅ := rfl

@[simp]
theorem rootVariables_empty : (∅ : Style).rootVariables = ∅ := rfl

@[simp]
theorem localVariables_empty : (∅ : Style).localVariables = ∅ := rfl

@[simp]
theorem usedLocals_empty : (∅ : Style).usedLocals = ∅ := rfl

@[simp]
theorem hasRuntime_empty : (∅ : Style).hasRuntime = false := rfl

@[simp]
theorem pending_empty : (∅ : Style).pending = {} := rfl

@[simp]
theorem append_empty (style : Style) : style ++ (∅ : Style) = style := by
  apply Style.ext <;> simp

@[simp]
theorem empty_append (style : Style) : (∅ : Style) ++ style = style := by
  apply Style.ext <;> simp

theorem append_assoc (first second third : Style) :
    (first ++ second) ++ third = first ++ (second ++ third) := by
  apply Style.ext <;>
    simp [OrderedMap.merge_assoc, Blocks.append_assoc, Pending.append_assoc, Bool.or_assoc,
      OrderedMap.mergeWith_assoc PluginState.append_assoc]

@[simp]
theorem shared_empty : (∅ : Style).shared = ∅ := rfl

theorem shared_append (left right : Style) :
    (left ++ right).shared = left.shared ++ right.shared := by
  apply Style.ext <;> simp [shared]

@[simp]
theorem shared_shared (style : Style) : style.shared.shared = style.shared := rfl

end Style

namespace Body

variable {left right : Body}

@[simp]
theorem properties_append : (left ++ right).properties = left.properties.merge right.properties :=
  rfl

@[simp]
theorem defaults_append : (left ++ right).defaults = left.defaults.merge right.defaults := rfl

@[simp]
theorem usedLocals_append :
    (left ++ right).usedLocals = left.usedLocals.merge right.usedLocals := rfl

@[simp]
theorem properties_empty : (∅ : Body).properties = ∅ := rfl

@[simp]
theorem defaults_empty : (∅ : Body).defaults = ∅ := rfl

@[simp]
theorem usedLocals_empty : (∅ : Body).usedLocals = ∅ := rfl

@[simp]
theorem append_empty (body : Body) : body ++ (∅ : Body) = body := rfl

@[simp]
theorem empty_append (body : Body) : (∅ : Body) ++ body = body := by
  apply Body.ext <;> simp

theorem append_assoc (first second third : Body) :
    (first ++ second) ++ third = first ++ (second ++ third) := by
  apply Body.ext <;> simp [OrderedMap.merge_assoc]

end Body

/-- Contributions that can be added in any grouping, and of which the empty one adds nothing. -/
class Additive (ω : Type) [EmptyCollection ω] [Append ω] : Prop where
  empty_append : ∀ contribution : ω, ∅ ++ contribution = contribution
  append_empty : ∀ contribution : ω, contribution ++ ∅ = contribution
  append_assoc : ∀ first second third : ω, (first ++ second) ++ third = first ++ (second ++ third)

instance : Additive Style := ⟨Style.empty_append, Style.append_empty, Style.append_assoc⟩

instance : Additive Body := ⟨Body.empty_append, Body.append_empty, Body.append_assoc⟩

namespace Style

@[simp]
theorem ofBody_empty : ofBody ∅ = ∅ := rfl

theorem ofBody_append (left right : Body) :
    ofBody (left ++ right) = ofBody left ++ ofBody right := by
  apply Style.ext <;>
    simp [ofBody, OrderedMap.isEmpty_merge, Bool.not_and, Pending.append]

end Style

/-- Bodies that go into the place one after the other make the contribution of their sum. -/
structure Target.Lawful {ω : Type} [EmptyCollection ω] [Append ω] (target : Target ω) : Prop where
  contribute_empty : target.contribute ∅ = ∅
  contribute_append : ∀ left right,
    target.contribute (left ++ right) = target.contribute left ++ target.contribute right

theorem Target.Lawful.contribute_ofProperties {ω : Type} [EmptyCollection ω] [Append ω]
    {target : Target ω} (lawful : target.Lawful) (used : Names) (names : List Text) (value : Text) :
    target.contribute { usedLocals := used } ++ target.contribute (.ofProperties names value) =
      target.contribute { Body.ofProperties names value with usedLocals := used } := by
  rw [← lawful.contribute_append]
  congr 1
  apply Body.ext <;> simp [Body.ofProperties]

theorem Target.lawful_topLevel (isDeclared : Text → Bool) : (topLevel isDeclared).Lawful :=
  ⟨Style.ofBody_empty, Style.ofBody_append⟩

theorem Target.lawful_insideBlock (label name : Text) (isElement takesRuntime : Bool) :
    (insideBlock label name isElement takesRuntime).Lawful :=
  ⟨rfl, fun _ _ => rfl⟩

theorem Slot.lawful_target (slot : Slot) : slot.target.Lawful := by
  cases slot <;> exact Target.lawful_insideBlock _ _ _ _

theorem Condition.lawful_target (kind : Condition) : kind.target.Lawful :=
  Target.lawful_insideBlock _ _ _ _

namespace Draft

variable {ω α β : Type}

section Lift

variable [EmptyCollection ω]

@[simp]
theorem written_lift (result : Except Error α) : (lift result : Draft ω α).written = ∅ := by
  cases result <;> rfl

@[simp]
theorem result_lift (result : Except Error α) : (lift result : Draft ω α).result = result := by
  cases result <;> rfl

end Lift

section AndThen

variable [Append ω]

theorem andThen_of_error {first : Draft ω α} {error : Error} (failed : first.result = .error error)
    (next : α → Draft ω β) : first.andThen next = ⟨first.written, .error error⟩ := by
  simp only [andThen, failed]

theorem andThen_of_ok {first : Draft ω α} {a : α} (succeeded : first.result = .ok a)
    (next : α → Draft ω β) :
    first.andThen next = ⟨first.written ++ (next a).written, (next a).result⟩ := by
  simp only [andThen, succeeded]

theorem result_andThen_eq_ok {first : Draft ω α} {next : α → Draft ω β} {b : β} :
    (first.andThen next).result = .ok b ↔
      ∃ a, first.result = .ok a ∧ (next a).result = .ok b := by
  cases ended : first.result with
  | error error => simp [andThen_of_error ended]
  | ok a => simp [andThen_of_ok ended]

/-- How drafts go on matters only as far as they succeed. -/
theorem andThen_congr_of_ok {first : Draft ω α} {next other : α → Draft ω β} {b : β}
    (succeeded : (first.andThen next).result = .ok b)
    (same : ∀ a, first.result = .ok a → (next a).result = .ok b → other a = next a) :
    first.andThen other = first.andThen next := by
  obtain ⟨a, ended, nextEnded⟩ := result_andThen_eq_ok.mp succeeded
  rw [andThen_of_ok ended, andThen_of_ok ended, same a ended nextEnded]

/-- A property that adding keeps holds of all that is written if each step writes only such. -/
theorem written_andThen {Good : ω → Prop}
    (append : ∀ left right, Good left → Good right → Good (left ++ right))
    {first : Draft ω α} {next : α → Draft ω β} (ofFirst : Good first.written)
    (ofNext : ∀ a, first.result = .ok a → Good (next a).written) :
    Good (first.andThen next).written := by
  cases ended : first.result with
  | error error =>
      rw [andThen_of_error ended]
      exact ofFirst
  | ok a =>
      rw [andThen_of_ok ended]
      exact append _ _ ofFirst (ofNext a ended)

end AndThen

variable [EmptyCollection ω] [Append ω]

theorem lift_ok_andThen [Additive ω] (a : α) (next : α → Draft ω β) :
    (lift (.ok a)).andThen next = next a := by
  rw [andThen_of_ok (result_lift _), written_lift, Additive.empty_append]

theorem lift_error_andThen (error : Error) (next : α → Draft ω β) :
    (lift (.error error)).andThen next = fail error := rfl

theorem written_lift_andThen [Additive ω] {Good : ω → Prop} (empty : Good ∅)
    {result : Except Error α} {next : α → Draft ω β}
    (ofNext : ∀ a, result = .ok a → Good (next a).written) :
    Good ((lift result).andThen next).written := by
  cases result with
  | error error => exact empty
  | ok a =>
      rw [lift_ok_andThen]
      exact ofNext a rfl

theorem written_forEach {Good : ω → Prop} (empty : Good ∅)
    (append : ∀ left right, Good left → Good right → Good (left ++ right))
    {item : α → Draft ω Unit} {items : List α} (ofEach : ∀ a ∈ items, Good (item a).written) :
    Good (forEach item items).written := by
  induction items with
  | nil => exact empty
  | cons a rest ih =>
      apply written_andThen append
      · exact ofEach a List.mem_cons_self
      · intro _ _
        apply ih
        intro later isLater
        exact ofEach later (List.mem_cons_of_mem _ isLater)

theorem forEach_congr_of_ok {item other : α → Draft ω Unit} {items : List α}
    (succeeded : (forEach item items).result = .ok ())
    (same : ∀ a ∈ items, (item a).result = .ok () → other a = item a) :
    forEach other items = forEach item items := by
  induction items with
  | nil => rfl
  | cons a rest ih =>
      rw [forEach] at succeeded
      obtain ⟨_, firstEnded, restEnded⟩ := result_andThen_eq_ok.mp succeeded
      rw [forEach, forEach, same a List.mem_cons_self firstEnded, ih restEnded]
      intro later isLater
      exact same later (List.mem_cons_of_mem _ isLater)

end Draft

end TerseStyle

import Mathlib
import TerseStyle.Attempt
import TerseStyle.Draft

/-!
# Outcomes

A computation that may be refused is taken apart by what its success or its refusal says about its
steps. An outcome is `Safe` if it is no failure of the compiler itself: a result, or an error that
reports a mistake in a text.
-/

namespace TerseStyle

variable {ε α β : Type}

theorem ok_bind (value : α) (next : α → Except ε β) : (Except.ok value >>= next) = next value :=
  rfl

section

variable {first : Except ε α} {next make : α → Except ε β} {change : α → β} {items : List α}
  {result : β} {results : List β} {error : ε}

theorem bind_eq_ok :
    (first >>= next) = .ok result ↔ ∃ value, first = .ok value ∧ next value = .ok result := by
  cases first with
  | error error => simp [bind, Except.bind]
  | ok value => simp [bind, Except.bind]

theorem bind_eq_error_iff :
    (first >>= next) = .error error ↔
      first = .error error ∨ ∃ value, first = .ok value ∧ next value = .error error := by
  cases first with
  | error error => simp [bind, Except.bind]
  | ok value => simp [bind, Except.bind]

theorem map_eq_ok :
    first.map change = .ok result ↔ ∃ value, first = .ok value ∧ change value = result := by
  cases first with
  | error error => simp [Except.map]
  | ok value => simp [Except.map]

theorem map_eq_error_iff : first.map change = .error error ↔ first = .error error := by
  cases first with
  | error error => simp [Except.map]
  | ok value => simp [Except.map]

/-- Results that are made one by one belong to the items that they are made of. -/
theorem forall₂_of_mapM_eq_ok (made : items.mapM make = .ok results) :
    List.Forall₂ (fun item result => make item = .ok result) items results := by
  induction items generalizing results with
  | nil =>
      simp only [List.mapM_nil, pure, Except.pure, Except.ok.injEq] at made
      rw [← made]
      exact .nil
  | cons item rest ih =>
      rw [List.mapM_cons, bind_eq_ok] at made
      obtain ⟨result, madeFirst, madeRest⟩ := made
      rw [bind_eq_ok] at madeRest
      obtain ⟨more, madeMore, same⟩ := madeRest
      simp only [pure, Except.pure, Except.ok.injEq] at same
      rw [← same]
      exact .cons madeFirst (ih madeMore)

theorem exists_of_mem_forall₂ {Related : α → β → Prop}
    (related : List.Forall₂ Related items results) {result : β} (isResult : result ∈ results) :
    ∃ item ∈ items, Related item result := by
  induction related with
  | nil => simp at isResult
  | cons first _ ih =>
      rcases List.mem_cons.mp isResult with rfl | isLater
      · exact ⟨_, List.mem_cons_self, first⟩
      · obtain ⟨item, isItem, isRelated⟩ := ih isLater
        exact ⟨item, List.mem_cons_of_mem _ isItem, isRelated⟩

theorem exists_of_mem_mapM (made : items.mapM make = .ok results) (isResult : result ∈ results) :
    ∃ item ∈ items, make item = .ok result :=
  exists_of_mem_forall₂ (forall₂_of_mapM_eq_ok made) isResult

theorem exists_mem_of_mapM (made : items.mapM make = .ok results) {item : α}
    (isItem : item ∈ items) : ∃ result ∈ results, make item = .ok result :=
  exists_of_mem_forall₂ (forall₂_of_mapM_eq_ok made).flip isItem

theorem exists_of_mapM_eq_error (refused : items.mapM make = .error error) :
    ∃ item ∈ items, make item = .error error := by
  induction items with
  | nil => simp [pure, Except.pure] at refused
  | cons item rest ih =>
      rw [List.mapM_cons, bind_eq_error_iff] at refused
      rcases refused with refusedFirst | ⟨first, _, refusedRest⟩
      · exact ⟨item, List.mem_cons_self, refusedFirst⟩
      · rcases bind_eq_error_iff.mp refusedRest with refusedMore | ⟨more, _, made⟩
        · obtain ⟨later, isLater, refusedLater⟩ := ih refusedMore
          exact ⟨later, List.mem_cons_of_mem _ isLater, refusedLater⟩
        · simp [pure, Except.pure] at made

theorem exists_mapM_eq_ok (makes : ∀ item ∈ items, ∃ result, make item = .ok result) :
    ∃ results, items.mapM make = .ok results := by
  induction items with
  | nil => exact ⟨[], rfl⟩
  | cons item rest ih =>
      rw [List.forall_mem_cons] at makes
      rcases makes.1 with ⟨first, madeFirst⟩
      rcases ih makes.2 with ⟨more, madeMore⟩
      refine ⟨first :: more, ?_⟩
      rw [List.mapM_cons, madeFirst, madeMore]
      rfl

theorem mapM_eq_ok_of_imp {other : α → Except ε β}
    (agrees : ∀ item ∈ items, ∀ result, make item = .ok result → other item = .ok result)
    (made : items.mapM make = .ok results) : items.mapM other = .ok results := by
  induction items generalizing results with
  | nil => exact made
  | cons item rest ih =>
      rw [List.forall_mem_cons] at agrees
      simp only [List.mapM_cons, bind_eq_ok] at made ⊢
      obtain ⟨first, madeFirst, more, madeMore, same⟩ := made
      exact ⟨first, agrees.1 first madeFirst, more, ih agrees.2 madeMore, same⟩

theorem mapM_append_eq_ok {first second : List α} {firstResults secondResults : List β}
    (madeFirst : first.mapM make = .ok firstResults)
    (madeSecond : second.mapM make = .ok secondResults) :
    (first ++ second).mapM make = .ok (firstResults ++ secondResults) := by
  rw [List.mapM_append, madeFirst, madeSecond]
  rfl

/-- Items that belong together through two steps. -/
theorem forall₂_of_steps {γ : Type} {First : α → β → Prop} {Second : β → γ → Prop}
    {Both : α → γ → Prop} {middle : List β} {results : List γ}
    (first : List.Forall₂ First items middle) (second : List.Forall₂ Second middle results)
    (both : ∀ item ∈ items, ∀ between result, First item between → Second between result →
      Both item result) :
    List.Forall₂ Both items results := by
  induction first generalizing results with
  | nil =>
      cases second
      exact .nil
  | cons ofFirst _ ih =>
      cases second with
      | cons ofSecond ofRest =>
          rw [List.forall_mem_cons] at both
          exact .cons (both.1 _ _ ofFirst ofSecond) (ih ofRest both.2)

end

/-! ## Failures of the compiler itself -/

/-- The outcome is no failure of the compiler itself. -/
def Safe (outcome : Except Error α) : Prop :=
  ∀ error, outcome = .error error → error.kind ≠ .internal

namespace Safe

theorem ok (result : α) : Safe (.ok result) := by
  simp [Safe]

theorem error {error : Error} (reported : error.kind ≠ .internal) :
    Safe (.error error : Except Error α) := by
  rintro other same
  rw [Except.error.injEq] at same
  rw [← same]
  exact reported

theorem bind {first : Except Error α} {next : α → Except Error β} (ofFirst : Safe first)
    (ofNext : ∀ value, first = .ok value → Safe (next value)) : Safe (first >>= next) := by
  cases first with
  | error reason => exact error (ofFirst reason rfl)
  | ok value => exact ofNext value rfl

theorem map {first : Except Error α} {change : α → β} (ofFirst : Safe first) :
    Safe (first.map change) := by
  cases first with
  | error reason => exact error (ofFirst reason rfl)
  | ok value => exact ok (change value)

theorem mapM {make : α → Except Error β} {items : List α}
    (ofEach : ∀ item ∈ items, Safe (make item)) :
    Safe (items.mapM make) := by
  induction items with
  | nil => exact ok []
  | cons item rest ih =>
      rw [List.forall_mem_cons] at ofEach
      rw [List.mapM_cons]
      refine bind ofEach.1 fun result _ => bind (ih ofEach.2) fun more _ => ok _

end Safe

namespace Draft

variable {ω : Type} {draft : Draft ω Unit}

theorem failure?_eq_some {error : Error} :
    draft.failure? = some error ↔ draft.result = .error error := by
  unfold failure?
  split <;> simp_all

theorem failure?_eq_none : draft.failure? = none ↔ draft.result = .ok () := by
  unfold failure?
  split <;> simp_all

end Draft

namespace Attempt

variable {σ τ : Type}

theorem toExcept_eq_ok {attempt : Attempt σ} {state : σ} :
    attempt.toExcept = .ok state ↔ attempt = { state } := by
  obtain ⟨final, failure⟩ := attempt
  cases failure with
  | none => simp [toExcept]
  | some error => simp [toExcept]

theorem toExcept_eq_error {attempt : Attempt σ} {error : Error} :
    attempt.toExcept = .error error ↔ attempt.failure = some error := by
  obtain ⟨final, failure⟩ := attempt
  cases failure with
  | none => simp [toExcept]
  | some error => simp [toExcept]

/-- What every change preserves holds of the state, however far the changes went. -/
theorem state_forEach {Good : σ → Prop} {change : α → σ → Attempt σ} {items : List α}
    (step : ∀ item ∈ items, ∀ state, Good state → Good (change item state).state) {state : σ}
    (initial : Good state) : Good (forEach change items state).state := by
  induction items generalizing state with
  | nil => exact initial
  | cons item rest ih =>
      rw [List.forall_mem_cons] at step
      rw [forEach, andThen]
      split
      · exact step.1 state initial
      · exact ih step.2 (step.1 state initial)

/-- The attempt was not cut short by a failure of the compiler itself. -/
def Safe (attempt : Attempt σ) : Prop :=
  ∀ error, attempt.failure = some error → error.kind ≠ .internal

theorem Safe.toExcept {attempt : Attempt σ} (safe : attempt.Safe) :
    TerseStyle.Safe attempt.toExcept := by
  obtain ⟨state, failure⟩ := attempt
  cases failure with
  | none => exact .ok state
  | some error => exact .error (safe error rfl)

theorem Safe.andThen {first : Attempt σ} {change : σ → Attempt σ} (ofFirst : first.Safe)
    (ofChange : first.failure = none → (change first.state).Safe) :
    (first.andThen change).Safe := by
  unfold Attempt.andThen
  split
  · exact ofFirst
  · next none => exact ofChange none

theorem Safe.forEach {change : α → σ → Attempt σ} {items : List α}
    (ofEach : ∀ item ∈ items, ∀ state, (change item state).Safe) (state : σ) :
    (forEach change items state).Safe := by
  induction items generalizing state with
  | nil => simp [Safe, Attempt.forEach]
  | cons item rest ih =>
      rw [List.forall_mem_cons] at ofEach
      exact (ofEach.1 state).andThen fun _ => ih ofEach.2 _

end Attempt

end TerseStyle

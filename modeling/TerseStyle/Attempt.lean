import TerseStyle.Error

/-!
# Attempts

A change to a state may fail half way, and what it had done by then stays visible: a session goes on
with the half-changed state. An `Attempt` is the state after such a change together with the
failure that ended it, if one did.
-/

namespace TerseStyle

/-- A state after a change that may have been cut short. -/
structure Attempt (σ : Type) where
  /-- The state as far as the change went. -/
  state : σ
  /-- Why the change went no further. -/
  failure : Option Error := none
  deriving DecidableEq

namespace Attempt

variable {σ τ : Type}

/-- Goes on with a further change unless the first has failed. -/
def andThen (first : Attempt σ) (change : σ → Attempt σ) : Attempt σ :=
  match first.failure with
  | some _ => first
  | none => change first.state

/-- Applies a change for each item in order, up to the first failure. -/
def forEach {α : Type} (change : α → σ → Attempt σ) : List α → σ → Attempt σ
  | [], state => { state }
  | item :: rest, state => (change item state).andThen (forEach change rest)

/-- The same attempt seen as a change to a larger state. -/
def map (embed : σ → τ) (attempt : Attempt σ) : Attempt τ :=
  { state := embed attempt.state, failure := attempt.failure }

/-- The final state, if nothing failed. -/
def toExcept (attempt : Attempt σ) : Except Error σ :=
  match attempt.failure with
  | some error => .error error
  | none => .ok attempt.state

/-- Changes the items of a list in order; the first that fails and all after it stay as they are
left by it. -/
def mapList (change : σ → Attempt σ) : List σ → Attempt (List σ)
  | [] => { state := [] }
  | item :: rest =>
    let changed := change item
    match changed.failure with
    | some error => { state := changed.state :: rest, failure := some error }
    | none => (mapList change rest).map (changed.state :: ·)

/-- A change that is made whole or not at all. -/
def ofExcept (state : σ) : Except Error σ → Attempt σ
  | .ok changed => { state := changed }
  | .error error => { state, failure := some error }

end Attempt

end TerseStyle

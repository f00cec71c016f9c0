import TerseStyle.Error

/-!
# Drafts

Reading a statement writes contributions and may stop at an error; what was written before the
error counts. A `Draft` is what was written so far and how the reading ended. Contributions are
added in the order in which they are written.
-/

namespace TerseStyle

/-- Something written piece by piece, and how the writing ended. -/
structure Draft (ω α : Type) where
  /-- What was written. -/
  written : ω
  /-- The result, or the error that ended the writing. -/
  result : Except Error α

namespace Draft

variable {ω α β : Type} [EmptyCollection ω] [Append ω]

/-- A result with nothing written. -/
def done (a : α) : Draft ω α :=
  ⟨∅, .ok a⟩

/-- An error with nothing written. -/
def fail (error : Error) : Draft ω α :=
  ⟨∅, .error error⟩

/-- One contribution. -/
def write (contribution : ω) : Draft ω Unit :=
  ⟨contribution, .ok ()⟩

/-- Goes on with the result, unless an error ended the writing. -/
def andThen (first : Draft ω α) (next : α → Draft ω β) : Draft ω β :=
  match first.result with
  | .error error => ⟨first.written, .error error⟩
  | .ok a => ⟨first.written ++ (next a).written, (next a).result⟩

instance : Monad (Draft ω) where
  pure := done
  bind := andThen

/-- A result or an error with nothing written. -/
def lift : Except Error α → Draft ω α
  | .ok a => done a
  | .error error => fail error

/-- Writes for each item in order, up to the first error. -/
def forEach (item : α → Draft ω Unit) : List α → Draft ω Unit
  | [] => done ()
  | a :: rest => (item a).andThen fun _ => forEach item rest

/-- The error that ended the writing. -/
def failure? (draft : Draft ω α) : Option Error :=
  match draft.result with
  | .ok _ => none
  | .error error => some error

end Draft

end TerseStyle

/-!
# Ordered maps

A map from keys to values that remembers the order in which its keys were first inserted. Writing
to a key that is present keeps the key's place. The order is observable: it decides the order of
declarations and rules in the emitted style sheet.

One operation, `insertWith`, carries all the others: it inserts a value, combining it with the one
that is present. Keys are distinct by construction, which makes `mergeWith` associative whenever the
combination of values is.
-/

namespace TerseStyle

/-- A map that keeps its keys in the order of their first insertion. -/
structure OrderedMap (κ α : Type) where
  /-- The entries in order. -/
  entries : List (κ × α)
  /-- No key has two entries. -/
  distinct : (entries.map Prod.fst).Nodup
  deriving DecidableEq

namespace OrderedMap

variable {κ α β : Type}

/-- The map without entries. -/
def empty : OrderedMap κ α :=
  ⟨[], List.nodup_nil⟩

instance : EmptyCollection (OrderedMap κ α) := ⟨empty⟩

instance : Inhabited (OrderedMap κ α) := ⟨empty⟩

@[ext]
theorem ext {left right : OrderedMap κ α} (same : left.entries = right.entries) : left = right := by
  cases left
  cases right
  simp only at same
  subst same
  rfl

@[simp]
theorem entries_empty : (∅ : OrderedMap κ α).entries = [] := rfl

/-- The keys in order. -/
def keys (map : OrderedMap κ α) : List κ :=
  map.entries.map Prod.fst

/-- The values in the order of their keys. -/
def values (map : OrderedMap κ α) : List α :=
  map.entries.map Prod.snd

/-- The number of entries. -/
def size (map : OrderedMap κ α) : Nat :=
  map.entries.length

/-- Whether there is no entry. -/
def isEmpty (map : OrderedMap κ α) : Bool :=
  map.entries.isEmpty

/-- The map with every value changed. -/
def map (change : α → β) (source : OrderedMap κ α) : OrderedMap κ β :=
  ⟨source.entries.map fun entry => (entry.1, change entry.2), by
    have keysKept : (Prod.fst ∘ fun entry : κ × α => (entry.1, change entry.2)) = Prod.fst := rfl
    simpa only [List.map_map, keysKept] using source.distinct⟩

variable [DecidableEq κ]

/-- The value at a key. -/
def get? (map : OrderedMap κ α) (key : κ) : Option α :=
  map.entries.lookup key

/-- Whether a key has a value. -/
def contains (map : OrderedMap κ α) (key : κ) : Bool :=
  decide (key ∈ map.keys)

/-- Inserts into a list of entries: a new key goes to the end, a present one keeps its place. -/
def insertEntry (combine : α → α → α) (key : κ) (value : α) : List (κ × α) → List (κ × α)
  | [] => [(key, value)]
  | (present, old) :: rest =>
    if present = key then (present, combine old value) :: rest
    else (present, old) :: insertEntry combine key value rest

theorem keys_insertEntry (combine : α → α → α) (key : κ) (value : α) (entries : List (κ × α)) :
    (insertEntry combine key value entries).map Prod.fst =
      if key ∈ entries.map Prod.fst then entries.map Prod.fst
      else entries.map Prod.fst ++ [key] := by
  induction entries with
  | nil => simp [insertEntry]
  | cons entry rest ih =>
    obtain ⟨present, old⟩ := entry
    by_cases same : present = key
    · simp [insertEntry, same]
    · have different : key ≠ present := fun equal => same equal.symm
      simp only [insertEntry, if_neg same, List.map_cons, ih, List.mem_cons,
        different, false_or]
      split <;> simp

theorem distinct_insertEntry (combine : α → α → α) (key : κ) (value : α)
    {entries : List (κ × α)} (distinct : (entries.map Prod.fst).Nodup) :
    ((insertEntry combine key value entries).map Prod.fst).Nodup := by
  rw [keys_insertEntry]
  split
  · exact distinct
  · next absent =>
    refine List.nodup_append.mpr ⟨distinct, by simp, ?_⟩
    intro present isPresent added isAdded equal
    rw [List.mem_singleton] at isAdded
    exact absent (isAdded ▸ equal ▸ isPresent)

/-- Inserts a value, combined with the value already at the key if there is one. -/
def insertWith (combine : α → α → α) (key : κ) (value : α) (map : OrderedMap κ α) :
    OrderedMap κ α :=
  ⟨insertEntry combine key value map.entries, distinct_insertEntry combine key value map.distinct⟩

/-- Inserts a value in place of the one already at the key. -/
def insert (key : κ) (value : α) (map : OrderedMap κ α) : OrderedMap κ α :=
  map.insertWith (fun _ new => new) key value

/-- The map without a key. -/
def erase (key : κ) (map : OrderedMap κ α) : OrderedMap κ α :=
  ⟨map.entries.filter fun entry => entry.1 ≠ key,
    map.distinct.sublist (List.filter_sublist.map Prod.fst)⟩

/-- The map with one entry. -/
def single (key : κ) (value : α) : OrderedMap κ α :=
  ⟨[(key, value)], by simp⟩

/-- Inserts the entries of the second map into the first, in order. -/
def mergeWith (combine : α → α → α) (left right : OrderedMap κ α) : OrderedMap κ α :=
  right.entries.foldl (fun map entry => map.insertWith combine entry.1 entry.2) left

/-- Inserts the entries of the second map into the first; the second map's values win. -/
def merge (left right : OrderedMap κ α) : OrderedMap κ α :=
  left.mergeWith (fun _ new => new) right

/-- Inserts entries one after the other into the empty map. -/
def ofList (entries : List (κ × α)) : OrderedMap κ α :=
  entries.foldl (fun map entry => map.insert entry.1 entry.2) ∅

end OrderedMap

end TerseStyle

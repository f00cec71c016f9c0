import Mathlib
import TerseStyle.OrderedMap

/-!
# Laws of ordered maps

An ordered map is determined by the list of its keys and by the value at each key. Both views of a
merge are simple: the keys of the second map that are new follow those of the first, and the values
at a key are combined. The laws of merging are therefore proved on the views, and carried over to
the maps by `ext_get?`.
-/

namespace TerseStyle

namespace OrderedMap

variable {κ α β : Type}

@[simp]
theorem keys_empty : (∅ : OrderedMap κ α).keys = [] := rfl

@[simp]
theorem values_empty : (∅ : OrderedMap κ α).values = [] := rfl

@[simp]
theorem entries_single (key : κ) (value : α) : (single key value).entries = [(key, value)] := rfl

@[simp]
theorem keys_single (key : κ) (value : α) : (single key value).keys = [key] := rfl

@[simp]
theorem values_single (key : κ) (value : α) : (single key value).values = [value] := rfl

@[simp]
theorem entries_map (change : α → β) (source : OrderedMap κ α) :
    (source.map change).entries = source.entries.map fun entry => (entry.1, change entry.2) := rfl

@[simp]
theorem keys_map (change : α → β) (source : OrderedMap κ α) :
    (source.map change).keys = source.keys := by
  simp [keys, Function.comp_def]

@[simp]
theorem map_empty (change : α → β) : (∅ : OrderedMap κ α).map change = ∅ := rfl

variable {source left right : OrderedMap κ α} {entry : κ × α} {key : κ} {entries : List (κ × α)}
  {combine : α → α → α}

theorem map_congr {first second : α → β}
    (same : ∀ value ∈ source.values, first value = second value) :
    source.map first = source.map second := by
  apply ext
  apply List.map_congr_left
  intro entry isEntry
  rw [same entry.2 (List.mem_map_of_mem isEntry)]

theorem map_id (source : OrderedMap κ α) : source.map id = source := by
  apply ext
  simp [map]

theorem map_map {γ : Type} (second : β → γ) (first : α → β) (source : OrderedMap κ α) :
    (source.map first).map second = source.map fun value => second (first value) := by
  apply ext
  simp [map]

theorem map_eq_self {change : α → α} (kept : ∀ value ∈ source.values, change value = value) :
    source.map change = source := by
  rw [map_congr kept]
  exact map_id source

theorem isEmpty_map (change : α → β) (source : OrderedMap κ α) :
    (source.map change).isEmpty = source.isEmpty := by
  simp [isEmpty]

theorem isEmpty_iff : source.isEmpty = true ↔ source = ∅ := by
  constructor
  · intro noEntry
    apply ext
    simpa [isEmpty] using noEntry
  · rintro rfl
    rfl

theorem mem_keys_of_mem (isEntry : entry ∈ source.entries) : entry.1 ∈ source.keys :=
  List.mem_map_of_mem isEntry

variable [DecidableEq κ]

@[simp]
theorem get?_empty (key : κ) : (∅ : OrderedMap κ α).get? key = none := rfl

@[simp]
theorem contains_iff : source.contains key = true ↔ key ∈ source.keys := by
  simp [contains]

theorem get?_eq_some_iff {value : α} :
    source.get? key = some value ↔ (key, value) ∈ source.entries := by
  obtain ⟨entries, distinct⟩ := source
  simp only [get?]
  induction entries with
  | nil => simp
  | cons entry rest ih =>
      simp only [List.map_cons, List.nodup_cons] at distinct
      have onRest := ih distinct.2
      rw [List.lookup_cons, List.mem_cons]
      by_cases same : key = entry.1
      · subst same
        simp only [beq_self_eq_true, Option.some.injEq]
        constructor
        · rintro rfl
          exact Or.inl rfl
        · rintro (isFirst | isLater)
          · exact (congrArg Prod.snd isFirst).symm
          · exact absurd (List.mem_map_of_mem isLater) distinct.1
      · have different : (key == entry.1) = false := by simpa using same
        rw [different]
        simp only [onRest]
        constructor
        · exact Or.inr
        · rintro (isFirst | isLater)
          · exact absurd (congrArg Prod.fst isFirst) same
          · exact isLater

theorem get?_isSome_iff : (source.get? key).isSome = true ↔ key ∈ source.keys := by
  constructor
  · intro isSome
    obtain ⟨value, found⟩ := Option.isSome_iff_exists.mp isSome
    exact mem_keys_of_mem (get?_eq_some_iff.mp found)
  · intro isKey
    obtain ⟨⟨present, value⟩, isEntry, rfl⟩ := List.mem_map.mp isKey
    simp [get?_eq_some_iff.mpr isEntry]

theorem get?_eq_none_iff : source.get? key = none ↔ key ∉ source.keys := by
  rw [← get?_isSome_iff]
  simp

/-- A map is determined by its keys in order and the value at each key. -/
theorem ext_get? (sameKeys : left.keys = right.keys)
    (sameValues : ∀ key, left.get? key = right.get? key) : left = right := by
  -- Each list of entries is rebuilt from its keys by looking the values up.
  have rebuilt : ∀ source : OrderedMap κ α,
      source.entries.map (fun entry => (entry.1, some entry.2)) =
        source.keys.map fun key => (key, source.get? key) := by
    intro source
    rw [keys, List.map_map]
    apply List.map_congr_left
    rintro ⟨key, value⟩ isEntry
    simp [get?_eq_some_iff.mpr isEntry]
  have same : left.entries.map (fun entry => (entry.1, some entry.2)) =
      right.entries.map fun entry => (entry.1, some entry.2) := by
    rw [rebuilt, rebuilt, sameKeys]
    apply List.map_congr_left
    intro key _
    rw [sameValues]
  apply ext
  refine List.map_injective_iff.mpr ?_ same
  rintro ⟨firstKey, firstValue⟩ ⟨secondKey, secondValue⟩ equal
  simpa using equal

@[simp]
theorem get?_map (change : α → β) (source : OrderedMap κ α) (key : κ) :
    (source.map change).get? key = (source.get? key).map change := by
  cases found : source.get? key with
  | none =>
      rw [get?_eq_none_iff] at found
      rw [Option.map_none, get?_eq_none_iff, keys_map]
      exact found
  | some value =>
      rw [get?_eq_some_iff] at found
      rw [Option.map_some, get?_eq_some_iff, entries_map]
      exact List.mem_map_of_mem found

@[simp]
theorem get?_single (key other : κ) (value : α) :
    (single key value).get? other = if other = key then some value else none := by
  by_cases same : other = key
  · simp [get?, same]
  · simp [get?, same]

/-! ## Inserting -/

theorem keys_insertWith (combine : α → α → α) (key : κ) (value : α) (source : OrderedMap κ α) :
    (source.insertWith combine key value).keys =
      if key ∈ source.keys then source.keys else source.keys ++ [key] :=
  keys_insertEntry combine key value source.entries

theorem get?_insertWith (combine : α → α → α) (key other : κ) (value : α)
    (source : OrderedMap κ α) :
    (source.insertWith combine key value).get? other =
      if other = key then (source.get? key).merge combine (some value) else source.get? other := by
  obtain ⟨entries, distinct⟩ := source
  simp only [get?, insertWith]
  clear distinct
  induction entries with
  | nil =>
      by_cases same : other = key
      · simp [insertEntry, same]
      · simp [insertEntry, same]
  | cons entry rest ih =>
      obtain ⟨present, old⟩ := entry
      by_cases isPresent : present = key
      · subst isPresent
        by_cases same : other = present
        · simp [insertEntry, same]
        · have different : (other == present) = false := by simpa using same
          simp [insertEntry, same, List.lookup_cons, different]
      · have keyDiffers : (key == present) = false := beq_eq_false_iff_ne.mpr (Ne.symm isPresent)
        simp only [insertEntry, if_neg isPresent, List.lookup_cons, ih, keyDiffers]
        by_cases same : other = key
        · subst same
          simp [keyDiffers]
        · simp [same]

/-! ## Merging -/

/-- Inserting entries with distinct keys one after the other, seen through the keys. -/
theorem keys_foldl_insertWith (combine : α → α → α) (distinct : (entries.map Prod.fst).Nodup)
    (source : OrderedMap κ α) :
    (entries.foldl (fun map entry => map.insertWith combine entry.1 entry.2) source).keys =
      source.keys ++ (entries.map Prod.fst).filter (· ∉ source.keys) := by
  induction entries generalizing source with
  | nil => simp
  | cons entry rest ih =>
      simp only [List.map_cons, List.nodup_cons] at distinct
      rw [List.foldl_cons, ih distinct.2, keys_insertWith]
      -- The new key does not occur among the rest, so the filter does not see it.
      have unaffected : (rest.map Prod.fst).filter (· ∉ source.keys ++ [entry.1]) =
          (rest.map Prod.fst).filter (· ∉ source.keys) := by
        apply List.filter_congr
        intro key isLater
        have different : key ≠ entry.1 := by
          rintro rfl
          exact distinct.1 isLater
        simp [different]
      by_cases present : entry.1 ∈ source.keys
      · simp [present]
      · simp only [present, if_false, List.map_cons, unaffected]
        simp [present]

theorem get?_foldl_insertWith (combine : α → α → α) (distinct : (entries.map Prod.fst).Nodup)
    (source : OrderedMap κ α) (key : κ) :
    (entries.foldl (fun map entry => map.insertWith combine entry.1 entry.2) source).get? key =
      (source.get? key).merge combine (entries.lookup key) := by
  induction entries generalizing source with
  | nil => simp
  | cons entry rest ih =>
      simp only [List.map_cons, List.nodup_cons] at distinct
      rw [List.foldl_cons, ih distinct.2, get?_insertWith, List.lookup_cons]
      by_cases same : key = entry.1
      · subst same
        have absent : rest.lookup entry.1 = none := by
          rw [List.lookup_eq_none_iff]
          intro other isLater
          have different : entry.1 ≠ other.1 := by
            intro equal
            exact distinct.1 (equal ▸ List.mem_map_of_mem isLater)
          simpa using different
        simp [absent]
      · have different : (key == entry.1) = false := by simpa using same
        simp [same, different]

theorem keys_mergeWith (combine : α → α → α) (left right : OrderedMap κ α) :
    (left.mergeWith combine right).keys = left.keys ++ right.keys.filter (· ∉ left.keys) :=
  keys_foldl_insertWith combine right.distinct left

@[simp]
theorem get?_mergeWith (combine : α → α → α) (left right : OrderedMap κ α) (key : κ) :
    (left.mergeWith combine right).get? key = (left.get? key).merge combine (right.get? key) :=
  get?_foldl_insertWith combine right.distinct left key

@[simp]
theorem mem_keys_mergeWith :
    key ∈ (left.mergeWith combine right).keys ↔ key ∈ left.keys ∨ key ∈ right.keys := by
  rw [keys_mergeWith]
  by_cases present : key ∈ left.keys
  · simp [present]
  · simp [present]

@[simp]
theorem mergeWith_empty (combine : α → α → α) (left : OrderedMap κ α) :
    left.mergeWith combine ∅ = left := rfl

@[simp]
theorem empty_mergeWith (combine : α → α → α) (right : OrderedMap κ α) :
    (∅ : OrderedMap κ α).mergeWith combine right = right := by
  apply ext_get?
  · simp [keys_mergeWith]
  · simp

@[simp]
theorem single_mergeWith_single (combine : α → α → α) (key : κ) (old new : α) :
    (single key old).mergeWith combine (single key new) = single key (combine old new) := by
  apply ext_get?
  · simp [keys_mergeWith]
  · intro other
    by_cases same : other = key <;> simp [same]

theorem mergeWith_assoc
    (assoc : ∀ first second third,
      combine (combine first second) third = combine first (combine second third))
    (first second third : OrderedMap κ α) :
    (first.mergeWith combine second).mergeWith combine third =
      first.mergeWith combine (second.mergeWith combine third) := by
  apply ext_get?
  · simp only [keys_mergeWith, List.append_assoc, List.filter_append, List.filter_filter,
      List.mem_append, List.mem_filter, not_or]
    congr 2
    apply List.filter_congr
    intro key _
    by_cases inFirst : key ∈ first.keys
    · simp [inFirst]
    · simp [inFirst]
  · intro key
    simp only [get?_mergeWith]
    cases first.get? key <;> cases second.get? key <;> cases third.get? key <;> simp [assoc]

/-- An entry of a merge is an entry of one side, or combined from both. -/
theorem mem_entries_mergeWith (isEntry : entry ∈ (left.mergeWith combine right).entries) :
    entry ∈ left.entries ∨ entry ∈ right.entries ∨
      ∃ old new, (entry.1, old) ∈ left.entries ∧ (entry.1, new) ∈ right.entries ∧
        entry.2 = combine old new := by
  obtain ⟨key, value⟩ := entry
  rw [← get?_eq_some_iff, get?_mergeWith] at isEntry
  cases inLeft : left.get? key with
  | none =>
      rw [inLeft, Option.merge_none_left] at isEntry
      exact Or.inr (Or.inl (get?_eq_some_iff.mp isEntry))
  | some old =>
      cases inRight : right.get? key with
      | none =>
          rw [inLeft, inRight, Option.merge_none_right] at isEntry
          exact Or.inl (get?_eq_some_iff.mp (inLeft.trans isEntry))
      | some new =>
          rw [inLeft, inRight, Option.merge_some_some, Option.some.injEq] at isEntry
          exact Or.inr (Or.inr ⟨old, new, get?_eq_some_iff.mp inLeft, get?_eq_some_iff.mp inRight,
            isEntry.symm⟩)

/-- Changing the values of a merge is merging changed values, if the change of each value of the
merge agrees with the changes on the sides that it comes from. -/
theorem map_mergeWith {combineImages : β → β → β} {change ofLeft ofRight : α → β}
    (onlyLeft : ∀ key value, left.get? key = some value → right.get? key = none →
      change value = ofLeft value)
    (onlyRight : ∀ key value, left.get? key = none → right.get? key = some value →
      change value = ofRight value)
    (inBoth : ∀ key old new, left.get? key = some old → right.get? key = some new →
      change (combine old new) = combineImages (ofLeft old) (ofRight new)) :
    (left.mergeWith combine right).map change =
      (left.map ofLeft).mergeWith combineImages (right.map ofRight) := by
  apply ext_get?
  · simp [keys_mergeWith]
  · intro key
    simp only [get?_map, get?_mergeWith]
    cases inLeft : left.get? key with
    | none =>
        cases inRight : right.get? key with
        | none => rfl
        | some new => simp [onlyRight key new inLeft inRight]
    | some old =>
        cases inRight : right.get? key with
        | none => simp [onlyLeft key old inLeft inRight]
        | some new => simp [inBoth key old new inLeft inRight]

/-! ## Merging in which the second map wins -/

@[simp]
theorem merge_empty (left : OrderedMap κ α) : left.merge ∅ = left := rfl

@[simp]
theorem empty_merge (right : OrderedMap κ α) : (∅ : OrderedMap κ α).merge right = right :=
  empty_mergeWith _ right

theorem merge_assoc (first second third : OrderedMap κ α) :
    (first.merge second).merge third = first.merge (second.merge third) :=
  mergeWith_assoc (fun _ _ _ => rfl) first second third

@[simp]
theorem mem_keys_merge : key ∈ (left.merge right).keys ↔ key ∈ left.keys ∨ key ∈ right.keys :=
  mem_keys_mergeWith

theorem mem_entries_merge (isEntry : entry ∈ (left.merge right).entries) :
    entry ∈ left.entries ∨ entry ∈ right.entries := by
  rcases mem_entries_mergeWith isEntry with inLeft | inRight | ⟨_, new, _, inRight, same⟩
  · exact Or.inl inLeft
  · exact Or.inr inRight
  · right
    rw [← same] at inRight
    exact inRight

theorem isEmpty_merge (left right : OrderedMap κ α) :
    (left.merge right).isEmpty = (left.isEmpty && right.isEmpty) := by
  have viaKeys : ∀ source : OrderedMap κ α, source.isEmpty = source.keys.isEmpty := by
    intro source
    simp [isEmpty, keys]
  rw [Bool.eq_iff_iff, Bool.and_eq_true, viaKeys, viaKeys, viaKeys]
  simp only [List.isEmpty_iff, List.eq_nil_iff_forall_not_mem, mem_keys_merge, not_or]
  exact forall_and

theorem map_merge (change : α → β) (left right : OrderedMap κ α) :
    (left.merge right).map change = (left.map change).merge (right.map change) :=
  map_mergeWith (fun _ _ _ _ => rfl) (fun _ _ _ _ => rfl) fun _ _ _ _ _ => rfl

/-- On the left only the values that are not replaced matter. -/
theorem map_merge_of_replaced {change ofLeft ofRight : α → β}
    (onLeft : ∀ entry ∈ left.entries, entry.1 ∉ right.keys → change entry.2 = ofLeft entry.2)
    (onRight : ∀ entry ∈ right.entries, change entry.2 = ofRight entry.2) :
    (left.merge right).map change = (left.map ofLeft).merge (right.map ofRight) := by
  apply map_mergeWith
  · intro key value inLeft notRight
    exact onLeft (key, value) (get?_eq_some_iff.mp inLeft) (get?_eq_none_iff.mp notRight)
  · intro key value _ inRight
    exact onRight (key, value) (get?_eq_some_iff.mp inRight)
  · intro key _ new _ inRight
    exact onRight (key, new) (get?_eq_some_iff.mp inRight)

theorem mem_keys_foldl_merge {γ : Type} (part : γ → OrderedMap κ α) (items : List γ)
    (source : OrderedMap κ α) :
    key ∈ (items.foldl (fun map item => map.merge (part item)) source).keys ↔
      key ∈ source.keys ∨ ∃ item ∈ items, key ∈ (part item).keys := by
  induction items generalizing source with
  | nil => simp
  | cons item rest ih =>
      simp only [List.foldl_cons, ih, mem_keys_merge, List.mem_cons, exists_eq_or_imp]
      tauto

/-! ## Maps of lists -/

theorem mem_keys_foldl_insert :
    key ∈ (entries.foldl (fun map entry => map.insert entry.1 entry.2) source).keys ↔
      key ∈ source.keys ∨ key ∈ entries.map Prod.fst := by
  induction entries generalizing source with
  | nil => simp
  | cons entry rest ih =>
      rw [List.foldl_cons, ih, insert, keys_insertWith, List.map_cons,
        List.mem_cons]
      by_cases present : entry.1 ∈ source.keys
      · simp only [present, if_true]
        constructor
        · rintro (inSource | isLater)
          · exact Or.inl inSource
          · exact Or.inr (Or.inr isLater)
        · rintro (inSource | rfl | isLater)
          · exact Or.inl inSource
          · exact Or.inl present
          · exact Or.inr isLater
      · simp [present, or_assoc]

@[simp]
theorem mem_keys_ofList : key ∈ (ofList entries).keys ↔ key ∈ entries.map Prod.fst := by
  rw [ofList, mem_keys_foldl_insert]
  simp

theorem mem_entries_insert {value : α} (isEntry : entry ∈ (source.insert key value).entries) :
    entry ∈ source.entries ∨ entry = (key, value) := by
  obtain ⟨other, found⟩ := entry
  rw [← get?_eq_some_iff, insert, get?_insertWith] at isEntry
  by_cases same : other = key
  · right
    cases atKey : source.get? key with
    | none => simpa [same, atKey, eq_comm] using isEntry
    | some old => simpa [same, atKey, eq_comm] using isEntry
  · left
    simpa [same, get?_eq_some_iff] using isEntry

theorem mem_entries_foldl_insert
    (isEntry : entry ∈ (entries.foldl (fun map entry =>
      map.insert entry.1 entry.2) source).entries) :
    entry ∈ source.entries ∨ entry ∈ entries := by
  induction entries generalizing source with
  | nil => exact Or.inl isEntry
  | cons first rest ih =>
      rcases ih isEntry with inserted | isLater
      · rcases mem_entries_insert inserted with inSource | isFirst
        · exact Or.inl inSource
        · exact Or.inr (List.mem_cons.mpr (Or.inl isFirst))
      · exact Or.inr (List.mem_cons.mpr (Or.inr isLater))

theorem map_foldl_insert (change : α → β) (entries : List (κ × α)) (source : OrderedMap κ α) :
    (entries.foldl (fun map entry => map.insert entry.1 entry.2) source).map change =
      (entries.map fun entry => (entry.1, change entry.2)).foldl
        (fun map entry => map.insert entry.1 entry.2) (source.map change) := by
  induction entries generalizing source with
  | nil => rfl
  | cons entry rest ih =>
      have ofInsert : (source.insert entry.1 entry.2).map change =
          (source.map change).insert entry.1 (change entry.2) := by
        apply ext_get?
        · simp only [insert, keys_map, keys_insertWith]
        · intro key
          simp only [insert, get?_map, get?_insertWith]
          by_cases same : key = entry.1
          · cases source.get? entry.1 <;> simp [same]
          · simp [same]
      rw [List.foldl_cons, ih, ofInsert, List.map_cons, List.foldl_cons]

theorem map_ofList (change : α → β) (entries : List (κ × α)) :
    (ofList entries).map change = ofList (entries.map fun entry => (entry.1, change entry.2)) :=
  map_foldl_insert change entries ∅

theorem mem_entries_ofList (isEntry : entry ∈ (ofList entries).entries) : entry ∈ entries := by
  rcases mem_entries_foldl_insert isEntry with inEmpty | inList
  · simp at inEmpty
  · exact inList

theorem entries_ofList (distinct : (entries.map Prod.fst).Nodup) :
    (ofList entries).entries = entries := by
  have same : ofList entries = ⟨entries, distinct⟩ := by
    apply ext_get?
    · have keysOf := keys_foldl_insertWith (fun _ new => new) distinct (∅ : OrderedMap κ α)
      simpa [ofList, insert, keys] using keysOf
    · intro key
      have valueOf := get?_foldl_insertWith (fun _ new => new) distinct (∅ : OrderedMap κ α) key
      simpa [ofList, insert, get?] using valueOf
  rw [same]

/-- The entries of a sum: those of the first map with the values of the second, then those of the
second that are new. -/
theorem entries_merge (left right : OrderedMap κ α) :
    (left.merge right).entries =
      left.entries.map (fun entry => (entry.1, (right.get? entry.1).getD entry.2)) ++
        right.entries.filter fun entry => entry.1 ∉ left.keys := by
  have sameKeys : (left.merge right).keys =
      (left.entries.map (fun entry => (entry.1, (right.get? entry.1).getD entry.2)) ++
        right.entries.filter fun entry => entry.1 ∉ left.keys).map Prod.fst := by
    rw [merge, keys_mergeWith, List.map_append, List.map_map, keys, keys, List.filter_map]
    rfl
  have distinct := (left.merge right).distinct
  rw [← keys, sameKeys] at distinct
  have same : left.merge right = ⟨_, distinct⟩ := by
    apply ext_get? sameKeys
    intro key
    rw [merge, get?_mergeWith]
    apply Option.ext
    intro value
    rw [get?_eq_some_iff, List.mem_append, List.mem_map, List.mem_filter]
    cases inLeft : left.get? key with
    | none =>
        have absent := get?_eq_none_iff.mp inLeft
        have notLeft : ¬∃ entry ∈ left.entries,
            (entry.1, (right.get? entry.1).getD entry.2) = (key, value) := by
          rintro ⟨entry, isEntry, same⟩
          simp only [Prod.mk.injEq] at same
          exact absent (same.1 ▸ mem_keys_of_mem isEntry)
        have onRight : (none.merge (fun _ new => new) (right.get? key) = some value) ↔
            (key, value) ∈ right.entries := by
          rw [← get?_eq_some_iff]
          cases right.get? key <;> rfl
        simp only [notLeft, false_or, onRight]
        simp [absent]
    | some old =>
        have isEntry := get?_eq_some_iff.mp inLeft
        have present := mem_keys_of_mem isEntry
        have onLeft : ((some old).merge (fun _ new => new) (right.get? key) = some value) ↔
            (right.get? key).getD old = value := by
          cases right.get? key <;> simp
        have unique : ∀ entry ∈ left.entries, entry.1 = key → entry.2 = old := by
          rintro ⟨_, other⟩ isOther rfl
          have found := get?_eq_some_iff.mpr isOther
          rw [inLeft, Option.some.injEq] at found
          exact found.symm
        simp only [onLeft, present, not_true_eq_false, decide_false, Bool.false_eq_true, and_false,
          or_false, Prod.mk.injEq]
        constructor
        · intro isValue
          exact ⟨(key, old), isEntry, rfl, isValue⟩
        · rintro ⟨entry, isOther, sameKey, sameValue⟩
          rw [unique entry isOther sameKey, sameKey] at sameValue
          exact sameValue
  exact congrArg entries same

/-! ## Replacing and erasing -/

theorem get?_insert (key other : κ) (value : α) (source : OrderedMap κ α) :
    (source.insert key value).get? other =
      if other = key then some value else source.get? other := by
  rw [insert, get?_insertWith]
  split
  · cases source.get? key <;> rfl
  · rfl

theorem insert_insert (key : κ) (first second : α) (source : OrderedMap κ α) :
    (source.insert key first).insert key second = source.insert key second := by
  apply ext_get?
  · simp only [insert, keys_insertWith]
    split
    · rfl
    · simp
  · intro other
    simp only [get?_insert]
    split <;> rfl

theorem erase_insert (absent : key ∉ source.keys) (value : α) :
    (source.insert key value).erase key = source := by
  obtain ⟨entries, distinct⟩ := source
  apply ext
  simp only [keys, insert, insertWith, erase] at absent ⊢
  clear distinct
  induction entries with
  | nil => simp [insertEntry]
  | cons entry rest ih =>
      rw [List.map_cons, List.mem_cons, not_or] at absent
      have differs : entry.1 ≠ key := Ne.symm absent.1
      rw [insertEntry, if_neg differs, List.filter_cons_of_pos (by simpa using differs),
        ih absent.2]

end OrderedMap

end TerseStyle

import TerseStyle.Proofs.Reference

/-!
# Segments of a value

A value is put together from literals without reserved characters and from references. It reads back
as it was put together, since no reference starts or ends across the border of a segment. So each
kind of reference is written anew segment by segment, and if what is written has no reserved
characters, the result is a value again: a literal stands where the reference stood. The kinds can
therefore be taken in any order (`Segment.join_kinds_independent`).
-/

namespace TerseStyle

namespace Reference

/-- The three kinds of reference. -/
inductive Kind where
  | runtime
  | localVariable
  | scope
  deriving DecidableEq

/-- The kind of a reference. -/
def kind : Reference → Kind
  | runtime _ _ => .runtime
  | localVariable _ => .localVariable
  | scope _ => .scope

/-- Writes the references of one kind anew. -/
def resolveKind {ε : Type} (write : Reference → Text) (text : Text) : Kind → Except ε Text
  | .runtime =>
    resolveRuntime (fun abbreviation block => .ok (write (runtime abbreviation block))) text
  | .localVariable => .ok (resolveLocal (fun name => write (localVariable name)) text)
  | .scope => resolveScope (fun name => .ok (write (scope name))) text

variable {ε : Type} {target : Reference} {text : Text}

theorem resolveKind_eq (write : Reference → Text) (text : Text) (kind : Kind) :
    resolveKind write text kind = (.ok (rewrite
      (fun reference => if reference.kind = kind then write reference else reference.render)
      text) : Except ε Text) := by
  cases kind with
  | runtime => exact replaceItemsM_eq_ok (fun reference _ => by cases reference <;> rfl)
  | localVariable =>
      rw [resolveKind, resolveLocal]
      congr 2
      funext reference
      cases reference <;> rfl
  | scope => exact replaceItemsM_eq_ok (fun reference _ => by cases reference <;> rfl)

theorem exists_inside (wellNamed : target.WellNamed) :
    ∃ inside, Unmarked inside ∧ target.render = opening :: (inside ++ [closing]) := by
  have kinds : Unmarked "$:" ∧ Unmarked "&:" ∧ Unmarked "@:" ∧ Unmarked ":" := by decide
  cases target with
  | runtime abbreviation block =>
      refine ⟨"$:" ++ abbreviation ++ ":" ++ block, ?_, rfl⟩
      simp only [Text.madeOf_append]
      exact ⟨⟨⟨kinds.1, unmarked_of_isNameChar wellNamed.1.2⟩, kinds.2.2.2⟩,
        unmarked_of_isNameChar wellNamed.2⟩
  | localVariable name =>
      refine ⟨"&:" ++ name, ?_, rfl⟩
      exact Text.madeOf_append.mpr ⟨kinds.2.1, unmarked_of_isNameChar wellNamed.2⟩
  | scope name =>
      refine ⟨"@:" ++ name, ?_, rfl⟩
      exact Text.madeOf_append.mpr ⟨kinds.2.2.1, unmarked_of_isNameChar wellNamed.2⟩

theorem leftover?_render_append (wellNamed : target.WellNamed) (rest : Text) :
    leftover? (target.render ++ rest) = some target.render := by
  obtain ⟨inside, unmarked, isRender⟩ := exists_inside wellNamed
  have isTaken : (inside ++ closing :: rest).takeWhile (· ≠ closing) = inside := by
    rw [List.takeWhile_append_of_pos]
    · simp
    · exact fun c isChar => decide_eq_true (unmarked c isChar).2
  simpa [leftover?, isRender] using isTaken

theorem leftover?_append_of_unmarked (unmarked : Unmarked text) (rest : Text) :
    leftover? (text ++ rest) = leftover? rest := by
  rw [leftover?, List.dropWhile_append_of_pos, leftover?]
  exact fun c isChar => decide_eq_true (unmarked c isChar).1

theorem replaceItemsM_append_of_unmarked {attempt : Reference → Except ε Text}
    (unmarked : Unmarked text) (rest : Text) :
    Text.replaceItemsM recognise attempt (text ++ rest) =
      (Text.replaceItemsM recognise attempt rest).map (text ++ ·) := by
  induction text with
  | nil =>
      rw [List.nil_append]
      cases Text.replaceItemsM recognise attempt rest <;> rfl
  | cons c text ih =>
      simp only [Text.madeOf_cons] at unmarked
      rw [List.cons_append, replaceItemsM_cons unmarked.1.1, ih unmarked.2]
      cases Text.replaceItemsM recognise attempt rest <;> rfl

/-- A part of a value: a literal without reserved characters, or a reference that can be read
back. -/
inductive Segment where
  | literal (text : Text) (unmarked : Unmarked text)
  | reference (target : Reference) (wellNamed : target.WellNamed)

namespace Segment

/-- The reference of a segment that is one. -/
def reference? : Segment → Option Reference
  | literal _ _ => none
  | reference target _ => some target

/-- The abbreviation and the block of a segment that refers to a runtime variable. -/
def runtimeName? : Segment → Option (Text × Text)
  | reference (.runtime abbreviation block) _ => some (abbreviation, block)
  | _ => none

/-- The name of a segment that refers to a local variable. -/
def localName? : Segment → Option Text
  | reference (.localVariable name) _ => some name
  | _ => none

/-- The written form. -/
def render : Segment → Text
  | literal text _ => text
  | reference target _ => target.render

/-- The segment with a reference to a runtime variable written anew. -/
def withRuntime (resolve : Text → Text → Except ε Text) : Segment → Except ε Text
  | reference (.runtime abbreviation block) _ => resolve abbreviation block
  | segment => .ok segment.render

/-- The segment with a reference to a local variable written anew. -/
def withLocal (resolve : Text → Text) : Segment → Text
  | reference (.localVariable name) _ => resolve name
  | segment => segment.render

/-- The segment with a reference to a class written anew. -/
def withScope (resolve : Text → Except ε Text) : Segment → Except ε Text
  | reference (.scope name) _ => resolve name
  | segment => .ok segment.render

/-- The segment with a reference of one of the kinds written anew. -/
def withKinds (write : Reference → Text) (kinds : List Kind) : Segment → Text
  | literal text _ => text
  | reference target _ => if target.kind ∈ kinds then write target else target.render

/-- The value that segments make up. -/
def join (segments : List Segment) : Text :=
  segments.flatMap render

variable (segments : List Segment)

theorem all_join : all (join segments) = segments.filterMap reference? := by
  induction segments with
  | nil => rfl
  | cons segment rest ih =>
      cases segment with
      | literal text unmarked => exact (all_of_unmarked_append unmarked _).trans ih
      | reference target wellNamed =>
          exact (all_render_append wellNamed _).trans (congrArg (target :: ·) ih)

theorem leftover?_join :
    leftover? (join segments) = (segments.findSome? reference?).map Reference.render := by
  induction segments with
  | nil => rfl
  | cons segment rest ih =>
      cases segment with
      | literal text unmarked => exact (leftover?_append_of_unmarked unmarked _).trans ih
      | reference target wellNamed => exact leftover?_render_append wellNamed _

theorem runtimeNames_join : runtimeNames (join segments) = segments.filterMap runtimeName? := by
  rw [runtimeNames, all_join, List.filterMap_filterMap]
  congr 1
  funext segment
  rcases segment with _ | ⟨_ | _ | _, _⟩ <;> rfl

theorem localNames_join : localNames (join segments) = segments.filterMap localName? := by
  rw [localNames, all_join, List.filterMap_filterMap]
  congr 1
  funext segment
  rcases segment with _ | ⟨_ | _ | _, _⟩ <;> rfl

/-! ## Writing references anew -/

theorem replaceItemsM_join {attempt : Reference → Except ε Text} {change : Segment → Except ε Text}
    (literals : ∀ text unmarked, change (literal text unmarked) = .ok text)
    (references : ∀ target wellNamed, change (reference target wellNamed) = attempt target) :
    Text.replaceItemsM recognise attempt (join segments) =
      (segments.mapM change).map List.flatten := by
  induction segments with
  | nil => rfl
  | cons segment rest ih =>
      rw [join, List.flatMap_cons, ← join, List.mapM_cons]
      cases segment with
      | literal text unmarked =>
          rw [literals, render, replaceItemsM_append_of_unmarked unmarked, ih]
          cases rest.mapM change <;> rfl
      | reference target wellNamed =>
          rw [references, render, replaceItemsM_render_append wellNamed, ih]
          cases attempt target with
          | error error => rfl
          | ok written => cases rest.mapM change <;> rfl

theorem resolveRuntime_join (resolve : Text → Text → Except ε Text) :
    resolveRuntime resolve (join segments) =
      (segments.mapM (withRuntime resolve)).map List.flatten := by
  apply replaceItemsM_join segments (fun _ _ => rfl)
  intro target wellNamed
  cases target <;> rfl

theorem resolveScope_join (resolve : Text → Except ε Text) :
    resolveScope resolve (join segments) =
      (segments.mapM (withScope resolve)).map List.flatten := by
  apply replaceItemsM_join segments (fun _ _ => rfl)
  intro target wellNamed
  cases target <;> rfl

theorem rewrite_join {write : Reference → Text} {change : Segment → Text}
    (literals : ∀ text unmarked, change (literal text unmarked) = text)
    (references : ∀ target wellNamed, change (reference target wellNamed) = write target) :
    rewrite write (join segments) = segments.flatMap change := by
  induction segments with
  | nil => rfl
  | cons segment rest ih =>
      rw [join, List.flatMap_cons, ← join, List.flatMap_cons, ← ih]
      cases segment with
      | literal text unmarked =>
          have within : Within (fun _ => False) text := .of_unmarked unmarked
          rw [literals, render, within.rewrite_append, rewrite_of_unmarked unmarked]
      | reference target wellNamed => rw [references, render, rewrite_render_append wellNamed]

theorem resolveLocal_join (resolve : Text → Text) :
    resolveLocal resolve (join segments) = segments.flatMap (withLocal resolve) := by
  apply rewrite_join segments (fun _ _ => rfl)
  intro target wellNamed
  cases target <;> rfl

theorem resolveKind_join (write : Reference → Text) (kind : Kind) :
    resolveKind write (join segments) kind =
      (.ok (segments.flatMap (withKinds write [kind])) : Except ε Text) := by
  rw [resolveKind_eq]
  apply congrArg Except.ok
  apply rewrite_join segments (fun _ _ => rfl)
  intro target wellNamed
  simp [withKinds]

section Unmarked

variable {write : Reference → Text} (unmarked : ∀ reference, Unmarked (write reference))

/-- The segment with a literal in the place of a reference of one of the kinds. -/
def replace (kinds : List Kind) : Segment → Segment
  | reference target wellNamed =>
    if target.kind ∈ kinds then literal (write target) (unmarked target)
    else reference target wellNamed
  | segment => segment

theorem render_replace (kinds : List Kind) (segment : Segment) :
    (segment.replace unmarked kinds).render = withKinds write kinds segment := by
  cases segment with
  | literal text _ => rfl
  | reference target wellNamed =>
      rw [replace, withKinds]
      split <;> rfl

theorem join_map_replace (kinds : List Kind) :
    join (segments.map (replace unmarked kinds)) = segments.flatMap (withKinds write kinds) := by
  rw [join, List.flatMap_map]
  simp only [render_replace]

theorem withKinds_replace (kind : Kind) (kinds : List Kind) (segment : Segment) :
    withKinds write kinds (segment.replace unmarked [kind]) =
      withKinds write (kind :: kinds) segment := by
  cases segment with
  | literal text _ => rfl
  | reference target wellNamed =>
      by_cases isKind : target.kind = kind
      · simp [replace, withKinds, isKind]
      · simp [replace, withKinds, isKind]

include unmarked

/-- Once a kind is written anew the value is made of segments again, so the others can follow. -/
theorem foldlM_resolveKind (kinds : List Kind) :
    kinds.foldlM (resolveKind write) (join segments) =
      (.ok (segments.flatMap (withKinds write kinds)) : Except ε Text) := by
  induction kinds generalizing segments with
  | nil =>
      have unchanged : withKinds write [] = render := by
        funext segment
        cases segment <;> simp [withKinds, render]
      rw [unchanged]
      rfl
  | cons kind kinds ih =>
      rw [List.foldlM_cons, resolveKind_join, ← join_map_replace segments unmarked]
      refine (ih _).trans ?_
      simp only [List.flatMap_map, withKinds_replace]

theorem leftover?_withKinds (kinds : List Kind) :
    leftover? (segments.flatMap (withKinds write kinds)) = none ↔
      ∀ segment ∈ segments, ∀ target ∈ segment.reference?, target.kind ∈ kinds := by
  rw [← join_map_replace segments unmarked, leftover?_join, Option.map_eq_none_iff,
    List.findSome?_eq_none_iff, List.forall_mem_map]
  refine forall₂_congr fun segment _ => ?_
  cases segment with
  | literal text _ => simp [replace, reference?]
  | reference target wellNamed =>
      rw [replace]
      split <;> simp_all [reference?]

end Unmarked

/-- A value gives back the names of its references in order. Each kind is written anew segment by
segment, with all else left as it is. If what is written has no reserved characters, any kinds can
be written anew in any order, and a reference is left over exactly if its kind was not among them.
-/
theorem join_kinds_independent :
    runtimeNames (join segments) = segments.filterMap runtimeName? ∧
      localNames (join segments) = segments.filterMap localName? ∧
      (∀ resolve : Text → Text → Except ε Text, resolveRuntime resolve (join segments) =
        (segments.mapM (withRuntime resolve)).map List.flatten) ∧
      (∀ resolve : Text → Text, resolveLocal resolve (join segments) =
        segments.flatMap (withLocal resolve)) ∧
      (∀ resolve : Text → Except ε Text, resolveScope resolve (join segments) =
        (segments.mapM (withScope resolve)).map List.flatten) ∧
      leftover? (join segments) = (segments.findSome? reference?).map Reference.render ∧
      ∀ write : Reference → Text, (∀ reference, Unmarked (write reference)) → ∀ kinds : List Kind,
        (∀ order : List Kind, order.Perm kinds → order.foldlM (resolveKind write) (join segments) =
          (.ok (segments.flatMap (withKinds write kinds)) : Except ε Text)) ∧
        (leftover? (segments.flatMap (withKinds write kinds)) = none ↔
          ∀ segment ∈ segments, ∀ target ∈ segment.reference?, target.kind ∈ kinds) := by
  refine ⟨runtimeNames_join segments, localNames_join segments, resolveRuntime_join segments,
    resolveLocal_join segments, resolveScope_join segments, leftover?_join segments, ?_⟩
  intro write unmarked kinds
  refine ⟨fun order isOrder => ?_, leftover?_withKinds segments unmarked kinds⟩
  have sameKinds : withKinds write order = withKinds write kinds := by
    funext segment
    cases segment <;> simp [withKinds, isOrder.mem_iff]
  rw [foldlM_resolveKind segments unmarked, sameKinds]

/-- References side by side, next to a literal with the characters that tell their kinds apart. -/
theorem join_kinds_independent_adjacent :
    let segments : List Segment := [
      literal "$&:@ " (by decide),
      reference (runtime "bc" "hover") ⟨⟨by decide, by decide⟩, by decide⟩,
      reference (localVariable "pad") ⟨by decide, by decide⟩,
      literal ":" (by decide),
      reference (runtime "bg" []) ⟨⟨by decide, by decide⟩, by decide⟩,
      reference (scope "card") ⟨by decide, by decide⟩]
    let write : Reference → Text := fun target => if target.kind = .scope then ".card" else "1px"
    let names : List (Text × Text) := [("bc", "hover"), ("bg", [])]
    runtimeNames (join segments) = names ∧ localNames (join segments) = ["pad"] ∧
      [Kind.scope, .localVariable, .runtime].foldlM (resolveKind write) (join segments) =
        (.ok "$&:@ 1px1px:1px.card" : Except Error Text) ∧
      leftover? (join segments) = some (runtime "bc" "hover").render ∧
      leftover? "$&:@ 1px1px:1px.card" = none := by
  intro segments write names
  have unmarked : ∀ target, Unmarked (write target) := by
    intro target
    simp only [write]
    split
    · decide
    · decide
  obtain ⟨runtimes, locals, _, _, _, leftover, ofKinds⟩ := @join_kinds_independent Error segments
  obtain ⟨inOrder, noneLeft⟩ := ofKinds write unmarked [.runtime, .localVariable, .scope]
  refine ⟨runtimes, locals, inOrder _ (by decide), leftover, noneLeft.mpr ?_⟩
  decide

end Segment

end Reference

end TerseStyle

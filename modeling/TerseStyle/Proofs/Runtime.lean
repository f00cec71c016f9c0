import TerseStyle.Proofs.Place

/-!
# Runtime declarations and their references

A runtime declaration sets the properties of its abbreviation to a reference. So a style that
follows some runtime declarations refers to a variable only where a declaration of that variable
wrote the reference, and a later declaration of the same variable writes all of these properties
again. Hence the references that are left all stand for the last declaration of their variable, and
they can be filled in, for a sum as for its parts (`Style.filled_append`).
-/

namespace TerseStyle

open Reference (Unmarked Within rewrite)

/-- A runtime declaration and the place where it stands. -/
structure RuntimeDeclaration where
  place : Place
  declaration : Declaration

namespace RuntimeDeclaration

/-- The properties that refer to the variable. -/
def properties (runtime : RuntimeDeclaration) : List Text :=
  (Abbreviation.expand? runtime.declaration.name).getD []

/-- The reference to the variable. -/
def reference (runtime : RuntimeDeclaration) : Reference :=
  .runtime runtime.declaration.name runtime.place.block

/-- The default of the variable. -/
def default (runtime : RuntimeDeclaration) : Text :=
  Value.wrapVariables runtime.declaration.value

/-- The last declaration of a variable. -/
def last? (declarations : List RuntimeDeclaration) (name block : Text) :
    Option RuntimeDeclaration :=
  (declarations.filter fun runtime =>
    runtime.declaration.name = name ∧ runtime.place.block = block).getLast?

variable {declarations first second : List RuntimeDeclaration} {name block : Text}
  {runtime : RuntimeDeclaration}

theorem last?_append :
    last? (first ++ second) name block = (last? second name block).or (last? first name block) := by
  rw [last?, List.filter_append, List.getLast?_append]
  rfl

theorem of_last? (isLast : last? declarations name block = some runtime) :
    runtime ∈ declarations ∧ runtime.declaration.name = name ∧ runtime.place.block = block := by
  have isMatch := List.mem_of_getLast? isLast
  rw [List.mem_filter, decide_eq_true_eq] at isMatch
  exact isMatch

theorem exists_last?_of_mem (isDeclared : runtime ∈ declarations) :
    ∃ last, last? declarations runtime.declaration.name runtime.place.block = some last := by
  cases isLast : last? declarations runtime.declaration.name runtime.place.block with
  | some last => exact ⟨last, rfl⟩
  | none =>
      rw [last?, List.getLast?_eq_none_iff, List.filter_eq_nil_iff] at isLast
      simpa using isLast runtime isDeclared

/-- What stands for a reference if each variable is written as its last declaration says. -/
def fill (write : RuntimeDeclaration → Text) (declarations : List RuntimeDeclaration) :
    Reference → Text
  | .runtime name block =>
    ((last? declarations name block).map write).getD (Reference.runtime name block).render
  | reference => reference.render

end RuntimeDeclaration

/-- The reference is to a local variable. -/
def Reference.IsLocal : Reference → Prop
  | .localVariable _ => True
  | _ => False

namespace Reference

variable {write : Reference → Text}

theorem rewrite_withImportance {reference : Reference} (wellNamed : reference.WellNamed)
    (important : Bool) :
    rewrite write (Value.withImportance important reference.render) =
      Value.withImportance important (write reference) := by
  cases important with
  | false => exact rewrite_render wellNamed
  | true =>
      have unmarkedMark : Unmarked (" !important" : Text) := by decide
      simp only [Value.withImportance, if_true]
      rw [rewrite_render_append wellNamed, rewrite_of_unmarked unmarkedMark]

theorem Within.rewrite_fill {value : Text} (within : Within IsLocal value)
    (written : RuntimeDeclaration → Text) (declarations : List RuntimeDeclaration) :
    Reference.rewrite (RuntimeDeclaration.fill written declarations) value = value := by
  apply within.rewrite_eq_self
  intro reference isLocal
  cases reference with
  | localVariable name => rfl
  | runtime name block => exact isLocal.elim
  | scope name => exact isLocal.elim

end Reference

open RuntimeDeclaration (last? fill)

/-- The entry refers to local variables only, or a runtime declaration of the place wrote it. -/
def FollowsAt (place : Place) (declarations : List RuntimeDeclaration) (entry : Text × Text) :
    Prop :=
  Within Reference.IsLocal entry.2 ∨
    place.Known ∧ ∃ runtime ∈ declarations, runtime.place = place ∧ entry.1 ∈ runtime.properties ∧
      ∃ important, entry.2 = Value.withImportance important runtime.reference.render

namespace Style

/-- The style refers to runtime variables only where some declarations do, and has the defaults
of the last of them. -/
structure Follows (declarations : List RuntimeDeclaration) (style : Style) : Prop where
  values : ∀ place, ∀ entry ∈ (style.propertiesAt place).entries, FollowsAt place declarations entry
  conditional : ∀ block ∈ style.screens ++ style.containers, ∀ value ∈ block.properties.values,
    Within Reference.IsLocal value
  declared : ∀ runtime ∈ declarations, runtime.place.Known ∧ runtime.reference.WellNamed ∧
    ∀ name ∈ runtime.properties, name ∈ (style.propertiesAt runtime.place).keys
  defaults : ∀ place : Place, place.Known → ∀ name, (style.pending.propertiesAt place).get? name =
    (last? declarations name place.block).map RuntimeDeclaration.default
  pending : style.pending.Known

variable {left right style : Style} {first second declarations : List RuntimeDeclaration}

theorem Follows.append (followsLeft : left.Follows first) (followsRight : right.Follows second) :
    (left ++ right).Follows (first ++ second) where
  values := by
    intro place entry isEntry
    rw [propertiesAt_append] at isEntry
    rcases OrderedMap.mem_entries_merge isEntry with inLeft | inRight
    · rcases followsLeft.values place entry inLeft with
        isLocal | ⟨known, runtime, isDeclared, wrote⟩
      · exact Or.inl isLocal
      · exact Or.inr ⟨known, runtime, List.mem_append_left _ isDeclared, wrote⟩
    · rcases followsRight.values place entry inRight with
        isLocal | ⟨known, runtime, isDeclared, wrote⟩
      · exact Or.inl isLocal
      · exact Or.inr ⟨known, runtime, List.mem_append_right _ isDeclared, wrote⟩
  conditional := by
    intro block isBlock
    exact (mem_conditionals_append isBlock).elim (followsLeft.conditional block)
      (followsRight.conditional block)
  declared := by
    intro runtime isDeclared
    rw [propertiesAt_append]
    rcases List.mem_append.mp isDeclared with inFirst | inSecond
    · rcases followsLeft.declared runtime inFirst with ⟨known, wellNamed, areSet⟩
      exact ⟨known, wellNamed, fun name isName =>
        OrderedMap.mem_keys_merge.mpr (Or.inl (areSet name isName))⟩
    · rcases followsRight.declared runtime inSecond with ⟨known, wellNamed, areSet⟩
      exact ⟨known, wellNamed, fun name isName =>
        OrderedMap.mem_keys_merge.mpr (Or.inr (areSet name isName))⟩
  defaults := by
    intro place known name
    rw [pending_append, Pending.propertiesAt_append, OrderedMap.merge, OrderedMap.get?_mergeWith,
      followsLeft.defaults place known, followsRight.defaults place known,
      RuntimeDeclaration.last?_append]
    cases last? first name place.block <;> cases last? second name place.block <;> rfl
  pending := followsLeft.pending.append followsRight.pending

theorem Follows.exists_last?_of_declares (follows : style.Follows declarations) {name block : Text}
    (declared : style.pending.declares name block = true) :
    ∃ last, last? declarations name block = some last := by
  rcases List.any_eq_true.mp declared with ⟨⟨_, _, default⟩, isDefault, same⟩
  simp only [Bool.and_eq_true, beq_iff_eq] at same
  rcases same with ⟨rfl, rfl⟩
  rcases follows.pending.exists_place_of_mem_defaults isDefault with ⟨place, known, rfl, found⟩
  rw [follows.defaults place known, Option.map_eq_some_iff] at found
  rcases found with ⟨last, isLast, _⟩
  exact ⟨last, isLast⟩

/-- The style with every runtime reference filled in. -/
def filled (write : RuntimeDeclaration → Text) (declarations : List RuntimeDeclaration)
    (style : Style) : Style :=
  { style.mapValues (rewrite (fill write declarations)) with
    hasRuntime := false
    pending := style.pending.drained }

variable {write : RuntimeDeclaration → Text}

/-- A reference that is not replaced has no declaration on the right. -/
theorem Follows.last?_eq_none (followsLeft : left.Follows first)
    (followsRight : right.Follows second) {runtime : RuntimeDeclaration}
    (isDeclared : runtime ∈ first) {name : Text} (isProperty : name ∈ runtime.properties)
    (notReplaced : name ∉ (right.propertiesAt runtime.place).keys) :
    last? second runtime.declaration.name runtime.place.block = none := by
  cases isLast : last? second runtime.declaration.name runtime.place.block with
  | none => rfl
  | some later =>
      rcases RuntimeDeclaration.of_last? isLast with ⟨inSecond, sameName, sameBlock⟩
      rcases followsRight.declared later inSecond with ⟨known, _, areSet⟩
      have samePlace : later.place = runtime.place :=
        known.eq_of_block_eq (followsLeft.declared runtime isDeclared).1 sameBlock
      have isSet := areSet name (by rwa [RuntimeDeclaration.properties, sameName])
      rw [samePlace] at isSet
      exact absurd isSet notReplaced

theorem Follows.map_merge (followsLeft : left.Follows first) (followsRight : right.Follows second)
    (write : RuntimeDeclaration → Text) (place : Place) :
    ((left.propertiesAt place).merge (right.propertiesAt place)).map
        (rewrite (fill write (first ++ second))) =
      ((left.propertiesAt place).map (rewrite (fill write first))).merge
        ((right.propertiesAt place).map (rewrite (fill write second))) := by
  apply OrderedMap.map_merge_of_replaced
  · intro entry isEntry notReplaced
    rcases followsLeft.values place entry isEntry with
      isLocal | ⟨_, runtime, isDeclared, rfl, isProperty, important, isReference⟩
    · rw [isLocal.rewrite_fill, isLocal.rewrite_fill]
    · have wellNamed := (followsLeft.declared runtime isDeclared).2.1
      rw [isReference, Reference.rewrite_withImportance wellNamed,
        Reference.rewrite_withImportance wellNamed]
      simp only [RuntimeDeclaration.reference, fill, RuntimeDeclaration.last?_append,
        followsLeft.last?_eq_none followsRight isDeclared isProperty notReplaced, Option.none_or]
  · intro entry isEntry
    rcases followsRight.values place entry isEntry with
      isLocal | ⟨_, runtime, isDeclared, rfl, isProperty, important, isReference⟩
    · rw [isLocal.rewrite_fill, isLocal.rewrite_fill]
    · have wellNamed := (followsRight.declared runtime isDeclared).2.1
      rcases RuntimeDeclaration.exists_last?_of_mem isDeclared with ⟨last, isLast⟩
      rw [isReference, Reference.rewrite_withImportance wellNamed,
        Reference.rewrite_withImportance wellNamed]
      simp only [RuntimeDeclaration.reference, fill, RuntimeDeclaration.last?_append, isLast,
        Option.some_or]

theorem filled_append (followsLeft : left.Follows first) (followsRight : right.Follows second) :
    (left ++ right).filled write (first ++ second) =
      left.filled write first ++ right.filled write second := by
  have ofValues : (left ++ right).mapValues (rewrite (fill write (first ++ second))) =
      left.mapValues (rewrite (fill write first)) ++
        right.mapValues (rewrite (fill write second)) := by
    apply mapValues_append (followsLeft.map_merge followsRight write)
    · intro block isBlock value isValue
      have isLocal := followsLeft.conditional block isBlock value isValue
      rw [isLocal.rewrite_fill, isLocal.rewrite_fill]
    · intro block isBlock value isValue
      have isLocal := followsRight.conditional block isBlock value isValue
      rw [isLocal.rewrite_fill, isLocal.rewrite_fill]
  rw [filled, ofValues, pending_append, Pending.drained_append]
  rfl

end Style

end TerseStyle

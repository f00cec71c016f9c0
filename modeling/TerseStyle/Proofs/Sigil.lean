import TerseStyle.Proofs.Runtime

/-!
# Declarations with and without the sigil of a runtime variable

A runtime declaration that is accepted has a plain counterpart, the same without the sigil. The
plain one writes its value where the runtime one writes a reference, but it treats the value in its
own way: it gives keyframes their final names and quotes the content of a pseudo-element
(`Environment.plainValue?`). A style that plain declarations wrote mirrors the style of the runtime
declarations: it is the same with every reference filled in.
-/

namespace TerseStyle

open Reference (Unmarked Within rewrite)
open RuntimeDeclaration (last? fill)

/-- The value may be the default of a runtime variable. -/
structure RuntimeDeclaration.Allowed (runtime : RuntimeDeclaration) : Prop where
  unmarked : Unmarked runtime.declaration.value
  noLocal : Value.mentionsLocal runtime.declaration.value = false

/-- Whether the place is a pseudo-element. -/
def Place.isElement : Place → Bool
  | .element _ => true
  | _ => false

theorem Slot.isElement_toPlace (slot : Slot) : slot.toPlace.isElement = slot.target.isElement := by
  cases slot <;> rfl

namespace Environment

/-- The local variables that the plain counterpart of a declaration mentions and the value that it
writes, without a mark of importance, or nothing if it is refused. -/
def plainValue? (environment : Environment) (runtime : RuntimeDeclaration) :
    Option (List Text × Text) :=
  let name := runtime.declaration.name
  let renamed : Except Error Text :=
    if name = "am" ∨ name = "am-n" then environment.renameKeyframe runtime.declaration.value
    else .ok runtime.declaration.value
  match renamed with
  | .error _ => none
  | .ok value =>
    if Reference.hasMarker value then none
    else
      let wrapped := Value.wrapVariables value
      let mentions := Value.mentionsLocal wrapped
      let resolved := if mentions then Value.referLocals wrapped else wrapped
      some (if mentions then Value.localNames wrapped else [],
        if name = "ct" ∧ runtime.place.isElement then Value.quoted resolved else resolved)

/-- The value that the plain counterpart of a declaration writes. -/
def plainValue (environment : Environment) (runtime : RuntimeDeclaration) : Text :=
  ((environment.plainValue? runtime).map Prod.snd).getD []

/-- The local variables that the plain counterpart of a declaration mentions. -/
def plainLocals (environment : Environment) (runtime : RuntimeDeclaration) : List Text :=
  ((environment.plainValue? runtime).map Prod.fst).getD []

theorem within_plainValue (environment : Environment) (runtime : RuntimeDeclaration) :
    Within Reference.IsLocal (environment.plainValue runtime) := by
  rw [plainValue]
  cases writes : environment.plainValue? runtime with
  | none => exact .nil
  | some written =>
      simp only [plainValue?] at writes
      split at writes
      · simp at writes
      · next renamed _ =>
        split at writes
        · simp at writes
        · next unmarked =>
          rw [Bool.not_eq_true, Reference.hasMarker_eq_false_iff] at unmarked
          have ofWrapped := Value.madeOf_wrapVariables (by decide) unmarked
          have resolved : Within Reference.IsLocal
              (if Value.mentionsLocal (Value.wrapVariables renamed) = true then
                Value.referLocals (Value.wrapVariables renamed)
              else Value.wrapVariables renamed) := by
            split
            · apply (Value.within_referLocals ofWrapped).mono
              rintro reference ⟨name, _, rfl⟩
              trivial
            · exact .of_unmarked ofWrapped
          rw [Option.some.injEq] at writes
          rw [← writes, Option.map_some, Option.getD_some]
          simp only
          split
          · exact Value.within_quoted resolved
          · exact resolved

/-- The plain counterpart writes what the runtime declaration declares as the default: it names no
keyframe, and the content of a pseudo-element is quoted already. -/
structure Keeps (environment : Environment) (runtime : RuntimeDeclaration) : Prop where
  animation : runtime.declaration.name = "am" ∨ runtime.declaration.name = "am-n" →
    environment.renameKeyframe runtime.declaration.value = .ok runtime.declaration.value
  content : runtime.declaration.name = "ct" ∧ runtime.place.isElement = true →
    Value.quoted runtime.default = runtime.default

instance (environment : Environment) : DecidablePred environment.Keeps := fun runtime =>
  decidable_of_iff
    ((runtime.declaration.name = "am" ∨ runtime.declaration.name = "am-n" →
        environment.renameKeyframe runtime.declaration.value = .ok runtime.declaration.value) ∧
      (runtime.declaration.name = "ct" ∧ runtime.place.isElement = true →
        Value.quoted runtime.default = runtime.default))
    ⟨fun keeps => ⟨keeps.1, keeps.2⟩, fun keeps => ⟨keeps.animation, keeps.content⟩⟩

variable {runtime : RuntimeDeclaration}

theorem plainValue?_of_keeps {environment : Environment} (keeps : environment.Keeps runtime)
    (allowed : runtime.Allowed) : environment.plainValue? runtime = some ([], runtime.default) := by
  have renamed : (if runtime.declaration.name = "am" ∨ runtime.declaration.name = "am-n" then
      environment.renameKeyframe runtime.declaration.value else .ok runtime.declaration.value) =
        .ok runtime.declaration.value := by
    split
    · next isAnimation => exact keeps.animation isAnimation
    · rfl
  have noMarker := Reference.hasMarker_eq_false_iff.mpr allowed.unmarked
  have noLocal := Value.mentionsLocal_wrapVariables allowed.noLocal
  simp only [plainValue?, renamed, noMarker, noLocal, Bool.false_eq_true, if_false]
  split
  · next isContent => exact congrArg some (Prod.ext rfl (keeps.content isContent))
  · rfl

variable {ω : Type} [EmptyCollection ω] [Append ω] {environment : Environment} {target : Target ω}
  {statement : Text}

/-- The plain counterpart writes its value together with the note of its local variables. -/
theorem setProperties_of_some [Additive ω] (isRule : environment.context = .rule)
    (lawful : target.Lawful) (sameElement : target.isElement = runtime.place.isElement)
    {used : List Text} {value : Text}
    (writes : environment.plainValue? runtime = some (used, value)) (properties : List Text) :
    environment.setProperties target statement { runtime.declaration with sigil := .plain }
        properties =
      .write (target.contribute
        { Body.ofProperties properties
            (Value.withImportance runtime.declaration.important value) with
          usedLocals := .ofList used }) := by
  simp only [plainValue?] at writes
  simp only [setProperties, sameElement]
  split at writes
  · simp at writes
  · next renamed isRenamed =>
    rw [isRenamed, Draft.lift_ok_andThen]
    split at writes
    · simp at writes
    · next unmarked =>
      simp only [Option.some.injEq, Prod.mk.injEq] at writes
      rw [resolveValue, if_neg unmarked, isRule]
      by_cases mentions : Value.mentionsLocal (Value.wrapVariables renamed) = true
      · simp only [mentions, if_true] at writes
        simp only [mentions, Context.allowsLocalReferences, Bool.not_true, Bool.false_eq_true,
          if_false]
        rw [Draft.write, Draft.andThen_of_ok rfl, Draft.andThen_of_ok rfl]
        simp only [Draft.done, Draft.write, Additive.append_empty, writes.1, writes.2]
        rw [lawful.contribute_ofProperties]
      · simp only [mentions, Bool.false_eq_true, if_false] at writes
        simp only [mentions, Bool.not_false, if_true]
        rw [Draft.done, Draft.andThen_of_ok rfl, ← writes.1]
        simp only [Draft.write, Additive.empty_append, writes.2]
        rfl

theorem setProperties_of_none [Additive ω] (refused : environment.plainValue? runtime = none)
    (properties : List Text) :
    (environment.setProperties target statement { runtime.declaration with sigil := .plain }
      properties).result ≠ .ok () := by
  simp only [plainValue?] at refused
  simp only [setProperties]
  split at refused
  · next error isRefused =>
    rw [isRefused, Draft.lift_error_andThen]
    simp [Draft.fail]
  · next renamed isRenamed =>
    rw [isRenamed, Draft.lift_ok_andThen]
    split at refused
    · next marked =>
      rw [resolveValue, if_pos marked]
      simp [Draft.fail, Draft.andThen]
    · simp at refused

theorem declare_plain {declaration : Declaration} {properties : List Text}
    (accepted : environment.refusesImportance declaration = false)
    (notPreset : declaration.name ≠ "ty")
    (expands : Abbreviation.expand? declaration.name = some properties) (other : Text) :
    environment.declare target other { declaration with sigil := .plain } =
      environment.setProperties target other { declaration with sigil := .plain } properties := by
  have acceptedPlain :
      environment.refusesImportance { declaration with sigil := .plain } = false := accepted
  simp [declare, acceptedPlain, notPreset, basic, expands]

end Environment

/-! ## Mirrored styles -/

/-- The second style is the first with every runtime reference filled in by what the plain
counterparts of some declarations write, and it mentions their local variables besides. -/
structure Mirrors (environment : Environment) (declarations : List RuntimeDeclaration)
    (style plain : Style) : Prop where
  follows : style.Follows declarations
  filled : { plain with usedLocals := style.usedLocals } =
    style.filled environment.plainValue declarations
  usedLocals : ∀ name, name ∈ plain.usedLocals.keys ↔
    name ∈ style.usedLocals.keys ∨
      ∃ runtime ∈ declarations, name ∈ environment.plainLocals runtime

namespace Mirrors

variable {environment : Environment} {first second : List RuntimeDeclaration}
  {left right plainLeft plainRight style : Style}

theorem append (ofLeft : Mirrors environment first left plainLeft)
    (ofRight : Mirrors environment second right plainRight) :
    Mirrors environment (first ++ second) (left ++ right) (plainLeft ++ plainRight) where
  follows := ofLeft.follows.append ofRight.follows
  filled := by
    rw [Style.filled_append ofLeft.follows ofRight.follows, ← ofLeft.filled, ← ofRight.filled]
    rfl
  usedLocals := by
    intro name
    simp only [Style.usedLocals_append, OrderedMap.mem_keys_merge, ofLeft.usedLocals,
      ofRight.usedLocals, List.mem_append, or_and_right, exists_or]
    exact or_or_or_comm

theorem of_noRuntime (sound : style.Sound) (noRuntime : style.hasRuntime = false)
    (noVariable : style.pending.isEmpty = true) (known : style.pending.Known) :
    Mirrors environment [] style style := by
  have isLocal : ∀ {name value}, style.Sets name value → Within Reference.IsLocal value := by
    intro name value sets
    apply (sound.values sets).2.mono
    intro reference covers
    cases reference with
    | runtime name block =>
        simp [Style.Covers, Pending.isEmpty_iff_not_declares.mp noVariable] at covers
    | localVariable name => trivial
    | scope name => exact covers
  have isValue : ∀ {properties : Properties} {value : Text}, value ∈ properties.values →
      ∃ name, (name, value) ∈ properties.entries := by
    intro properties value isValue
    rcases List.mem_map.mp isValue with ⟨entry, isEntry, rfl⟩
    exact ⟨entry.1, isEntry⟩
  refine ⟨⟨?_, ?_, ?_, ?_, known⟩, ?_, ?_⟩
  · intro place entry isEntry
    exact Or.inl (isLocal (Style.sets_of_mem_propertiesAt isEntry))
  · intro block isBlock value inBlock
    rcases isValue inBlock with ⟨name, isEntry⟩
    rcases List.mem_append.mp isBlock with isScreen | isContainer
    · exact isLocal (.screen isScreen isEntry)
    · exact isLocal (.container isContainer isEntry)
  · simp
  · intro place _ name
    rw [Pending.propertiesAt_of_isEmpty noVariable]
    rfl
  · have kept : style.mapValues (rewrite (fill environment.plainValue [])) = style := by
      refine Eq.trans (Style.mapValues_congr ?_) style.mapValues_id
      intro name value sets
      exact (isLocal sets).rewrite_fill _ _
    rw [Style.filled, kept, Pending.drained_of_isEmpty noVariable, ← noRuntime]
  · simp

end Mirrors

/-! ## Bodies in their place -/

/-- The function puts bodies into one place of a style. -/
structure PutsAt (place : Place) (put : Body → Style) : Prop where
  known : place.Known
  areBlockChars : Vocabulary.AreBlockChars place.block
  propertiesAt : ∀ body other,
    (put body).propertiesAt other = if other = place then body.properties else ∅
  pendingAt : ∀ body, ∀ other : Place, other.Known →
    (put body).pending.propertiesAt other = if other = place then body.defaults else ∅
  unconditional : ∀ body, (put body).screens ++ (put body).containers = []
  pending : ∀ body, (put body).pending.Known
  withUsedLocals : ∀ body used,
    { put body with usedLocals := used } = put { body with usedLocals := used }
  filled : ∀ body write declarations, (put body).filled write declarations =
    put { body with
      properties := body.properties.map (rewrite (fill write declarations)), defaults := ∅ }
  append : ∀ left right, put (left ++ right) = put left ++ put right

theorem putsAt_ofBody : PutsAt .base Style.ofBody where
  known := Place.known_base
  areBlockChars := by simp [Place.block, Vocabulary.AreBlockChars]
  propertiesAt := by
    intro body other
    cases other <;> simp [Style.propertiesAt, Style.ofBody, Blocks.propertiesAt]
  pendingAt := by
    intro body other _
    cases other <;> simp [Pending.propertiesAt, Style.ofBody, Blocks.propertiesAt]
  unconditional := fun _ => rfl
  pending := fun _ => ⟨by simp [Style.ofBody], by simp [Style.ofBody], by simp [Style.ofBody]⟩
  withUsedLocals := fun _ _ => rfl
  filled := fun _ _ _ => rfl
  append := Style.ofBody_append

theorem Slot.putsAt_place {head : Text} {slot : Slot} (isSlot : Slot.ofHead? head = some slot) :
    PutsAt slot.toPlace slot.place := by
  have known := Slot.known_toPlace isSlot
  refine ⟨known, ?_, ?_, ?_, ?_, ?_, ?_, ?_, ?_⟩
  · rw [Slot.block_toPlace]
    exact (Slot.wellFormed_of_ofHead? isSlot).areBlockChars
  · intro body other
    cases slot <;> cases other
    case pluginState.pluginState name selector other =>
      by_cases same : other = name <;> simp [Style.propertiesAt, Slot.place, Slot.toPlace, same]
    all_goals simp [Style.propertiesAt, Slot.place, Slot.toPlace, Blocks.propertiesAt_single]
    all_goals rfl
  · intro body other knownOther
    by_cases same : other = slot.toPlace
    · rw [if_pos same, same]
      cases slot <;> simp [Pending.propertiesAt, Slot.place, Slot.toPlace, Blocks.propertiesAt]
    · -- A state and a plugin state share a field, but not their names.
      have differs : other.block ≠ slot.toPlace.block := fun sameBlock =>
        same (knownOther.eq_of_block_eq known sameBlock)
      rw [if_neg same]
      cases slot <;> cases other <;>
        simp_all [Pending.propertiesAt, Slot.place, Slot.toPlace, Blocks.propertiesAt, Place.block]
  · intro body
    cases slot <;> rfl
  · intro body
    cases slot <;> constructor <;> simp_all [Slot.place, Slot.toPlace]
  · intro body used
    cases slot <;> rfl
  · intro body write declarations
    cases slot <;> rfl
  · intro left right
    cases slot <;> apply Style.ext <;>
      simp [Slot.place, Blocks.append, PluginState.append, OrderedMap.isEmpty_merge, Bool.not_and,
        Pending.append]

namespace RuntimeDeclaration

/-- The body that a runtime declaration writes. -/
def body (runtime : RuntimeDeclaration) (properties : List Text) : Body :=
  { Body.ofProperties properties
      (Value.withImportance runtime.declaration.important runtime.reference.render) with
    defaults := .single runtime.declaration.name runtime.default }

/-- The body that its plain counterpart writes. -/
def plainBody (runtime : RuntimeDeclaration) (properties used : List Text) (value : Text) : Body :=
  { Body.ofProperties properties (Value.withImportance runtime.declaration.important value) with
    usedLocals := .ofList used }

theorem last?_singleton (runtime : RuntimeDeclaration) (name block : Text) :
    last? [runtime] name block =
      if runtime.declaration.name = name ∧ runtime.place.block = block then some runtime
      else none := by
  unfold last?
  split <;> simp_all

end RuntimeDeclaration

namespace PutsAt

variable {put : Body → Style} {runtime : RuntimeDeclaration} {properties : List Text}
  {environment : Environment}

theorem usedLocals_put {place : Place} (puts : PutsAt place put) (body : Body) :
    (put body).usedLocals = body.usedLocals :=
  (congrArg Style.usedLocals (puts.withUsedLocals body body.usedLocals)).symm

theorem wellNamed_reference (puts : PutsAt runtime.place put)
    (expands : Abbreviation.expand? runtime.declaration.name = some properties) :
    runtime.reference.WellNamed :=
  ⟨Vocabulary.isName_of_isWord (Abbreviation.isWord_of_expand? expands),
    fun c isChar => (puts.areBlockChars c isChar).1⟩

theorem follows_body (puts : PutsAt runtime.place put)
    (expands : Abbreviation.expand? runtime.declaration.name = some properties) :
    (put (runtime.body properties)).Follows [runtime] where
  values := by
    intro place entry isEntry
    rw [puts.propertiesAt] at isEntry
    split at isEntry
    · next samePlace =>
      rcases Body.mem_entries_ofProperties isEntry with ⟨isProperty, isReference⟩
      rw [samePlace]
      refine Or.inr ⟨puts.known, runtime, List.mem_singleton_self _, rfl, ?_, _, isReference⟩
      rwa [RuntimeDeclaration.properties, expands]
    · simp at isEntry
  conditional := by simp [puts.unconditional]
  declared := by
    intro other isDeclared
    rw [List.mem_singleton.mp isDeclared]
    refine ⟨puts.known, puts.wellNamed_reference expands, ?_⟩
    intro name isName
    rw [RuntimeDeclaration.properties, expands, Option.getD_some] at isName
    rw [puts.propertiesAt, if_pos rfl, RuntimeDeclaration.body, Body.ofProperties,
      OrderedMap.mem_keys_ofList]
    simpa using isName
  defaults := by
    intro place known name
    rw [puts.pendingAt _ place known, RuntimeDeclaration.last?_singleton]
    by_cases samePlace : place = runtime.place
    · by_cases sameName : name = runtime.declaration.name
      · simp [samePlace, sameName, RuntimeDeclaration.body]
      · simp [samePlace, sameName, Ne.symm sameName, RuntimeDeclaration.body]
    · have differs : runtime.place.block ≠ place.block := fun sameBlock =>
        samePlace (puts.known.eq_of_block_eq known sameBlock).symm
      simp [samePlace, differs]
  pending := puts.pending _

/-- What a runtime declaration writes is mirrored by what its plain counterpart writes. -/
theorem mirrors_body (puts : PutsAt runtime.place put)
    (expands : Abbreviation.expand? runtime.declaration.name = some properties) {used : List Text}
    {value : Text} (writes : environment.plainValue? runtime = some (used, value)) :
    Mirrors environment [runtime] (put (runtime.body properties))
      (put (runtime.plainBody properties used value)) where
  follows := puts.follows_body expands
  filled := by
    have isFilled : fill environment.plainValue [runtime] runtime.reference = value := by
      simp [RuntimeDeclaration.reference, fill, RuntimeDeclaration.last?_singleton,
        Environment.plainValue, writes]
    rw [puts.withUsedLocals, puts.filled, puts.usedLocals_put]
    congr 1
    apply Body.ext
    · simp only [RuntimeDeclaration.body, RuntimeDeclaration.plainBody, Body.ofProperties,
        OrderedMap.map_ofList, List.map_map, Function.comp_def,
        Reference.rewrite_withImportance (puts.wellNamed_reference expands), isFilled]
    · rfl
    · rfl
  usedLocals := by
    intro name
    rw [puts.usedLocals_put, puts.usedLocals_put]
    simp [RuntimeDeclaration.body, RuntimeDeclaration.plainBody, Body.ofProperties, Names.ofList,
      Environment.plainLocals, writes]

end PutsAt

end TerseStyle

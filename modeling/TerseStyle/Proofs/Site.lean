import TerseStyle.Proofs.Place
import TerseStyle.Proofs.Section

/-!
# Where declarations are written

A body says one statement after the other: those of the constants that it uses, and then its own.
What its style says of a property somewhere is what the last of them said that mentions the
property there. A `Site` is such a place, a block under a condition included, and every site with
properties has a rule of its own in the style sheet (`Style.Gives.exists_rule`).
-/

namespace TerseStyle

/-- A place of a style, or a block under a condition. -/
inductive Site where
  | inPlace (place : Place)
  | under (kind : Condition) (query : Text)
  deriving DecidableEq

namespace Site

/-- The rule is the one of the site, for the given selector of the owner. -/
def IsHead (selector : Text) (rule : Rule) : Site → Prop
  | .inPlace .base => rule.wrapper = none ∧ rule.selector = selector
  | .inPlace (.state name) => rule.wrapper = none ∧ rule.selector = selector ++ ":" ++ name
  | .inPlace (.pluginState _) =>
    rule.wrapper = none ∧ ∃ mark, rule.selector = selector ++ "." ++ mark
  | .inPlace (.pluginContainer containerClass) =>
    rule.wrapper = none ∧ rule.selector = "." ++ containerClass ++ " " ++ selector
  | .inPlace (.element name) => rule.wrapper = none ∧ rule.selector = selector ++ "::" ++ name
  | .under .screen query =>
    rule.wrapper = some ("@media only screen and " ++ query) ∧ rule.selector = selector
  | .under .container query =>
    rule.wrapper = some ("@container " ++ query) ∧ rule.selector = selector

end Site

namespace Style

/-- The blocks under conditions of one kind. -/
def conditionals (style : Style) : Condition → List Conditional
  | .screen => style.screens
  | .container => style.containers

/-- The style gives a property a value at a site. -/
def Gives (style : Style) (property value : Text) : Site → Prop
  | .inPlace place => (style.propertiesAt place).get? property = some value
  | .under kind query =>
    ∃ block ∈ style.conditionals kind, block.query = query ∧
      block.properties.get? property = some value

/-- What was said before of the property at the site counts no more. Blocks under conditions stand
side by side. -/
def Replaces (style : Style) (property : Text) : Site → Prop
  | .inPlace place => property ∈ (style.propertiesAt place).keys
  | .under _ _ => False

variable {style left right : Style} {property value : Text} {site : Site}

theorem conditionals_append (kind : Condition) :
    (left ++ right).conditionals kind = left.conditionals kind ++ right.conditionals kind := by
  cases kind <;> rfl

theorem Gives.append_right (gives : right.Gives property value site) :
    (left ++ right).Gives property value site := by
  cases site with
  | inPlace place =>
      have found : (right.propertiesAt place).get? property = some value := gives
      simp only [Gives, propertiesAt_append, OrderedMap.merge, OrderedMap.get?_mergeWith, found]
      cases (left.propertiesAt place).get? property <;> rfl
  | under kind query =>
      rcases gives with ⟨block, isBlock, found⟩
      refine ⟨block, ?_, found⟩
      rw [conditionals_append]
      exact List.mem_append_right _ isBlock

theorem Gives.append_left (gives : left.Gives property value site)
    (kept : ¬right.Replaces property site) : (left ++ right).Gives property value site := by
  cases site with
  | inPlace place =>
      have found : (left.propertiesAt place).get? property = some value := gives
      have absent : (right.propertiesAt place).get? property = none :=
        OrderedMap.get?_eq_none_iff.mpr kept
      simp [Gives, propertiesAt_append, OrderedMap.merge, found, absent]
  | under kind query =>
      rcases gives with ⟨block, isBlock, found⟩
      refine ⟨block, ?_, found⟩
      rw [conditionals_append]
      exact List.mem_append_left _ isBlock

theorem replaces_append (replaces : (left ++ right).Replaces property site) :
    left.Replaces property site ∨ right.Replaces property site := by
  cases site with
  | inPlace place =>
      simpa [Replaces, propertiesAt_append, OrderedMap.merge] using replaces
  | under kind query => exact replaces.elim

theorem not_replaces_empty : ¬(∅ : Style).Replaces property site := by
  cases site with
  | inPlace place => cases place <;> simp [Replaces, propertiesAt, Blocks.propertiesAt]
  | under kind query => exact id

theorem gives_shared :
    style.shared.Gives property value site ↔ style.Gives property value site := by
  cases site with
  | inPlace place => cases place <;> exact Iff.rfl
  | under kind query => cases kind <;> exact Iff.rfl

theorem Gives.mapValues (gives : style.Gives property value site) (change : Text → Text) :
    (style.mapValues change).Gives property (change value) site := by
  cases site with
  | inPlace place =>
      have found : (style.propertiesAt place).get? property = some value := gives
      simp [Gives, propertiesAt_mapValues, found]
  | under kind query =>
      rcases gives with ⟨block, isBlock, isQuery, found⟩
      refine ⟨{ block with properties := block.properties.map change }, ?_, isQuery, ?_⟩
      · cases kind <;> exact List.mem_map_of_mem isBlock
      · simp [found]

/-! ## Rules -/

theorem Gives.exists_writtenRule (gives : style.Gives property value site) {own : Properties}
    (isOwn : site = .inPlace .base → own.get? property = some value) (selector : Text) :
    ∃ rule ∈ style.writtenRules selector own, site.IsHead selector rule ∧
      rule.declarations.get? property = some value := by
  have written : ∀ rule ∈ style.placeRules selector own, site.IsHead selector rule →
      rule.declarations.get? property = some value →
      ∃ rule ∈ style.writtenRules selector own, site.IsHead selector rule ∧
        rule.declarations.get? property = some value := by
    intro rule isRule isHead found
    refine ⟨rule, List.mem_filter.mpr ⟨isRule, ?_⟩, isHead, found⟩
    cases isEmpty : rule.declarations.isEmpty with
    | false => rfl
    | true => simp [OrderedMap.isEmpty_iff.mp isEmpty] at found
  have ofBlocks : ∀ {blocks : Blocks} {name : Text},
      (blocks.propertiesAt name).get? property = some value →
      ∃ properties, (name, properties) ∈ blocks.entries ∧
        properties.get? property = some value := by
    intro blocks name found
    cases isBlock : blocks.get? name with
    | none => simp [Blocks.propertiesAt, isBlock] at found
    | some properties =>
        rw [Blocks.propertiesAt, isBlock] at found
        exact ⟨properties, OrderedMap.get?_eq_some_iff.mp isBlock, found⟩
  simp only [placeRules, List.mem_append, List.mem_singleton, List.mem_map, Prod.exists] at written
  cases site with
  | inPlace place =>
      cases place with
      | base =>
          apply written { selector, declarations := own }
          · exact Or.inl (Or.inl (Or.inl (Or.inl (Or.inl (Or.inl rfl)))))
          · exact ⟨rfl, rfl⟩
          · exact isOwn rfl
      | state name =>
          rcases ofBlocks gives with ⟨properties, isBlock, found⟩
          apply written { selector := selector ++ ":" ++ name, declarations := properties }
          · exact Or.inl (Or.inl (Or.inl (Or.inl (Or.inl (Or.inr ⟨name, _, isBlock, rfl⟩)))))
          · exact ⟨rfl, rfl⟩
          · exact found
      | pluginState name =>
          have found : (((style.pluginStates.get? name).map PluginState.properties).getD
              ∅).get? property = some value := gives
          cases isState : style.pluginStates.get? name with
          | none => simp [isState] at found
          | some state =>
              rw [isState] at found
              apply written
                { selector := selector ++ "." ++ state.selector, declarations := state.properties }
              · exact Or.inl (Or.inl (Or.inl (Or.inl (Or.inr
                  ⟨name, state, OrderedMap.get?_eq_some_iff.mp isState, rfl⟩))))
              · exact ⟨rfl, state.selector, rfl⟩
              · exact found
      | pluginContainer containerClass =>
          rcases ofBlocks gives with ⟨properties, isBlock, found⟩
          apply written
            { selector := "." ++ containerClass ++ " " ++ selector, declarations := properties }
          · exact Or.inl (Or.inr ⟨containerClass, _, isBlock, rfl⟩)
          · exact ⟨rfl, rfl⟩
          · exact found
      | element name =>
          rcases ofBlocks gives with ⟨properties, isBlock, found⟩
          apply written { selector := selector ++ "::" ++ name, declarations := properties }
          · exact Or.inr ⟨name, _, isBlock, rfl⟩
          · exact ⟨rfl, rfl⟩
          · exact found
  | under kind query =>
      rcases gives with ⟨block, isBlock, rfl, found⟩
      cases kind with
      | screen =>
          apply written
            { wrapper := some ("@media only screen and " ++ block.query)
              selector, declarations := block.properties }
          · exact Or.inl (Or.inl (Or.inl (Or.inr ⟨block, isBlock, rfl⟩)))
          · exact ⟨rfl, rfl⟩
          · exact found
      | container =>
          apply written
            { wrapper := some ("@container " ++ block.query)
              selector, declarations := block.properties }
          · exact Or.inl (Or.inl (Or.inr ⟨block, isBlock, rfl⟩))
          · exact ⟨rfl, rfl⟩
          · exact found

theorem Gives.exists_rule (gives : style.Gives property value site) {own : Properties}
    (isOwn : site = .inPlace .base → own.get? property = some value) (owner selector : Text) :
    ∃ rule ∈ style.rules owner selector own, site.IsHead selector rule ∧
      rule.declarations.get? property =
        some (Reference.resolveLocal (fun name =>
          Naming.use (Naming.localVariable name owner)) value) := by
  rcases gives.exists_writtenRule isOwn selector with ⟨rule, isRule, isHead, found⟩
  refine ⟨_, List.mem_map_of_mem isRule, ?_, ?_⟩
  · cases site with
    | inPlace place => cases place <;> exact isHead
    | under kind query => cases kind <;> exact isHead
  · simp [resolveLocals, found]

theorem get?_ownProperties (display : Text) (found : style.base.get? property = some value) :
    (style.ownProperties display).get? property = some value := by
  simp only [ownProperties, OrderedMap.merge, OrderedMap.get?_mergeWith, found]
  cases OrderedMap.get? _ property <;> rfl

end Style

/-! ## Naming -/

namespace Attempt

variable {κ σ : Type}

theorem andThen_eq_done {first : Attempt σ} {next : σ → Attempt σ} {final : σ}
    (done : first.andThen next = { state := final }) :
    ∃ state, first = { state } ∧ next state = { state := final } := by
  rcases first with ⟨state, _ | error⟩
  · exact ⟨state, rfl, done⟩
  · simp [andThen] at done

theorem map_eq_done {embed : σ → κ} {attempt : Attempt σ} {final : κ}
    (done : attempt.map embed = { state := final }) :
    attempt.failure = none ∧ embed attempt.state = final := by
  simpa [map, and_comm] using done

theorem mapList_succeeded {change : σ → Attempt σ} {items : List σ}
    (succeeded : (mapList change items).failure = none) :
    ∀ item ∈ items, (change item).failure = none := by
  induction items with
  | nil => simp
  | cons item rest ih =>
      rw [mapList] at succeeded
      split at succeeded
      · simp at succeeded
      · next ended =>
        rw [List.forall_mem_cons]
        exact ⟨ended, ih succeeded⟩

theorem mapValues_succeeded {change : σ → Attempt σ} {source : OrderedMap κ σ}
    (succeeded : (mapValues change source).failure = none) :
    ∀ value ∈ source.values, (change value).failure = none := by
  intro value isValue
  rcases List.mem_map.mp isValue with ⟨entry, isEntry, rfl⟩
  exact mapList_succeeded succeeded entry isEntry

end Attempt

namespace Style

variable {style : Style} {property value : Text} {site : Site}

/-- If the values of a style could be changed, none of them was refused. -/
theorem changed_of_changeValues {change : Text → Except Error Text}
    (succeeded : (style.changeValues change).failure = none) (sets : style.Sets property value) :
    ∃ changed, change value = .ok changed := by
  have ofProperties : ∀ {properties : Properties},
      (properties.changeValues change).failure = none →
      (property, value) ∈ properties.entries → ∃ changed, change value = .ok changed := by
    intro properties ended isEntry
    have ofValue := Attempt.mapValues_succeeded ended value (List.mem_map_of_mem isEntry)
    cases changes : change value with
    | ok changed => exact ⟨changed, rfl⟩
    | error error => simp [changes, Attempt.ofExcept] at ofValue
  have done : style.changeValues change = { state := (style.changeValues change).state } := by
    rw [← succeeded]
  generalize (style.changeValues change).state = changed at done
  simp only [changeValues] at done
  rcases Attempt.andThen_eq_done done with ⟨_, done, elements⟩
  rcases Attempt.andThen_eq_done done with ⟨_, done, pluginContainers⟩
  rcases Attempt.andThen_eq_done done with ⟨_, done, containers⟩
  rcases Attempt.andThen_eq_done done with ⟨_, done, screens⟩
  rcases Attempt.andThen_eq_done done with ⟨_, done, pluginStates⟩
  rcases Attempt.andThen_eq_done done with ⟨_, done, states⟩
  rcases Attempt.map_eq_done done with ⟨toBase, rfl⟩
  rcases Attempt.map_eq_done states with ⟨toStates, rfl⟩
  rcases Attempt.map_eq_done pluginStates with ⟨toPluginStates, rfl⟩
  rcases Attempt.map_eq_done screens with ⟨toScreens, rfl⟩
  rcases Attempt.map_eq_done containers with ⟨toContainers, rfl⟩
  rcases Attempt.map_eq_done pluginContainers with ⟨toPluginContainers, rfl⟩
  rcases Attempt.map_eq_done elements with ⟨toElements, _⟩
  cases sets with
  | base isEntry => exact ofProperties toBase isEntry
  | state isBlock isEntry =>
      exact ofProperties (Attempt.mapValues_succeeded toStates _ isBlock) isEntry
  | pluginState isState isEntry =>
      exact ofProperties (Attempt.mapValues_succeeded toPluginStates _ isState) isEntry
  | screen isBlock isEntry =>
      exact ofProperties (Attempt.mapList_succeeded toScreens _ isBlock) isEntry
  | container isBlock isEntry =>
      exact ofProperties (Attempt.mapList_succeeded toContainers _ isBlock) isEntry
  | pluginContainer isBlock isEntry =>
      exact ofProperties (Attempt.mapValues_succeeded toPluginContainers _ isBlock) isEntry
  | element isBlock isEntry =>
      exact ofProperties (Attempt.mapValues_succeeded toElements _ isBlock) isEntry

theorem Gives.sets (gives : style.Gives property value site) : style.Sets property value := by
  cases site with
  | inPlace place =>
      have isEntry := OrderedMap.get?_eq_some_iff.mp gives
      exact sets_of_mem_propertiesAt isEntry
  | under kind query =>
      rcases gives with ⟨block, isBlock, _, found⟩
      have isEntry := OrderedMap.get?_eq_some_iff.mp found
      cases kind with
      | screen => exact .screen isBlock isEntry
      | container => exact .container isBlock isEntry

theorem Gives.changeValues {changed : Style} (gives : style.Gives property value site)
    {change : Text → Except Error Text}
    (changes : style.changeValues change = { state := changed }) :
    ∃ final, changed.Gives property final site ∧ change value = .ok final := by
  have succeeds : ∀ {name value}, style.Sets name value →
      change value = .ok ((change value).toOption.getD value) := by
    intro name value sets
    rcases changed_of_changeValues (by rw [changes]) sets with ⟨final, isFinal⟩
    rw [isFinal]
    rfl
  rw [changeValues_eq succeeds, Attempt.mk.injEq] at changes
  rw [← changes.1]
  exact ⟨_, gives.mapValues _, succeeds gives.sets⟩

/-- Naming the runtime variables of a style keeps its sites, and resolves the references in their
values. -/
theorem Gives.nameVariables {named : Style} {display scope : Text}
    (gives : style.Gives property value site)
    (names : style.nameVariables display scope = { state := named }) :
    ∃ final, named.Gives property final site ∧ (final = value ∨
      Reference.resolveRuntime (useRuntime style.pending display) value = .ok final) := by
  have declared : ∀ rootVariables pending,
      { style with rootVariables, pending : Style }.Gives property value site := by
    intro rootVariables pending
    cases site with
    | inPlace place => cases place <;> exact gives
    | under kind query => cases kind <;> exact gives
  simp only [Style.nameVariables] at names
  split at names
  · simp at names
  · split at names
    · rw [Attempt.mk.injEq] at names
      rw [← names.1]
      exact ⟨value, declared _ _, Or.inl rfl⟩
    · rcases (declared _ _).changeValues names with ⟨final, isGiven, resolves⟩
      exact ⟨final, isGiven, Or.inr resolves⟩

end Style

/-! ## Statements -/

/-- What a statement contributed that was read to its end, variables left out. -/
def Environment.Contributed (said : Environment × Text) (contribution : Style) : Prop :=
  ∃ isDeclared, (said.1.contribution isDeclared said.2).result = .ok () ∧
    contribution = (said.1.contribution isDeclared said.2).written.shared

namespace Style

/-- The contributions one after the other. -/
def sum (contributions : List Style) : Style :=
  contributions.foldr (· ++ ·) ∅

theorem sum_append (first second : List Style) :
    sum (first ++ second) = sum first ++ sum second := by
  induction first with
  | nil => simp [sum]
  | cons contribution rest ih =>
      have isSum : ∀ contributions, sum (contribution :: contributions) =
          contribution ++ sum contributions := fun _ => rfl
      rw [List.cons_append, isSum, isSum, ih, append_assoc]

/-- The style is what some statements said, up to variables. -/
def Gathers (style : Style) (said : List (Environment × Text)) : Prop :=
  ∃ contributions, List.Forall₂ Environment.Contributed said contributions ∧
    style.shared = sum contributions

theorem gathers_empty : (∅ : Style).Gathers [] :=
  ⟨[], .nil, rfl⟩

theorem Gathers.append {left right : Style} {first second : List (Environment × Text)}
    (ofLeft : left.Gathers first) (ofRight : right.Gathers second) :
    (left ++ right).Gathers (first ++ second) := by
  rcases ofLeft with ⟨firstContributions, areFirst, isLeft⟩
  rcases ofRight with ⟨secondContributions, areSecond, isRight⟩
  refine ⟨firstContributions ++ secondContributions, List.rel_append areFirst areSecond, ?_⟩
  rw [shared_append, sum_append, isLeft, isRight]

variable {style : Style} {said : List (Environment × Text)}

theorem Gathers.shared (gathers : style.Gathers said) : style.shared.Gathers said := by
  rcases gathers with ⟨contributions, areContributed, isSum⟩
  exact ⟨contributions, areContributed, by rw [shared_shared, isSum]⟩

theorem exists_gathers_of_dispatchAll {environment : Environment} {found : List Text}
    {final : Style} (dispatches : style.dispatchAll environment found = { state := final }) :
    ∃ added : Style, final = style ++ added ∧
      added.Gathers (found.map fun statement => (environment, statement)) := by
  induction found generalizing style with
  | nil =>
      rw [dispatchAll, Attempt.forEach, Attempt.mk.injEq] at dispatches
      exact ⟨∅, by rw [append_empty, dispatches.1], gathers_empty⟩
  | cons statement rest ih =>
      have ended := result_of_dispatchAll_cons (by rw [dispatches])
      rw [dispatchAll_cons ended] at dispatches
      rcases ih dispatches with ⟨added, isFinal, gathers⟩
      have first : Gathers
          (environment.contribution style.localVariables.contains statement).written
          [(environment, statement)] :=
        ⟨[_], .cons ⟨_, ended, rfl⟩ .nil, by simp [sum]⟩
      rw [append_assoc] at isFinal
      exact ⟨_, isFinal, first.append gathers⟩

theorem Gathers.exists_contributed (gathers : style.Gathers said) {entry : Environment × Text}
    (isSaid : entry ∈ said) : ∃ contribution, Environment.Contributed entry contribution := by
  rcases gathers with ⟨contributions, areContributed, isSum⟩
  clear isSum
  induction areContributed with
  | nil => simp at isSaid
  | cons isContributed _ ih =>
      rcases List.mem_cons.mp isSaid with rfl | isLater
      · exact ⟨_, isContributed⟩
      · exact ih isLater

theorem not_replaces_sum {contributions : List Style}
    (areContributed : List.Forall₂ Environment.Contributed said contributions) {property : Text}
    {site : Site}
    (kept : ∀ later ∈ said, ∀ contribution,
      Environment.Contributed later contribution → ¬contribution.Replaces property site) :
    ¬(sum contributions).Replaces property site := by
  induction areContributed with
  | nil => exact not_replaces_empty
  | cons isContributed _ ih =>
      rw [List.forall_mem_cons] at kept
      intro replaces
      exact (replaces_append replaces).elim (kept.1 _ isContributed) (ih kept.2)

/-- What a statement gives at a site stays until a later statement replaces it. -/
theorem Gathers.exists_gives {before after : List (Environment × Text)}
    {said : Environment × Text} (gathers : style.Gathers (before ++ said :: after))
    {property : Text} {site : Site} {Good : Text → Prop}
    (given : ∀ contribution, Environment.Contributed said contribution →
      ∃ value, contribution.Gives property value site ∧ Good value)
    (kept : ∀ later ∈ after, ∀ contribution, Environment.Contributed later contribution →
      ¬contribution.Replaces property site) :
    ∃ value, style.Gives property value site ∧ Good value := by
  rcases gathers with ⟨contributions, areContributed, isSum⟩
  have inSum : ∃ value, (sum contributions).Gives property value site ∧ Good value := by
    clear isSum
    induction before generalizing contributions with
    | nil =>
        rcases List.forall₂_cons_left_iff.mp areContributed with
          ⟨contribution, rest, isContributed, areLater, rfl⟩
        rcases given contribution isContributed with ⟨value, gives, good⟩
        exact ⟨value, gives.append_left (not_replaces_sum areLater kept), good⟩
    | cons earlier before ih =>
        rcases List.forall₂_cons_left_iff.mp areContributed with
          ⟨contribution, rest, _, areLater, rfl⟩
        rcases ih rest areLater with ⟨value, gives, good⟩
        exact ⟨value, gives.append_right, good⟩
  rw [← isSum] at inSum
  rcases inSum with ⟨value, gives, good⟩
  exact ⟨value, gives_shared.mp gives, good⟩

end Style

/-- The statements of a constant. -/
def Source.constantStatements (source : Source) (name : Text) : List Text :=
  ((OrderedMap.ofList (source.constants.map fun block => (block.name, block.statements))).get?
    name).getD []

/-- What a body says in the order in which it counts: the statements of the constants that it uses,
and then its own. -/
def Source.said (source : Source) (environment : Environment) (lines found : List Text) :
    List (Environment × Text) :=
  ((Query.usedConstants lines).flatMap fun name =>
    (source.constantStatements name).map fun statement =>
      ({ environment with context := .constant }, statement)) ++
    found.map fun statement => (environment, statement)

namespace Source

variable {source : Source} {environment : Environment} {constants : Constants}

theorem gathers_of_compileConstants
    (compiles : compileConstants environment source.constants = .ok constants) {name : Text}
    {fragment : Style} (isConstant : constants.get? name = some fragment) :
    fragment.Gathers ((source.constantStatements name).map fun statement =>
      ({ environment with context := .constant }, statement)) := by
  rw [compileConstants] at compiles
  simp only [bind_eq_ok, pure, Except.pure, Except.ok.injEq] at compiles
  rcases compiles with ⟨compiled, compilesAll, rfl⟩
  -- Every constant is the state after its statements, so the names decide alike on both sides.
  let read := fun found : List Text =>
    (∅ : Style).dispatchAll { environment with context := .constant } found
  have sameEntries : source.constants.map (fun block =>
      (block.name, (read block.statements).state)) = compiled := by
    rw [← List.forall₂_eq_eq_eq, List.forall₂_map_left_iff]
    apply (forall₂_of_mapM_eq_ok compilesAll).imp
    intro block entry compilesBlock
    simp only [bind_eq_ok, Attempt.toExcept_eq_ok, Except.ok.injEq] at compilesBlock
    rcases compilesBlock with ⟨style, succeeds, rfl⟩
    simp only [read, succeeds]
  have isRead : OrderedMap.ofList compiled =
      (OrderedMap.ofList (source.constants.map fun block => (block.name, block.statements))).map
        fun found => (read found).state := by
    rw [OrderedMap.map_ofList, List.map_map, ← sameEntries]
    rfl
  rw [isRead, OrderedMap.get?_map] at isConstant
  rcases Option.map_eq_some_iff.mp isConstant with ⟨found, isFound, rfl⟩
  rw [constantStatements, isFound, Option.getD_some]
  have isEntry := OrderedMap.mem_entries_ofList (OrderedMap.get?_eq_some_iff.mp isFound)
  rcases List.mem_map.mp isEntry with ⟨block, isBlock, same⟩
  rcases exists_mem_of_mapM compilesAll isBlock with ⟨entry, _, compilesBlock⟩
  simp only [bind_eq_ok, Attempt.toExcept_eq_ok, Except.ok.injEq] at compilesBlock
  rcases compilesBlock with ⟨style, succeeds, _⟩
  simp only [Prod.mk.injEq] at same
  rw [same.2] at succeeds
  rcases Style.exists_gathers_of_dispatchAll succeeds with ⟨added, isStyle, gathers⟩
  rw [Style.empty_append] at isStyle
  simp only [read, succeeds, isStyle]
  exact gathers

theorem gathers_of_useConstants
    (compiles : compileConstants environment source.constants = .ok constants) {nested : Bool}
    {names : List Text} {style final : Style}
    (uses : style.useConstants constants nested names = { state := final }) :
    ∃ added : Style, final = style ++ added ∧ added.Gathers (names.flatMap fun name =>
      (source.constantStatements name).map fun statement =>
        ({ environment with context := .constant }, statement)) := by
  induction names generalizing style with
  | nil =>
      rw [Style.useConstants, Attempt.forEach, Attempt.mk.injEq] at uses
      exact ⟨∅, by rw [Style.append_empty, uses.1], Style.gathers_empty⟩
  | cons name rest ih =>
      rw [Style.useConstants, Attempt.forEach, Style.useConstant] at uses
      cases isConstant : constants.get? name with
      | none => simp [isConstant, Attempt.andThen] at uses
      | some fragment =>
          simp only [isConstant, Attempt.andThen] at uses
          rcases ih uses with ⟨added, isFinal, gathers⟩
          rw [Style.merge, Style.append_assoc] at isFinal
          have ofFragment := gathers_of_compileConstants compiles isConstant
          exact ⟨_, isFinal, ofFragment.shared.append gathers⟩

theorem gathers_of_dispatchLines
    (compiles : compileConstants environment source.constants = .ok constants) {context : Context}
    {nested : Bool} {lines : List Text} {style : Style}
    (dispatches : (∅ : Style).dispatchLines { environment with context } constants nested lines =
      { state := style }) :
    ∃ found, statements (Text.joinWith ['\n'] (Query.statementLines lines)) = .ok found ∧
      style.Gathers (source.said { environment with context } lines found) := by
  rw [Style.dispatchLines] at dispatches
  rcases Attempt.andThen_eq_done dispatches with ⟨_, uses, dispatches⟩
  rw [Style.dispatchBody] at dispatches
  split at dispatches
  · simp at dispatches
  · next found splits =>
    rcases Style.exists_gathers_of_dispatchAll dispatches with ⟨own, isStyle, ofOwn⟩
    rcases gathers_of_useConstants compiles uses with ⟨added, isUsed, ofConstants⟩
    rw [isUsed, Style.empty_append] at isStyle
    refine ⟨found, splits, ?_⟩
    rw [isStyle]
    exact ofConstants.append ofOwn

end Source

end TerseStyle

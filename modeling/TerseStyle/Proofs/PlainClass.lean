import TerseStyle.Proofs.Hoisting
import TerseStyle.Proofs.PlainBody
import TerseStyle.Proofs.VariableName

/-!
# Classes without the sigils of runtime variables

A class that is made of statements has a plain twin, in which every runtime declaration is plain.
The rules of the class use its runtime variables where those of the twin have values of their own,
and otherwise they are the same. So the class behaves like its twin exactly if the twin is accepted
and what it writes in these places reads like the defaults (`Source.behavesPlain_iff`).
-/

namespace TerseStyle

open Reference (Unmarked Within rewrite)
open RuntimeDeclaration (last? fill)

/-! ## Rules with references written in different ways -/

namespace Style

/-- The rules of a class with every reference written in the given way. -/
def rulesWith (write : Reference → Text) (display : Text) (style : Style) : List Rule :=
  (style.writtenRules ("." ++ display) (style.ownProperties display)).map
    (Rule.mapValues (rewrite write))

variable {style : Style} {display : Text}

/-- The rules of a class: its root variables come first, and every reference has its final form. -/
def sheetRules (display : Text) (style : Style) : List Rule :=
  style.pendingRules display ++ style.rulesWith (Reference.final display) display

theorem rulesWith_eq_iff {first second : Reference → Text} :
    style.rulesWith first display = style.rulesWith second display ↔
      ∀ rule ∈ style.writtenRules ("." ++ display) (style.ownProperties display),
        ∀ value ∈ rule.declarations.values, rewrite first value = rewrite second value := by
  have sameRule : ∀ rule : Rule,
      rule.mapValues (rewrite first) = rule.mapValues (rewrite second) ↔
        ∀ value ∈ rule.declarations.values, rewrite first value = rewrite second value := by
    intro rule
    refine ⟨?_, fun same => by rw [Rule.mapValues, Rule.mapValues, OrderedMap.map_congr same]⟩
    intro same value isValue
    rcases List.mem_map.mp isValue with ⟨entry, isEntry, rfl⟩
    have sameEntries := congrArg (fun rule : Rule => rule.declarations.entries) same
    simp only [Rule.mapValues, OrderedMap.entries_map, List.map_inj_left] at sameEntries
    exact (Prod.mk.inj (sameEntries entry isEntry)).2
  simp only [rulesWith, List.map_inj_left, sameRule]

theorem Sound.rulesWith_congr (sound : style.Sound) {first second : Reference → Text}
    (same : ∀ reference, style.Covers reference → reference.WellNamed →
      first reference = second reference) :
    style.rulesWith first display = style.rulesWith second display := by
  rw [rulesWith_eq_iff]
  intro rule isRule value isValue
  exact (sound.within_of_mem_writtenRules isRule isValue).rewrite_congr same

/-- The rules of a class whose references are filled in by what some declarations write. -/
def filledRules (write : RuntimeDeclaration → Text) (declarations : List RuntimeDeclaration)
    (display : Text) (style : Style) : List Rule :=
  style.rulesWith (fun reference =>
    rewrite (Reference.final display) (fill write declarations reference)) display

end Style

namespace Pending

theorem declarations_drained (pending : Pending) (display : Text) :
    pending.drained.declarations display = ∅ := by
  rw [declarations, isEmpty_iff_defaults.mp pending.isEmpty_drained]
  rfl

end Pending

/-! ## Defaults -/

variable {style plain : Style} {declarations : List RuntimeDeclaration} {environment : Environment}

/-- The default that is declared for a variable of the class is that of its last declaration. -/
theorem Style.Follows.get?_declarations (follows : style.Follows declarations)
    (sound : style.Sound) {scope : Text} (hasScope : scope ≠ Naming.noScope) (owner : Text)
    {name block : Text} (declared : style.pending.declares name block = true) :
    (style.pending.declarations (Naming.final scope owner)).get?
        (Naming.runtime name (Naming.final scope owner) block) =
      (last? declarations name block).map RuntimeDeclaration.default := by
  have isName : Vocabulary.isWord name = true := by
    rcases List.any_eq_true.mp declared with ⟨⟨_, _, default⟩, isDefault, same⟩
    simp only [Bool.and_eq_true, beq_iff_eq] at same
    exact same.2 ▸ (sound.defaults isDefault).2.1
  have isKey := Pending.mem_keys_declarations declared (Naming.final scope owner)
  rcases Option.isSome_iff_exists.mp (OrderedMap.get?_isSome_iff.mpr isKey) with ⟨default, found⟩
  rw [found]
  have isEntry := OrderedMap.mem_entries_ofList (OrderedMap.get?_eq_some_iff.mp found)
  rcases List.mem_map.mp isEntry with ⟨⟨otherBlock, otherName, _⟩, isDefault, same⟩
  rw [Prod.mk.injEq, Naming.runtime_eq_iff hasScope (sound.defaults isDefault).2.1 isName] at same
  rcases same with ⟨⟨rfl, rfl⟩, rfl⟩
  rcases follows.pending.exists_place_of_mem_defaults isDefault with ⟨place, known, rfl, atPlace⟩
  rw [← atPlace]
  exact follows.defaults place known _

/-! ## Styles that mirror each other -/

namespace Reference

/-- How a reference is written if the default that some root variables declare for a runtime
variable stands in the place of its use. -/
def withDefault (root : Properties) (display : Text) : Reference → Text
  | .runtime name block =>
    (root.get? (Naming.runtime name display block)).getD
      (Naming.use (Naming.runtime name display block))
  | reference => reference.final display

end Reference

namespace Style

variable {style : Style} {declarations : List RuntimeDeclaration}

theorem Follows.rulesWith_withDefault (follows : style.Follows declarations) (sound : style.Sound)
    {scope : Text} (hasScope : scope ≠ Naming.noScope) (owner : Text) :
    let display := Naming.final scope owner
    style.rulesWith (Reference.withDefault (style.pending.declarations display) display) display =
      style.filledRules RuntimeDeclaration.default declarations display := by
  intro display
  apply sound.rulesWith_congr
  intro reference covers wellNamed
  cases reference with
  | runtime name block =>
      rcases follows.exists_last?_of_declares covers with ⟨last, isLast⟩
      have isDefault := follows.get?_declarations sound hasScope owner covers
      rw [isLast, Option.map_some] at isDefault
      have unmarked : Unmarked last.default := by
        have isEntry := OrderedMap.get?_eq_some_iff.mp isDefault
        rcases List.mem_map.mp (OrderedMap.mem_entries_ofList isEntry) with
          ⟨⟨_, _, _⟩, isDeclared, same⟩
        exact (Prod.mk.inj same).2 ▸ (sound.defaults isDeclared).2.2
      simp only [Reference.withDefault, display, isDefault, fill, isLast, Option.getD_some,
        Option.map_some]
      exact (Reference.rewrite_of_unmarked unmarked).symm
  | localVariable name =>
      have isFinal : rewrite (Reference.final display) (Reference.localVariable name).render =
          Reference.final display (.localVariable name) := Reference.rewrite_render wellNamed
      exact isFinal.symm
  | scope name => exact covers.elim

end Style

theorem Mirrors.rulesWith_final (mirrors : Mirrors environment declarations style plain)
    (sound : style.Sound) (display : Text) :
    plain.rulesWith (Reference.final display) display =
      style.filledRules environment.plainValue declarations display := by
  have isOwn : (style.filled environment.plainValue declarations).ownProperties display =
      (style.ownProperties display).map (rewrite (fill environment.plainValue declarations)) :=
    sound.ownProperties_mapValues (fill environment.plainValue declarations) (fun _ => rfl) display
  have areWritten : plain.writtenRules ("." ++ display) (plain.ownProperties display) =
      (style.writtenRules ("." ++ display) (style.ownProperties display)).map
        (Rule.mapValues (rewrite (fill environment.plainValue declarations))) := by
    have areSame := congrArg (fun other : Style =>
      other.writtenRules ("." ++ display) (other.ownProperties display)) mirrors.filled
    simp only [isOwn] at areSame
    rw [← Style.writtenRules_mapValues]
    exact areSame
  rw [Style.rulesWith, areWritten, List.map_map, Style.filledRules, Style.rulesWith]
  apply List.map_congr_left
  intro rule isRule
  simp only [Function.comp_apply, Rule.mapValues, OrderedMap.map_map]
  congr 1
  apply OrderedMap.map_congr
  intro value isValue
  have writes : ∀ reference, style.Covers reference → reference.WellNamed →
      Within Reference.IsLocal (fill environment.plainValue declarations reference) := by
    intro reference covers wellNamed
    cases reference with
    | runtime name block =>
        rcases mirrors.follows.exists_last?_of_declares covers with ⟨last, isLast⟩
        rw [fill, isLast]
        exact environment.within_plainValue last
    | localVariable name => exact .of_render wellNamed trivial
    | scope name => exact covers.elim
  exact (sound.within_of_mem_writtenRules isRule isValue).rewrite_rewrite writes

theorem Mirrors.sheetRules (mirrors : Mirrors environment declarations style plain)
    (sound : style.Sound) (display : Text) :
    plain.sheetRules display =
      style.filledRules environment.plainValue declarations display := by
  have isDrained : plain.pending = style.pending.drained := congrArg Style.pending mirrors.filled
  have noVariables : plain.pendingRules display = [] := by
    rw [Style.pendingRules, isDrained, Pending.declarations_drained]
    rfl
  rw [Style.sheetRules, noVariables, List.nil_append, mirrors.rulesWith_final sound]

/-! ## Values that are used -/

namespace Style

variable {style : Style} {declarations : List RuntimeDeclaration} {name value : Text}

/-- A value that a class writes refers to local variables only, or is a use of a runtime variable.
-/
theorem Follows.value_cases (follows : style.Follows declarations) (sound : style.Sound)
    {display selector : Text} {rule : Rule}
    (isRule : rule ∈ style.writtenRules selector (style.ownProperties display))
    (isValue : value ∈ rule.declarations.values) :
    Within Reference.IsLocal value ∨ ∃ runtime ∈ declarations, ∃ important,
      value = Value.withImportance important runtime.reference.render := by
  have ofSets : ∀ {name value : Text}, style.Sets name value →
      Within Reference.IsLocal value ∨ ∃ runtime ∈ declarations, ∃ important,
        value = Value.withImportance important runtime.reference.render := by
    intro name value sets
    rcases sets.place_or_conditional with ⟨place, isEntry⟩ | ⟨block, isBlock, inBlock⟩
    · rcases follows.values place _ isEntry with isLocal | ⟨_, runtime, isDeclared, _, _, isUse⟩
      · exact Or.inl isLocal
      · exact Or.inr ⟨runtime, isDeclared, isUse⟩
    · exact Or.inl (follows.conditional block isBlock value inBlock)
  rcases List.mem_map.mp isValue with ⟨⟨name, value⟩, isEntry, rfl⟩
  rcases (mem_writtenRules isRule).1 isEntry with isOwn | sets
  · rcases OrderedMap.mem_entries_merge isOwn with isLocal | isBase
    · rcases List.mem_map.mp (OrderedMap.mem_entries_ofList isLocal) with ⟨⟨_, _⟩, isDeclared, same⟩
      rcases Prod.mk.inj same with ⟨_, rfl⟩
      left
      apply (sound.locals _ isDeclared).2.mono
      intro reference isLocal
      obtain ⟨name, _, rfl⟩ := isLocal.exists_eq
      trivial
    · exact ofSets (.base isBase)
  · exact ofSets sets

/-- A rule of the class uses the variable. -/
def Uses (display : Text) (style : Style) (reference : Reference) : Prop :=
  ∃ rule ∈ style.writtenRules ("." ++ display) (style.ownProperties display), ∃ important,
    Value.withImportance important reference.render ∈ rule.declarations.values

end Style

/-- Every variable that the class uses has a last declaration whose plain counterpart writes the
default. -/
def Environment.WritesDefaults (environment : Environment)
    (declarations : List RuntimeDeclaration) (display : Text) (style : Style) : Prop :=
  ∀ name block last, last? declarations name block = some last →
    style.Uses display (.runtime name block) →
    rewrite (Reference.final display) (environment.plainValue last) = last.default

theorem Style.Follows.filledRules_eq_iff (follows : style.Follows declarations)
    (sound : style.Sound) (allowed : ∀ runtime ∈ declarations, runtime.Allowed) (display : Text) :
    style.filledRules environment.plainValue declarations display =
        style.filledRules RuntimeDeclaration.default declarations display ↔
      environment.WritesDefaults declarations display style := by
  have ofDefault : ∀ {name block last}, last? declarations name block = some last →
      rewrite (Reference.final display) last.default = last.default := by
    intro name block last isLast
    apply Reference.rewrite_of_unmarked
    exact Value.madeOf_wrapVariables (by decide)
      (allowed last (RuntimeDeclaration.of_last? isLast).1).unmarked
  rw [filledRules, filledRules, rulesWith_eq_iff]
  constructor
  · rintro same name block last isLast ⟨rule, isRule, important, isValue⟩
    rcases RuntimeDeclaration.of_last? isLast with ⟨isDeclared, rfl, rfl⟩
    have wellNamed : (Reference.runtime last.declaration.name last.place.block).WellNamed :=
      (follows.declared last isDeclared).2.1
    have sameValue := same rule isRule _ isValue
    rw [Reference.rewrite_withImportance wellNamed, Reference.rewrite_withImportance wellNamed,
      Value.withImportance_inj] at sameValue
    simpa only [fill, isLast, Option.map_some, Option.getD_some, ofDefault isLast] using sameValue
  · intro writes rule isRule value isValue
    rcases follows.value_cases sound isRule isValue with
      isLocal | ⟨runtime, isDeclared, important, rfl⟩
    · apply isLocal.rewrite_congr
      intro reference isLocal _
      cases reference with
      | localVariable name => rfl
      | runtime name block => exact isLocal.elim
      | scope name => exact isLocal.elim
    · have wellNamed := (follows.declared runtime isDeclared).2.1
      rcases RuntimeDeclaration.exists_last?_of_mem isDeclared with ⟨last, isLast⟩
      have isDefault := writes _ _ last isLast ⟨rule, isRule, important, isValue⟩
      rw [Reference.rewrite_withImportance wellNamed, Reference.rewrite_withImportance wellNamed]
      simp only [RuntimeDeclaration.reference, fill, isLast, Option.map_some, Option.getD_some,
        ofDefault isLast, isDefault]

/-! ## Classes made of statements -/

namespace Style

/-- The style that some statements lead to. -/
def ofStatements (environment : Environment) (found : List Text) : Style :=
  ((∅ : Style).dispatchAll environment found).state

theorem sound_ofStatements {environment : Environment} (soundTheme : environment.theme.Sound)
    (found : List Text) : (ofStatements environment found).Sound := by
  apply dispatchAll_induction Sound
  · intro style contribution statement _ sound contributes
    exact sound.append (contributes.sound soundTheme)
  · exact sound_empty

end Style

namespace Source

/-- The body of the class holds statements and nothing else, and they are the given ones. -/
structure HasStatements (block : ClassBlock) (found : List Text) : Prop where
  noQuery : Query.splitAtQuery? block.body = none
  noUse : ∀ line ∈ Query.ownLines block.body, Query.usedConstants? line = none
  areFound : statements (Text.joinWith [.char '\n'] (Query.ownLines block.body)) = .ok found

variable {environment : Environment} {scope : Text} {constants : Constants}
  {names : OrderedMap Text Text} {block plain : ClassBlock} {found : List Text}

theorem readClass_of_hasStatements (written : HasStatements block found) :
    readClass environment scope constants block = do
      let style ← ((∅ : Style).dispatchAll environment found).toExcept
      checkLocals scope block.name style []
      return (style, []) := by
  have noneUsed : Query.usedConstants (Query.ownLines block.body) = [] := by
    rw [Query.usedConstants, List.filterMap_eq_nil_iff.mpr written.noUse]
    rfl
  have allStatements :
      Query.statementLines (Query.ownLines block.body) = Query.ownLines block.body := by
    rw [Query.statementLines, List.filter_eq_self]
    intro line isLine
    rw [written.noUse line isLine]
    rfl
  have isDispatched : (∅ : Style).dispatchLines environment constants false
      (Query.ownLines block.body) = (∅ : Style).dispatchAll environment found := by
    rw [Style.dispatchLines, noneUsed, allStatements]
    change Style.dispatchBody environment _ ∅ = _
    rw [Style.dispatchBody, written.areFound]
  rw [readClass_eq, QueryTree.parse_of_noQuery written.noQuery]
  change compileRead environment scope constants block.name _ = _
  rw [compileRead, isDispatched]
  rfl

theorem checkLocals_nil_eq_ok_iff (scope name : Text) {style : Style} :
    checkLocals scope name style [] = .ok () ↔
      ∀ used ∈ style.usedLocals.keys, used ∈ style.localVariables.keys := by
  simp [checkLocals_eq_ok_iff, mem_keys_usedLocals, QueryTree.preorder_nil]

/-- The statements are accepted as those of a class: every local variable that they mention is
declared. -/
def AreAccepted (environment : Environment) (found : List Text) : Prop :=
  ((∅ : Style).dispatchAll environment found).failure = none ∧
    ∀ used ∈ (Style.ofStatements environment found).usedLocals.keys,
      used ∈ (Style.ofStatements environment found).localVariables.keys

theorem readClass_eq_ok_iff (written : HasStatements block found)
    {read : Style × List QueryTree} :
    readClass environment scope constants block = .ok read ↔
      AreAccepted environment found ∧ read = (Style.ofStatements environment found, []) := by
  rw [readClass_of_hasStatements written, Attempt.toExcept, AreAccepted]
  cases ended : ((∅ : Style).dispatchAll environment found).failure with
  | some error => simp [bind, Except.bind]
  | none =>
      change (checkLocals scope block.name (Style.ofStatements environment found) [] >>= fun _ =>
        Except.ok (Style.ofStatements environment found, [])) = _ ↔ _
      rw [bind_eq_ok, ← checkLocals_nil_eq_ok_iff scope block.name]
      constructor
      · rintro ⟨_, passes, same⟩
        exact ⟨⟨rfl, passes⟩, (Except.ok.inj same).symm⟩
      · rintro ⟨⟨_, passes⟩, rfl⟩
        exact ⟨(), passes, rfl⟩

theorem rulesOfClass_eq_ok_iff (soundTheme : environment.theme.Sound)
    (hasScope : scope ≠ Naming.noScope) (unmarked : Unmarked (Naming.final scope block.name))
    (written : HasStatements block found) {rules : List Rule} :
    rulesOfClass environment scope constants names block = .ok rules ↔
      AreAccepted environment found ∧
        rules = (Style.ofStatements environment found).sheetRules
          (Naming.final scope block.name) := by
  have sound := Style.sound_ofStatements soundTheme found
  generalize isStyle : Style.ofStatements environment found = style at sound ⊢
  generalize isDisplay : Naming.final scope block.name = display at unmarked ⊢
  have isNamed := Style.nameVariables_of_sound sound display scope
  rw [if_neg fun noScope => hasScope noScope.1] at isNamed
  have areRules : classRules names display (style.named display) [] =
      .ok (style.sheetRules display) := by
    rw [classRules, QueryTree.under, List.map_nil, QueryTree.rules,
      Style.rules_named sound unmarked]
    simp only [Except.map, List.append_nil]
    rfl
  have isCompiled : rulesOfClass environment scope constants names block =
      readClass environment scope constants block >>= fun read =>
        (read.1.nameVariables display scope).toExcept >>= fun style =>
          classRules names display style read.2 := by
    rw [rulesOfClass, compileClass]
    simp only [bind_assoc, pure_bind, isDisplay]
  rw [isCompiled, bind_eq_ok]
  constructor
  · rintro ⟨read, reads, writes⟩
    rcases (readClass_eq_ok_iff written).mp reads with ⟨accepted, rfl⟩
    refine ⟨accepted, ?_⟩
    rw [isStyle, isNamed] at writes
    change classRules names display (style.named display) [] = .ok rules at writes
    rw [areRules, Except.ok.injEq] at writes
    exact writes.symm
  · rintro ⟨accepted, rfl⟩
    refine ⟨_, (readClass_eq_ok_iff written).mpr ⟨accepted, rfl⟩, ?_⟩
    rw [isStyle, isNamed]
    exact areRules

/-! ## Plain twins -/

/-- The second class is the first with every runtime declaration made plain. -/
structure IsPlainTwin (block plain : ClassBlock) (found : List Text) : Prop where
  sameName : plain.name = block.name
  written : HasStatements block found
  plainWritten : HasStatements plain (found.map withoutSigils)

/-- The class behaves like the plain one: with the defaults of its root variables in the place of
their uses, and without the rule that declares them, its style sheet is that of the plain class. -/
def BehavesPlain (environment : Environment) (scope : Text) (constants : Constants)
    (names : OrderedMap Text Text) (block plain : ClassBlock) : Prop :=
  let display := Naming.final scope block.name
  ∃ style plainRules, readClass environment scope constants block = .ok (style, []) ∧
    rulesOfClass environment scope constants names block = .ok (style.sheetRules display) ∧
    rulesOfClass environment scope constants names plain = .ok plainRules ∧
    renderRules plainRules = renderRules (style.rulesWith
      (Reference.withDefault (style.pending.declarations display) display) display)

end Source

/-- The plain counterpart is accepted in a class with some local variables. -/
def Environment.AcceptsPlain (environment : Environment) (locals : Properties)
    (runtime : RuntimeDeclaration) : Prop :=
  ∃ used value, environment.plainValue? runtime = some (used, value) ∧
    ∀ name ∈ used, name ∈ locals.keys

theorem Mirrors.areLocals_iff (mirrors : Mirrors environment declarations style plain)
    (accepted : ∀ runtime ∈ declarations, (environment.plainValue? runtime).isSome = true)
    (declared : ∀ used ∈ style.usedLocals.keys, used ∈ style.localVariables.keys) :
    (∀ used ∈ plain.usedLocals.keys, used ∈ plain.localVariables.keys) ↔
      ∀ runtime ∈ declarations, environment.AcceptsPlain style.localVariables runtime := by
  rw [mirrors.localVariables]
  constructor
  · intro declaredPlain runtime isDeclared
    rcases Option.isSome_iff_exists.mp (accepted runtime isDeclared) with ⟨⟨used, value⟩, writes⟩
    refine ⟨used, value, writes, ?_⟩
    intro name isUsed
    apply declaredPlain
    refine (mirrors.usedLocals name).mpr (Or.inr ⟨runtime, isDeclared, ?_⟩)
    rwa [Environment.plainLocals, writes]
  · intro areAccepted name isUsed
    rcases (mirrors.usedLocals name).mp isUsed with ofStyle | ⟨runtime, isDeclared, ofPlain⟩
    · exact declared name ofStyle
    · rcases areAccepted runtime isDeclared with ⟨used, value, writes, areDeclared⟩
      rw [Environment.plainLocals, writes] at ofPlain
      exact areDeclared name ofPlain

namespace Source

variable {environment : Environment} {scope : Text} {constants : Constants}
  {names : OrderedMap Text Text} {block plain : ClassBlock} {found : List Text}

/-- Statements without their sigils are accepted exactly if all plain counterparts are, and then
their style mirrors that of the statements. -/
theorem mirrors_ofStatements (isRule : environment.context = .rule)
    (soundTheme : environment.theme.Sound) (written : HasStatements block found)
    (accepted : AreAccepted environment found) :
    (((∅ : Style).dispatchAll environment (found.map withoutSigils)).failure = none ↔
      ∀ runtime ∈ found.flatMap RuntimeDeclaration.ofStatement,
        (environment.plainValue? runtime).isSome = true) ∧
    (((∅ : Style).dispatchAll environment (found.map withoutSigils)).failure = none →
      Mirrors environment (found.flatMap RuntimeDeclaration.ofStatement)
        (Style.ofStatements environment found)
        (Style.ofStatements environment (found.map withoutSigils))) := by
  have nothing : Mirrors environment [] (∅ : Style) ∅ := .of_noPending Style.sound_empty ⟨rfl, rfl⟩
  exact nothing.dispatchAll isRule soundTheme (isWhole_of_statements written.areFound) accepted.1

theorem isSome_of_acceptsPlain {locals : Properties} {declarations : List RuntimeDeclaration}
    (accepted : ∀ runtime ∈ declarations, environment.AcceptsPlain locals runtime) :
    ∀ runtime ∈ declarations, (environment.plainValue? runtime).isSome = true := by
  intro runtime isDeclared
  rcases accepted runtime isDeclared with ⟨used, value, writes, _⟩
  rw [writes, Option.isSome_some]

/-- The plain twin of an accepted class is accepted exactly if all plain counterparts are, and its
rules are those of the class with the values of the counterparts filled in. -/
theorem rulesOfClass_plain_iff (isRule : environment.context = .rule)
    (soundTheme : environment.theme.Sound) (hasScope : scope ≠ Naming.noScope)
    (unmarked : Unmarked (Naming.final scope block.name)) (twins : IsPlainTwin block plain found)
    (accepted : AreAccepted environment found) {rules : List Rule} :
    rulesOfClass environment scope constants names plain = .ok rules ↔
      (∀ runtime ∈ found.flatMap RuntimeDeclaration.ofStatement, environment.AcceptsPlain
        (Style.ofStatements environment found).localVariables runtime) ∧
      rules = (Style.ofStatements environment found).filledRules environment.plainValue
        (found.flatMap RuntimeDeclaration.ofStatement) (Naming.final scope block.name) := by
  have sound := Style.sound_ofStatements soundTheme found
  rcases mirrors_ofStatements isRule soundTheme twins.written accepted with
    ⟨plainEnded, mirrorsOfEnded⟩
  rw [← twins.sameName] at unmarked
  rw [rulesOfClass_eq_ok_iff soundTheme hasScope unmarked twins.plainWritten, twins.sameName,
    AreAccepted, and_assoc]
  constructor
  · rintro ⟨ended, declared, rfl⟩
    have mirrors := mirrorsOfEnded ended
    refine ⟨(mirrors.areLocals_iff (plainEnded.mp ended) accepted.2).mp declared, ?_⟩
    exact mirrors.sheetRules sound _
  · rintro ⟨areAccepted, rfl⟩
    have ended := plainEnded.mpr (isSome_of_acceptsPlain areAccepted)
    have mirrors := mirrorsOfEnded ended
    refine ⟨ended, (mirrors.areLocals_iff (plainEnded.mp ended) accepted.2).mpr areAccepted, ?_⟩
    exact (mirrors.sheetRules sound _).symm

/-- A class behaves like its plain twin exactly if all plain counterparts are accepted and their
values read like the defaults where the class uses its variables. -/
theorem behavesPlain_iff {texts : Theme.Texts} (built : Theme.ofTexts texts = .ok environment.theme)
    (isRule : environment.context = .rule) (hasScope : scope ≠ Naming.noScope)
    (unmarkedScope : Unmarked scope) (unmarkedName : Unmarked block.name)
    (twins : IsPlainTwin block plain found)
    (compiles : ∃ rules, rulesOfClass environment scope constants names block = .ok rules) :
    let style := Style.ofStatements environment found
    let declarations := found.flatMap RuntimeDeclaration.ofStatement
    let display := Naming.final scope block.name
    let accepted := ∀ runtime ∈ declarations, environment.AcceptsPlain style.localVariables runtime
    (BehavesPlain environment scope constants names block plain ↔
      accepted ∧ renderRules (style.filledRules environment.plainValue declarations display) =
        renderRules (style.filledRules RuntimeDeclaration.default declarations display)) ∧
    (accepted → (style.filledRules environment.plainValue declarations display =
        style.filledRules RuntimeDeclaration.default declarations display ↔
      environment.WritesDefaults declarations display style)) ∧
    ((∀ runtime ∈ declarations, environment.Keeps runtime) →
      BehavesPlain environment scope constants names block plain) := by
  intro style declarations display accepted
  have soundTheme : environment.theme.Sound := Theme.sound_of_ofTexts built
  have sound : style.Sound := Style.sound_ofStatements soundTheme found
  have unmarked := Naming.madeOf_final (by decide) unmarkedScope unmarkedName
  rcases compiles with ⟨rules, compiles⟩
  rcases (rulesOfClass_eq_ok_iff soundTheme hasScope unmarked twins.written).mp compiles with
    ⟨areAccepted, rfl⟩
  have reads : readClass environment scope constants block = .ok (style, []) :=
    (readClass_eq_ok_iff twins.written).mpr ⟨areAccepted, rfl⟩
  have allowed : ∀ runtime ∈ declarations, runtime.Allowed :=
    RuntimeDeclaration.allowed_of_dispatchAll isRule soundTheme
      (isWhole_of_statements twins.written.areFound) areAccepted.1
  have follows : accepted → style.Follows declarations := by
    intro isAccepted
    rcases mirrors_ofStatements isRule soundTheme twins.written areAccepted with ⟨ended, mirrors⟩
    exact (mirrors (ended.mpr (isSome_of_acceptsPlain isAccepted))).follows
  have meets : BehavesPlain environment scope constants names block plain ↔
      accepted ∧ renderRules (style.filledRules environment.plainValue declarations display) =
        renderRules (style.filledRules RuntimeDeclaration.default declarations display) := by
    constructor
    · rintro ⟨other, plainRules, readsOther, _, compilesPlain, sameText⟩
      have sameStyle : other = style := by
        rw [reads, Except.ok.injEq, Prod.mk.injEq] at readsOther
        exact readsOther.1.symm
      rcases (rulesOfClass_plain_iff isRule soundTheme hasScope unmarked twins areAccepted).mp
        compilesPlain with ⟨isAccepted, rfl⟩
      refine ⟨isAccepted, ?_⟩
      rw [sameStyle, (follows isAccepted).rulesWith_withDefault sound hasScope] at sameText
      exact sameText
    · rintro ⟨isAccepted, sameText⟩
      refine ⟨style, _, reads, compiles, (rulesOfClass_plain_iff isRule soundTheme hasScope unmarked
        twins areAccepted).mpr ⟨isAccepted, rfl⟩, ?_⟩
      rw [(follows isAccepted).rulesWith_withDefault sound hasScope]
      exact sameText
  refine ⟨meets, fun isAccepted => (follows isAccepted).filledRules_eq_iff sound allowed display, ?_⟩
  intro keeps
  have writes : ∀ runtime ∈ declarations,
      environment.plainValue? runtime = some ([], runtime.default) := fun runtime isDeclared =>
    Environment.plainValue?_of_keeps (keeps runtime isDeclared) (allowed runtime isDeclared)
  have isAccepted : accepted := fun runtime isDeclared =>
    ⟨[], runtime.default, writes runtime isDeclared, by simp⟩
  refine meets.mpr ⟨isAccepted, congrArg renderRules ?_⟩
  rw [(follows isAccepted).filledRules_eq_iff sound allowed display]
  intro name block last isLast _
  have isDeclared := (RuntimeDeclaration.of_last? isLast).1
  rw [Environment.plainValue, writes last isDeclared]
  exact Reference.rewrite_of_unmarked
    (Value.madeOf_wrapVariables (by decide) (allowed last isDeclared).unmarked)

set_option maxRecDepth 100000 in
/-- An overridden and an important declaration, a quoted content and an animation without a keyframe
of the source behave like plain ones. -/
theorem behavesPlain_overridden :
    let environment : Environment := { context := .rule, keyframes := .single "p" "s_p" }
    let block : ClassBlock := ⟨"a", "$am[q 1s] hover($c[red] $c[--x]!)\nbefore($ct['x'])"⟩
    let plain : ClassBlock := ⟨"a", "am[q 1s] hover(c[red] c[--x]!)\nbefore(ct['x'])"⟩
    let found : List Text := ["$am[q 1s]", "hover($c[red] $c[--x]!)", "before($ct['x'])"]
    let css : Text := ":root\x7b--am-s_a:q 1s;--c-s_a-hover:var(--x);--ct-s_a-before:'x';\x7d" ++
      ".s_a\x7banimation:var(--am-s_a);\x7d.s_a:hover\x7bcolor:var(--c-s_a-hover) !important;\x7d" ++
      ".s_a::before\x7bcontent:var(--ct-s_a-before);\x7d"
    Theme.ofTexts {} = .ok environment.theme ∧ IsPlainTwin block plain found ∧
      (rulesOfClass environment "s" ∅ ∅ block).map renderRules = .ok css ∧
      BehavesPlain environment "s" ∅ ∅ block plain := by
  intro environment block plain found css
  have built : Theme.ofTexts {} = .ok environment.theme := rfl
  have twins : IsPlainTwin block plain found :=
    ⟨rfl, ⟨by decide +kernel, by decide +kernel, by decide +kernel⟩,
      ⟨by decide +kernel, by decide +kernel, by decide +kernel⟩⟩
  have writes : (rulesOfClass environment "s" ∅ ∅ block).map renderRules = .ok css := by
    unfold block css
    repeat rw [Text.ofString_ofList]
    decide +kernel
  have compiles : ∃ rules, rulesOfClass environment "s" ∅ ∅ block = .ok rules := by
    rcases map_eq_ok.mp writes with ⟨rules, compiles, _⟩
    exact ⟨rules, compiles⟩
  have keeps : ∀ runtime ∈ found.flatMap RuntimeDeclaration.ofStatement,
      environment.Keeps runtime := by
    decide +kernel
  exact ⟨built, twins, writes, (behavesPlain_iff built rfl (by decide) (by decide) (by decide) twins
    compiles).2.2 keeps⟩

set_option maxRecDepth 100000 in
/-- The default of an animation does not get the final name of its keyframe, while a plain animation
does. -/
theorem not_behavesPlain_animation :
    let text : Text := "@scope s\n@keyframe p \x7b from(op[0]) \x7d\n.a \x7b $am[p 1s] \x7d"
    let plainText : Text := "@scope s\n@keyframe p \x7b from(op[0]) \x7d\n.a \x7b am[p 1s] \x7d"
    let environment : Environment := { context := .rule, keyframes := .single "p" "s_p" }
    let block : ClassBlock := ⟨"a", " $am[p 1s] "⟩
    let plain : ClassBlock := ⟨"a", " am[p 1s] "⟩
    (Source.parse text >>= fun source => do
        return (source.scope, source.classes,
          ← Keyframe.finalNames source.scope source.keyframes)) =
        .ok ("s", [block], environment.keyframes) ∧
      TerseStyle.compile {} text =
        .ok ("@keyframes s_p\x7bfrom\x7bopacity:0;\x7d\x7d:root\x7b--am-s_a:p 1s;\x7d" ++
          ".s_a\x7banimation:var(--am-s_a);\x7d") ∧
      TerseStyle.compile {} plainText =
        .ok "@keyframes s_p\x7bfrom\x7bopacity:0;\x7d\x7d.s_a\x7banimation:s_p 1s;\x7d" ∧
      IsPlainTwin block plain ["$am[p 1s]"] ∧
      ¬BehavesPlain environment "s" ∅ ∅ block plain := by
  intro text plainText environment block plain
  have twins : IsPlainTwin block plain ["$am[p 1s]"] :=
    ⟨rfl, ⟨by decide +kernel, by decide +kernel, by decide +kernel⟩,
      ⟨by decide +kernel, by decide +kernel, by decide +kernel⟩⟩
  refine ⟨by decide +kernel, ?_, ?_, twins, ?_⟩
  · unfold text
    repeat rw [Text.ofString_ofList]
    decide +kernel
  · unfold plainText
    repeat rw [Text.ofString_ofList]
    decide +kernel
  rintro ⟨style, plainRules, reads, _, compilesPlain, sameText⟩
  have isStyle : style = Style.ofStatements environment ["$am[p 1s]"] :=
    (Prod.mk.inj ((readClass_eq_ok_iff twins.written).mp reads).2).1
  have writesPlain : (rulesOfClass environment "s" ∅ ∅ plain).map renderRules =
      .ok ".s_a\x7banimation:s_p 1s;\x7d" := by
    decide +kernel
  have writesDefault : renderRules ((Style.ofStatements environment ["$am[p 1s]"]).rulesWith
      (Reference.withDefault ((Style.ofStatements environment ["$am[p 1s]"]).pending.declarations
        "s_a") "s_a") "s_a") = ".s_a\x7banimation:p 1s;\x7d" := by
    decide +kernel
  have isDisplay : Naming.final "s" block.name = "s_a" := by decide
  rw [compilesPlain] at writesPlain
  rw [isStyle, isDisplay, writesDefault] at sameText
  have texts : renderRules plainRules = ".s_a\x7banimation:s_p 1s;\x7d" :=
    Except.ok.inj writesPlain
  rw [texts] at sameText
  exact absurd sameText (by decide)

end Source

end TerseStyle

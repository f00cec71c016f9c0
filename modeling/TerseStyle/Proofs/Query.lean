import TerseStyle.Proofs.Bytes
import TerseStyle.Proofs.Naming
import TerseStyle.Proofs.Selector
import TerseStyle.Proofs.WorkList
import TerseStyle.Query.Body

/-!
# Nested queries

The queries of a forest are met in the order of `QueryTree.preorder`, and a property of all of them
is proved along the constructors of the tree. Reading a body makes queries whose selectors and lines
are cut out of it, so that they are unmarked but for the references to classes; compiling them makes
their styles sound. The rules
of a forest are those of its queries in the same order, each under a selector of its own.
-/

namespace TerseStyle

open Reference (Unmarked Within rewrite)

namespace QueryTree

/-- Every query of a forest has a property. -/
def Every (Good : QueryTree → Prop) (forest : List QueryTree) : Prop :=
  ∀ query ∈ preorder forest, Good query

theorem every_nil (Good : QueryTree → Prop) : Every Good [] := by
  simp [Every, preorder_nil]

theorem every_cons {Good : QueryTree → Prop} {selector : Text} {lines : List Text} {style : Style}
    {children rest : List QueryTree} :
    Every Good (node selector lines style children :: rest) ↔
      Good (node selector lines style children) ∧ Every Good children ∧ Every Good rest := by
  simp [Every, preorder_cons, or_imp, forall_and]

/-! ## Compiling queries -/

/-- The lines of a query lead from a style with one property to a style with another. -/
def LinesLead (environment : Environment) (constants : Constants) (Before : QueryTree → Prop)
    (After : Text → Style → Prop) : Prop :=
  ∀ selector lines style children, Before (node selector lines style children) →
    After selector
      (style.dispatchLines { environment with context := .query } constants true lines).state

/-- If the lines of every query lead to a style with a property, the queries of a compiled forest
have the property. -/
theorem every_compileForest {environment : Environment} {constants : Constants}
    {Before : QueryTree → Prop} {After : Text → Style → Prop}
    (step : LinesLead environment constants Before After) (forest : List QueryTree)
    (before : Every Before forest)
    (succeeded : (compileForest environment constants forest).failure = none) :
    Every (fun query => After query.selector query.style)
      (compileForest environment constants forest).state := by
  induction forest using forest_induction with
  | nil => exact every_nil _
  | cons selector lines style children rest inner onwards =>
      rw [every_cons] at before
      obtain ⟨_, ofChildren, ofRest, isState⟩ := succeeded_compileForest_cons succeeded
      rw [isState, every_cons]
      exact ⟨step selector lines style children before.1, inner before.2.1 ofChildren,
        onwards before.2.2 ofRest⟩

end QueryTree

/-! ## Reading queries -/

namespace Query

theorem mem_of_first? {line : Nat} {text : Text} {query : First}
    (found : first? line text = .ok (some query)) :
    (∀ c, c ∈ query.before ∨ c ∈ query.body ∨ c ∈ query.rest → c ∈ text) ∧
      ∃ written, (∀ c ∈ written, c ∈ text) ∧ query.selector = Selector.read written := by
  simp only [first?] at found
  split at found
  · simp at found
  · next before after splits =>
    split at found
    · simp at found
    · next written inside braceAt =>
      split at found
      · simp at found
      · split at found
        · simp at found
        · next body rest bodyAt =>
          simp only [Except.ok.injEq, Option.some.injEq] at found
          have isText := splitAtQuery?_eq_some splits
          rw [Text.splitAtChar?_eq_some braceAt, Brace.readBody_eq_ok bodyAt] at isText
          rw [← found, isText]
          refine ⟨?_, Text.trim written, ?_, rfl⟩
          · rintro c (isChar | isChar | isChar) <;> simp [isChar]
          · intro c isChar
            simp [Text.mem_of_mem_trim isChar]

theorem mem_of_mem_ownLines {text line : Text} {c : CodePoint} (isLine : line ∈ ownLines text)
    (isChar : c ∈ line) : c ∈ text := by
  obtain ⟨whole, isWhole, rfl⟩ := List.mem_map.mp (List.mem_of_mem_filter isLine)
  exact Text.mem_of_mem_lines isWhole (Text.mem_of_mem_trim isChar)

/-- The message of the refusal quotes nothing. -/
theorem says_of_first?_error {Good : CodePoint → Prop} {line : Nat} {text : Text} {error : Error}
    (refused : first? line text = .error error) : error.Says Good := by
  simp only [first?] at refused
  split at refused
  · simp at refused
  · split at refused
    · cases refused
      simp [Error.MadeOf, Cause.describe]
    · split at refused
      · cases refused
        simp [Error.MadeOf, Cause.describe]
      · split at refused
        · next reason unclosed =>
          cases refused
          exact Brace.says_of_readBody unclosed
        · simp at refused

theorem madeOf_ownLines {Good : CodePoint → Prop} {text : Text} (madeOf : Text.MadeOf Good text) :
    ∀ line ∈ ownLines text, Text.MadeOf Good line :=
  fun _ isLine => madeOf.of_subset fun _ => mem_of_mem_ownLines isLine

/-- The lines and bodies of the level are made of the characters of the text, and its selectors are
read from them. -/
theorem reports_level {Good : CodePoint → Prop} {Selects : Text → Prop}
    (ofRead : ∀ written, Text.MadeOf Good written → Selects (Selector.read written)) (line : Nat)
    {text : Text} (madeOf : Text.MadeOf Good text) :
    Reports (Error.Says Good) (fun level => (∀ line ∈ level.lines, Text.MadeOf Good line) ∧
      ∀ query ∈ level.queries, Selects query.1 ∧ Text.MadeOf Good query.2) (level line text) := by
  fun_induction level line text with
  | case1 line text error refused => exact says_of_first?_error refused
  | case2 => exact ⟨madeOf_ownLines madeOf, by simp⟩
  | case3 line text query found ih =>
      obtain ⟨inText, written, writtenInText, isSelector⟩ := mem_of_first? found
      have ofBody := madeOf.of_subset fun c isChar => inText c (Or.inr (Or.inl isChar))
      apply (ih (madeOf.of_subset fun c isChar => inText c (Or.inr (Or.inr isChar)))).map
      intro more ofMore
      refine ⟨List.forall_mem_append.mpr ⟨madeOf_ownLines ?_, ofMore.1⟩,
        List.forall_mem_cons.mpr ⟨⟨?_, ofBody⟩, ofMore.2⟩⟩
      · exact madeOf.of_subset fun c isChar => inText c (Or.inl isChar)
      · rw [isSelector]
        exact ofRead _ (madeOf.of_subset writtenInText)

end Query

namespace QueryTree

/-- A query as it is read from a body that is made of some characters. -/
structure ReadFrom (Good : CodePoint → Prop) (Selects : Text → Prop) (query : QueryTree) :
    Prop where
  selector : Selects query.selector
  lines : ∀ line ∈ query.lines, Text.MadeOf Good line
  style : query.style = ∅

/-- A query as it is read from an unmarked body. -/
abbrev Fresh : QueryTree → Prop :=
  ReadFrom (fun c => c ≠ Reference.opening ∧ c ≠ Reference.closing) (Within Reference.IsScope)

theorem reports_parse {Good : CodePoint → Prop} {Selects : Text → Prop}
    (ofRead : ∀ written, Text.MadeOf Good written → Selects (Selector.read written)) {text : Text}
    (madeOf : Text.MadeOf Good text) :
    Reports (Error.Says Good) (fun parsed => (∀ line ∈ parsed.1, Text.MadeOf Good line) ∧
      Every (ReadFrom Good Selects) parsed.2) (parse text) := by
  -- The induction is on the length of the text: the body of a query is shorter than the text.
  induction length : text.length using Nat.strong_induction_on generalizing text with
  | _ size ih =>
    have ofLevel := Query.reports_level ofRead 1 madeOf
    cases isLevel : Query.level 1 text with
    | error error =>
        rw [parse_of_error isLevel]
        exact ofLevel.of_error isLevel
    | ok level =>
        obtain ⟨ofLines, ofBodies⟩ := ofLevel.of_ok isLevel
        have shorter := Query.length_level isLevel
        have ofQueries : Reports (Error.Says Good) (Every (ReadFrom Good Selects))
            (level.queries.foldrM readQuery []) := by
          generalize level.queries = queries at ofBodies shorter ⊢
          induction queries with
          | nil => exact every_nil _
          | cons query rest ofRest =>
              rw [List.forall_mem_cons] at ofBodies shorter
              rw [List.foldrM_cons]
              apply (ofRest ofBodies.2 shorter.2).bind
              intro later ofLater
              apply (ih _ (length ▸ shorter.1) ofBodies.1.2 rfl).bind
              intro parsed ofParsed
              exact every_cons.mpr ⟨⟨ofBodies.1.1, ofParsed.1, rfl⟩, ofParsed.2, ofLater⟩
        rw [parse_of_level isLevel]
        exact ofQueries.map fun queries ofForest => ⟨ofLines, ofForest⟩

theorem fresh_of_parse {text : Text} {lines : List Text} {forest : List QueryTree}
    (unmarked : Unmarked text) (parsed : parse text = .ok (lines, forest)) :
    (∀ line ∈ lines, Unmarked line) ∧ Every Fresh forest :=
  (reports_parse (fun _ => Selector.within_read) unmarked).of_ok parsed

end QueryTree

/-! ## Bodies -/

/-- The fragments that a source declares: sound, and without variables. -/
def Constants.Sound (constants : Constants) : Prop :=
  ∀ fragment ∈ constants.values, fragment.Sound ∧ fragment.VariableFree

namespace Style

/-- What a sound fragment without variables shares is sound. -/
theorem Sound.shared {fragment : Style} (sound : fragment.Sound) (free : fragment.VariableFree) :
    fragment.shared.Sound where
  values := by
    intro name value sets
    have inFragment : fragment.Sets name value := sets.of_places rfl rfl rfl rfl rfl rfl rfl
    obtain ⟨unmarked, within⟩ := sound.values inFragment
    refine ⟨unmarked, within.mono ?_⟩
    intro reference covers
    cases reference with
    | runtime name block =>
        simp [Covers, Pending.isEmpty_iff_not_declares.mp free.pending] at covers
    | localVariable name => exact covers
    | scope name => exact covers
  labels := sound.labels
  locals := by simp [Style.shared]
  defaults := by
    intro block name default isDefault
    simp [Style.shared, Pending.mem_defaults_iff, Pending.blocks] at isDefault
  rootVariables := rfl

variable {environment : Environment} {constants : Constants} {style : Style}

/-- What holds of a style, and still holds after every constant and after every contribution of the
lines of a body, holds after the body, however far it was read. -/
theorem dispatchLines_induction {nested : Bool} {lines : List Text} (Good : Style → Prop)
    (ofConstant : ∀ style, ∀ fragment ∈ constants.values, Good style → Good (style.merge fragment))
    (ofStatement : ∀ style contribution statement,
      (∀ c ∈ statement, c ∈ .char ' ' :: .char '\n' :: lines.flatten) → Good style →
      Contribution environment (Text.trim statement) contribution → Good (style ++ contribution))
    (initial : Good style) :
    Good (style.dispatchLines environment constants nested lines).state := by
  have afterConstants : ∀ names, Good (style.useConstants constants nested names).state := by
    intro names
    apply Attempt.state_forEach _ initial
    intro name _ style good
    unfold useConstant
    split
    · next fragment isConstant =>
      have isEntry := OrderedMap.get?_eq_some_iff.mp isConstant
      exact ofConstant style fragment (List.mem_map_of_mem isEntry) good
    · exact good
  rw [dispatchLines, Attempt.andThen]
  split
  · exact afterConstants _
  · apply dispatchBody_induction Good _ (afterConstants _)
    intro style contribution statement fromBody
    apply ofStatement style contribution statement
    intro c isChar
    rcases fromBody c isChar with inBody | isSpace
    · rcases Text.mem_joinWith inBody with isBreak | ⟨line, isLine, inLine⟩
      · simp [List.mem_singleton.mp isBreak]
      · have inLines := List.mem_flatten.mpr ⟨line, List.mem_of_mem_filter isLine, inLine⟩
        simp [inLines]
    · simp [isSpace]

theorem Sound.dispatchLines (soundTheme : environment.theme.Sound)
    (soundConstants : constants.Sound) (sound : style.Sound) (nested : Bool) (lines : List Text) :
    (style.dispatchLines environment constants nested lines).state.Sound := by
  apply dispatchLines_induction Sound _ _ sound
  · intro style fragment isConstant sound
    obtain ⟨soundFragment, free⟩ := soundConstants fragment isConstant
    exact sound.append (soundFragment.shared free)
  · intro style contribution _ _ sound contributes
    exact sound.append (contributes.sound soundTheme)

theorem VariableFree.dispatchLines (noRuntime : environment.context.allowsRuntime = false)
    (noLocals : environment.context.allowsLocalDeclarations = false) (free : style.VariableFree)
    (nested : Bool) (lines : List Text) :
    (style.dispatchLines environment constants nested lines).state.VariableFree := by
  apply dispatchLines_induction VariableFree _ _ free
  · intro style fragment _ free
    exact free.append fragment.variableFree_shared
  · intro style contribution _ _ free contributes
    exact free.append (contributes.variableFree noRuntime noLocals)

end Style

/-- A query after its lines were compiled. -/
structure QueryTree.Settled (selector : Text) (style : Style) : Prop where
  selector : Within Reference.IsScope selector
  sound : style.Sound
  free : style.VariableFree

theorem QueryTree.settled_of_compileForest {environment : Environment}
    (soundTheme : environment.theme.Sound) {constants : Constants}
    (soundConstants : constants.Sound) {forest compiled : List QueryTree}
    (fresh : Every Fresh forest)
    (compiles : compileForest environment constants forest = { state := compiled }) :
    Every (fun query => Settled query.selector query.style) compiled := by
  have step : LinesLead environment constants Fresh Settled := by
    intro selector lines style children ofQuery
    have isEmpty : style = ∅ := ofQuery.style
    have soundQueryTheme : { environment with context := .query }.theme.Sound := soundTheme
    rw [isEmpty]
    exact ⟨ofQuery.selector, Style.sound_empty.dispatchLines soundQueryTheme soundConstants true lines,
      Style.variableFree_empty.dispatchLines rfl rfl true lines⟩
  have everySettled := every_compileForest step forest fresh (by rw [compiles])
  rwa [compiles] at everySettled

end TerseStyle

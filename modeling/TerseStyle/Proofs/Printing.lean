import TerseStyle.Proofs.Section

/-!
# The printed style sheet of a class

The style sheet of a class is described by recursion on its tree of queries: `Sheet.ofClass` lists
the rules in their order, each with its wrapper, its selector and its declarations. The rules that
are emitted print exactly this list. Conversely `Sheet.read` reads a printed style sheet by the
nesting of its braces, and finds the same list again, if no part of it contains a character that
delimits parts.
-/

namespace TerseStyle

/-- A rule as it stands in a style sheet. -/
structure WrittenRule where
  /-- The condition that encloses the rule, if there is one. -/
  wrapper : Option Text
  selector : Text
  declarations : List (Text × Text)
  deriving DecidableEq

namespace WrittenRule

/-- The text of a rule. -/
def text (rule : WrittenRule) : Text :=
  let declarations : Text :=
    rule.declarations.flatMap fun entry => entry.1 ++ ":" ++ entry.2 ++ ";"
  match rule.wrapper with
  | none => rule.selector ++ "\x7b" ++ declarations ++ "\x7d"
  | some wrapper => wrapper ++ "\x7b" ++ rule.selector ++ "\x7b" ++ declarations ++ "\x7d" ++ "\x7d"

end WrittenRule

namespace Sheet

/-- A rule of some declarations, none if there are no declarations. -/
def block (wrapper : Option Text) (selector : Text) (declarations : List (Text × Text)) :
    List WrittenRule :=
  if declarations = [] then [] else [{ wrapper, selector, declarations }]

/-- Declarations with the local variables of a class. -/
def withLocals (owner : Text) (declarations : List (Text × Text)) : List (Text × Text) :=
  declarations.map fun (name, value) =>
    (name, Reference.resolveLocal (fun used => "var(--" ++ used ++ "-" ++ owner ++ ")") value)

/-- The rules of one selector, given its own declarations: these come first, then the states, plugin
states, screens, containers, plugin containers and pseudo-elements. -/
def ofSelector (owner selector : Text) (own : List (Text × Text)) (style : Style) :
    List WrittenRule :=
  block none selector (withLocals owner own) ++
  style.states.entries.flatMap (fun (name, properties) =>
    block none (selector ++ ":" ++ name) (withLocals owner properties.entries)) ++
  style.pluginStates.entries.flatMap (fun (_, state) =>
    block none (selector ++ "." ++ state.selector) (withLocals owner state.properties.entries)) ++
  style.screens.flatMap (fun screen =>
    block (some ("@media only screen and " ++ screen.query)) selector
      (withLocals owner screen.properties.entries)) ++
  style.containers.flatMap (fun container =>
    block (some ("@container " ++ container.query)) selector
      (withLocals owner container.properties.entries)) ++
  style.pluginContainers.entries.flatMap (fun (containerClass, properties) =>
    block none ("." ++ containerClass ++ " " ++ selector) (withLocals owner properties.entries)) ++
  style.elements.entries.flatMap (fun (name, properties) =>
    block none (selector ++ "::" ++ name) (withLocals owner properties.entries))

mutual

/-- The rules of a query under the selector of its parent: its own, and then those of the queries
inside it. -/
def ofQuery (names : OrderedMap Text Text) (owner parent : Text) :
    QueryTree → Except Error (List WrittenRule)
  | .node written _ style children => do
    let selector ← Selector.nest names parent written
    let inner ← ofQueries names owner selector children
    return ofSelector owner selector style.base.entries style ++ inner

/-- The rules of queries with a common parent, one after the other. -/
def ofQueries (names : OrderedMap Text Text) (owner parent : Text) :
    List QueryTree → Except Error (List WrittenRule)
  | [] => .ok []
  | query :: rest => do
    let first ← ofQuery names owner parent query
    let more ← ofQueries names owner parent rest
    return first ++ more

end

/-- The own declarations of a class: its local variables, and then its properties. A property with
the name of a local variable gives it its value. -/
def ownDeclarations (display : Text) (style : Style) : List (Text × Text) :=
  let locals := style.localVariables.entries.map fun (name, value) =>
    (("--" ++ name ++ "-" ++ display : Text), value)
  locals.map (fun (name, value) => (name, (style.base.get? name).getD value)) ++
    style.base.entries.filter fun entry => entry.1 ∉ locals.map Prod.fst

/-- The rules of a class: those of the root element, of the class itself and of its queries. -/
def ofClass (names : OrderedMap Text Text) (display : Text) (style : Style)
    (queries : List QueryTree) : Except Error (List WrittenRule) := do
  let nested ← ofQueries names display ("." ++ display) queries
  return block none ":root" style.rootVariables.entries ++
    ofSelector display ("." ++ display) (ownDeclarations display style) style ++ nested

end Sheet

/-! ## The emitted rules -/

/-- The rule as it stands in the style sheet. -/
def Rule.written (rule : Rule) : WrittenRule :=
  { wrapper := rule.wrapper, selector := rule.selector, declarations := rule.declarations.entries }

theorem Rule.text_written (rule : Rule) : rule.written.text = rule.render := by
  obtain ⟨wrapper, selector, declarations⟩ := rule
  cases wrapper <;>
    simp [written, WrittenRule.text, render, enclose, renderDeclarations, List.append_assoc]

theorem Rule.map_written_bind (own : List Rule) (walked : Except Error (List Rule)) :
    (walked >>= fun more => pure (own ++ more)).map (List.map Rule.written) =
      walked.map (List.map Rule.written) >>= fun more => pure (own.map Rule.written ++ more) := by
  cases walked <;> simp [bind, Except.bind, pure, Except.pure, Except.map]

theorem text_map_written (rules : List Rule) :
    (rules.map Rule.written).flatMap WrittenRule.text = renderRules rules := by
  rw [renderRules, List.flatMap_map]
  simp only [Rule.text_written]

namespace Style

theorem map_written_filter {α : Type} (owner : Text) (make : α → Rule) (items : List α) :
    ((((items.map make).filter fun rule => !rule.declarations.isEmpty).map fun rule =>
      { rule with declarations := resolveLocals owner rule.declarations }).map Rule.written) =
      items.flatMap fun item => Sheet.block (make item).wrapper (make item).selector
        (Sheet.withLocals owner (make item).declarations.entries) := by
  induction items with
  | nil => rfl
  | cons item rest ih =>
      rw [List.map_cons, List.flatMap_cons, ← ih, List.filter_cons]
      have sameEntries : ∀ properties : Properties, (resolveLocals owner properties).entries =
          Sheet.withLocals owner properties.entries := fun _ => rfl
      by_cases empty : (make item).declarations.entries = []
      · simp [OrderedMap.isEmpty, empty, Sheet.block, Sheet.withLocals]
      · simp [OrderedMap.isEmpty, empty, Sheet.block, Sheet.withLocals, Rule.written, sameEntries]

theorem map_written_rules (owner selector : Text) (own : Properties) (style : Style) :
    (style.rules owner selector own).map Rule.written =
      Sheet.ofSelector owner selector own.entries style := by
  have single : [({ selector, declarations := own } : Rule)] =
      [()].map fun _ => { selector, declarations := own } := rfl
  simp only [rules, writtenRules, placeRules, List.filter_append, List.map_append, single,
    map_written_filter, Sheet.ofSelector, List.flatMap_cons, List.flatMap_nil, List.append_nil]

/-- The own properties of a class are its local variables followed by its properties. -/
theorem entries_ownProperties (display : Text) (style : Style) :
    (style.ownProperties display).entries = Sheet.ownDeclarations display style := by
  have distinct : ((style.localVariables.entries.map fun (name, value) =>
      (Naming.localVariable name display, value)).map Prod.fst).Nodup := by
    rw [List.map_map]
    have isMap : (Prod.fst ∘ fun entry : Text × Text =>
        (Naming.localVariable entry.1 display, entry.2)) =
        (fun name => Naming.localVariable name display) ∘ Prod.fst := rfl
    rw [isMap, ← List.map_map]
    apply style.localVariables.distinct.map
    intro first second same
    simpa [Naming.localVariable] using same
  rw [ownProperties, OrderedMap.entries_merge, OrderedMap.keys, OrderedMap.entries_ofList distinct]
  unfold Sheet.ownDeclarations
  congr 1
  apply List.filter_congr
  intro entry _
  exact decide_eq_decide.mpr Iff.rfl

end Style

namespace QueryTree

variable {names : OrderedMap Text Text} {owner : Text}

theorem map_written_rules_under (parent : Text) (queries : List QueryTree)
    (rest : List (Text × QueryTree)) :
    (rules names owner (under parent queries ++ rest)).map (List.map Rule.written) = do
      let first ← Sheet.ofQueries names owner parent queries
      let more ← (rules names owner rest).map (List.map Rule.written)
      return first ++ more := by
  induction queries using forest_induction generalizing parent rest with
  | nil =>
      rw [Sheet.ofQueries]
      cases walked : rules names owner rest <;>
        simp [under, walked, bind, Except.bind, pure, Except.pure, Except.map]
  | cons written lines style children more inner onwards =>
      have split : under parent (node written lines style children :: more) ++ rest =
          (parent, node written lines style children) :: (under parent more ++ rest) := rfl
      rw [split, rules, Sheet.ofQueries, Sheet.ofQuery]
      cases Selector.nest names parent written with
      | error error => rfl
      | ok selector =>
          rw [ok_bind, ok_bind, Rule.map_written_bind, inner, onwards, Style.map_written_rules]
          simp only [bind_assoc, pure_bind, List.append_assoc]

end QueryTree

theorem Style.map_written_rootRules (style : Style) :
    style.rootRules.map Rule.written = Sheet.block none ":root" style.rootVariables.entries := by
  by_cases empty : style.rootVariables.entries = [] <;>
    simp [rootRules, OrderedMap.isEmpty, Sheet.block, Rule.written, empty]

theorem map_written_classRules (names : OrderedMap Text Text) (display : Text) (style : Style)
    (queries : List QueryTree) :
    (classRules names display style queries).map (List.map Rule.written) =
      Sheet.ofClass names display style queries := by
  have walk : (QueryTree.rules names display (QueryTree.under ("." ++ display) queries)).map
      (List.map Rule.written) = Sheet.ofQueries names display ("." ++ display) queries := by
    rw [← List.append_nil (QueryTree.under _ _), QueryTree.map_written_rules_under, QueryTree.rules]
    cases Sheet.ofQueries names display ("." ++ display) queries <;>
      simp [bind, Except.bind, pure, Except.pure, Except.map]
  rw [Sheet.ofClass, ← walk, classRules, ← Style.entries_ownProperties, ← Style.map_written_rules,
    ← Style.map_written_rootRules]
  cases QueryTree.rules names display (QueryTree.under ("." ++ display) queries) <;>
    simp [bind, Except.bind, pure, Except.pure, Except.map]

/-! ## Reading a style sheet -/

namespace Sheet

/-- A reader of style sheets, between two characters. -/
structure Reader where
  /-- The rules that are read. -/
  rules : List WrittenRule := []
  /-- What stands before the braces that are open, the innermost first. -/
  heads : List Text := []
  /-- The declarations of the innermost braces. -/
  declarations : List (Text × Text) := []
  /-- The text since the last delimiter. -/
  pending : Text := []

namespace Reader

/-- Reads one character. A brace opens after its head, a semicolon ends a declaration, and a closing
brace ends the rule of the declarations before it, or else the condition around rules. -/
def step (reader : Reader) (c : CodePoint) : Option Reader :=
  if c = .char '{' then
    some { reader with heads := reader.pending :: reader.heads, pending := [] }
  else if c = .char ';' then
    (Text.splitAtChar? ':' reader.pending).map fun entry =>
      { reader with declarations := reader.declarations ++ [entry], pending := [] }
  else if c = .char '}' then
    match reader.heads with
    | [] => none
    | selector :: outer =>
      if reader.pending ≠ [] then none
      else if reader.declarations = [] then some { reader with heads := outer }
      else some
        { rules := reader.rules ++
            [{ wrapper := outer.head?, selector, declarations := reader.declarations }]
          heads := outer }
  else some { reader with pending := reader.pending ++ [c] }

/-- The rules, if everything is closed. -/
def finish (reader : Reader) : Option (List WrittenRule) :=
  if reader.heads = [] ∧ reader.declarations = [] ∧ reader.pending = [] then some reader.rules
  else none

end Reader

/-- Reads the rules of a style sheet. -/
def read (text : Text) : Option (List WrittenRule) :=
  (text.foldlM Reader.step {}).bind Reader.finish

end Sheet

/-- No character of the text delimits a part of a style sheet. -/
def HasNoDelimiter (text : Text) : Prop :=
  ∀ c ∈ text, c ∉ ("\x7b\x7d;" : Text)

instance : DecidablePred HasNoDelimiter := fun text =>
  inferInstanceAs (Decidable (∀ c ∈ text, c ∉ ("\x7b\x7d;" : Text)))

/-- The parts of the rule can be told apart. -/
structure WrittenRule.IsReadable (rule : WrittenRule) : Prop where
  wrapper : ∀ wrapper ∈ rule.wrapper, HasNoDelimiter wrapper
  selector : HasNoDelimiter rule.selector
  names : ∀ entry ∈ rule.declarations, HasNoDelimiter entry.1 ∧ CodePoint.char ':' ∉ entry.1
  values : ∀ entry ∈ rule.declarations, HasNoDelimiter entry.2

instance : DecidablePred WrittenRule.IsReadable := fun rule =>
  decidable_of_iff
    ((∀ wrapper ∈ rule.wrapper, HasNoDelimiter wrapper) ∧ HasNoDelimiter rule.selector ∧
      (∀ entry ∈ rule.declarations, HasNoDelimiter entry.1 ∧ CodePoint.char ':' ∉ entry.1) ∧
      ∀ entry ∈ rule.declarations, HasNoDelimiter entry.2)
    ⟨fun ⟨wrapper, selector, names, values⟩ => ⟨wrapper, selector, names, values⟩,
      fun readable => ⟨readable.wrapper, readable.selector, readable.names, readable.values⟩⟩

namespace Sheet.Reader

variable {reader : Reader}

theorem step_of_not_delimiter {c : CodePoint} (plain : c ∉ ("\x7b\x7d;" : Text)) :
    step reader c = some { reader with pending := reader.pending ++ [c] } := by
  have apart : c ≠ .char '{' ∧ c ≠ .char '}' ∧ c ≠ .char ';' := by
    simpa [Text.ofString, Text.ofChars] using plain
  simp [step, apart]

theorem step_opening : step reader '{' =
    some { reader with heads := reader.pending :: reader.heads, pending := [] } := by
  simp [step]

theorem step_semicolon {name value : Text} (noColon : CodePoint.char ':' ∉ name)
    (isPending : reader.pending = name ++ CodePoint.char ':' :: value) :
    step reader ';' = some
      { reader with declarations := reader.declarations ++ [(name, value)], pending := [] } := by
  simp [step, isPending, Text.splitAtChar?_append noColon]

theorem step_closing_rule {selector : Text} {outer : List Text}
    (isOpen : reader.heads = selector :: outer) (atStart : reader.pending = [])
    (hasDeclarations : reader.declarations ≠ []) :
    step reader '}' = some
      { rules := reader.rules ++
          [{ wrapper := outer.head?, selector, declarations := reader.declarations }]
        heads := outer } := by
  simp [step, isOpen, atStart, hasDeclarations]

theorem step_closing_wrapper {wrapper : Text} {outer : List Text}
    (isOpen : reader.heads = wrapper :: outer) (atStart : reader.pending = [])
    (noDeclarations : reader.declarations = []) :
    step reader '}' = some { reader with heads := outer } := by
  simp [step, isOpen, atStart, noDeclarations]

theorem foldlM_plain {text : Text} (plain : HasNoDelimiter text) (reader : Reader) :
    text.foldlM step reader = some { reader with pending := reader.pending ++ text } := by
  induction text generalizing reader with
  | nil => simp
  | cons c rest ih =>
      have plainRest : HasNoDelimiter rest := fun other inRest =>
        plain other (List.mem_cons_of_mem c inRest)
      rw [List.foldlM_cons, step_of_not_delimiter (plain c List.mem_cons_self), Option.bind_eq_bind,
        Option.bind_some, ih plainRest]
      simp

theorem foldlM_declaration {entry : Text × Text} (plainName : HasNoDelimiter entry.1)
    (noColon : CodePoint.char ':' ∉ entry.1) (plainValue : HasNoDelimiter entry.2)
    (atStart : reader.pending = []) :
    (entry.1 ++ ":" ++ entry.2 ++ ";" : Text).foldlM step reader =
      some { reader with declarations := reader.declarations ++ [entry] } := by
  have plain : HasNoDelimiter (entry.1 ++ CodePoint.char ':' :: entry.2) := by
    intro c inText
    simp only [List.mem_append, List.mem_cons] at inText
    rcases inText with inName | rfl | inValue
    · exact plainName c inName
    · decide
    · exact plainValue c inValue
  have split : (entry.1 ++ ":" ++ entry.2 ++ ";" : Text) =
      (entry.1 ++ CodePoint.char ':' :: entry.2) ++ [CodePoint.char ';'] := by
    simp [Text.ofString, Text.ofChars]
  rw [split, List.foldlM_append, foldlM_plain plain, Option.bind_eq_bind, Option.bind_some,
    List.foldlM_cons, atStart, List.nil_append, step_semicolon noColon rfl]
  simp

theorem foldlM_declarations {entries : List (Text × Text)}
    (names : ∀ entry ∈ entries, HasNoDelimiter entry.1 ∧ CodePoint.char ':' ∉ entry.1)
    (values : ∀ entry ∈ entries, HasNoDelimiter entry.2) (atStart : reader.pending = []) :
    (entries.flatMap fun entry => (entry.1 ++ ":" ++ entry.2 ++ ";" : Text)).foldlM step reader =
      some { reader with declarations := reader.declarations ++ entries } := by
  induction entries generalizing reader with
  | nil => simp
  | cons entry rest ih =>
      rw [List.forall_mem_cons] at names values
      rw [List.flatMap_cons, List.foldlM_append,
        foldlM_declaration names.1.1 names.1.2 values.1 atStart, Option.bind_eq_bind,
        Option.bind_some, ih names.2 values.2 (by exact atStart)]
      simp

/-- The text of a rule without its condition, read inside the braces that are open. -/
theorem foldlM_block {selector : Text} {entries : List (Text × Text)}
    (plainSelector : HasNoDelimiter selector)
    (names : ∀ entry ∈ entries, HasNoDelimiter entry.1 ∧ CodePoint.char ':' ∉ entry.1)
    (values : ∀ entry ∈ entries, HasNoDelimiter entry.2) (hasEntries : entries ≠ [])
    (rules : List WrittenRule) (heads : List Text) :
    (selector ++ CodePoint.char '{' ::
      (entries.flatMap fun entry => (entry.1 ++ ":" ++ entry.2 ++ ";" : Text)) ++
        [CodePoint.char '}']).foldlM step { rules, heads } =
      some
        { rules := rules ++ [{ wrapper := heads.head?, selector, declarations := entries }]
          heads } := by
  rw [List.append_assoc, List.foldlM_append, foldlM_plain plainSelector, Option.bind_eq_bind,
    Option.bind_some, List.cons_append, List.foldlM_cons, step_opening, Option.bind_eq_bind,
    Option.bind_some, List.foldlM_append, foldlM_declarations names values rfl, Option.bind_eq_bind,
    Option.bind_some, List.foldlM_cons, step_closing_rule rfl rfl (by simpa using hasEntries)]
  simp

theorem foldlM_rule {rule : WrittenRule} (readable : rule.IsReadable)
    (hasDeclarations : rule.declarations ≠ []) (rules : List WrittenRule) :
    rule.text.foldlM step { rules } = some { rules := rules ++ [rule] } := by
  obtain ⟨wrapper, selector, declarations⟩ := rule
  have block := foldlM_block readable.selector readable.names readable.values hasDeclarations rules
  cases wrapper with
  | none =>
      have ofBlock := block []
      simpa [WrittenRule.text, Text.ofString, Text.ofChars] using ofBlock
  | some wrapper =>
      have opens : (wrapper ++ [CodePoint.char '{']).foldlM step { rules } =
          some { rules, heads := [wrapper] } := by
        rw [List.foldlM_append, foldlM_plain (readable.wrapper wrapper rfl), Option.bind_eq_bind,
          Option.bind_some, List.foldlM_cons, step_opening]
        simp
      have ofBlock := block [wrapper]
      have split : ({ wrapper := some wrapper, selector, declarations } : WrittenRule).text =
          (wrapper ++ [CodePoint.char '{']) ++ ((selector ++ CodePoint.char '{' ::
            (declarations.flatMap fun entry => (entry.1 ++ ":" ++ entry.2 ++ ";" : Text)) ++
              [CodePoint.char '}']) ++ [CodePoint.char '}']) := by
        simp [WrittenRule.text, Text.ofString, Text.ofChars]
      rw [split, List.foldlM_append, opens, Option.bind_eq_bind, Option.bind_some,
        List.foldlM_append, ofBlock, Option.bind_eq_bind, Option.bind_some, List.foldlM_cons,
        step_closing_wrapper rfl rfl rfl]
      simp

theorem foldlM_rules {printed : List WrittenRule}
    (readable : ∀ rule ∈ printed, rule.IsReadable ∧ rule.declarations ≠ [])
    (rules : List WrittenRule) :
    (printed.flatMap WrittenRule.text).foldlM step { rules } =
      some { rules := rules ++ printed } := by
  induction printed generalizing rules with
  | nil => simp
  | cons rule rest ih =>
      rw [List.forall_mem_cons] at readable
      rw [List.flatMap_cons, List.foldlM_append, foldlM_rule readable.1.1 readable.1.2,
        Option.bind_eq_bind, Option.bind_some, ih readable.2]
      simp

end Sheet.Reader

namespace Sheet

/-- A style sheet is read as it was written. -/
theorem read_text {printed : List WrittenRule}
    (hasDeclarations : ∀ rule ∈ printed, rule.declarations ≠ [])
    (readable : ∀ rule ∈ printed, rule.IsReadable) :
    read (printed.flatMap WrittenRule.text) = some printed := by
  have both : ∀ rule ∈ printed, rule.IsReadable ∧ rule.declarations ≠ [] :=
    fun rule isRule => ⟨readable rule isRule, hasDeclarations rule isRule⟩
  rw [read, Reader.foldlM_rules both]
  simp [Reader.finish]

/-! ## Style sheets of classes whose queries have selectors -/

theorem declarations_ne_nil_of_mem_block {wrapper : Option Text} {selector : Text}
    {declarations : List (Text × Text)} {rule : WrittenRule}
    (isRule : rule ∈ block wrapper selector declarations) : rule.declarations ≠ [] := by
  rw [block] at isRule
  split at isRule
  · simp at isRule
  next hasDeclarations =>
    rw [List.mem_singleton.mp isRule]
    exact hasDeclarations

theorem declarations_ne_nil_of_mem_ofSelector {owner selector : Text} {own : List (Text × Text)}
    {style : Style} {rule : WrittenRule} (isRule : rule ∈ ofSelector owner selector own style) :
    rule.declarations ≠ [] := by
  simp only [ofSelector, List.mem_append, List.mem_flatMap] at isRule
  rcases isRule with (((((isOwn | ⟨_, _, isState⟩) | ⟨_, _, isPlugin⟩) | ⟨_, _, isScreen⟩) |
    ⟨_, _, isContainer⟩) | ⟨_, _, isPluginContainer⟩) | ⟨_, _, isElement⟩
  all_goals exact declarations_ne_nil_of_mem_block ‹_›

end Sheet

/-- The query and all queries inside it have a selector below the parent's. -/
inductive QueryTree.Resolves (names : OrderedMap Text Text) : Text → QueryTree → Prop
  | node {parent selector written : Text} {lines : List Text} {style : Style}
      {children : List QueryTree} (nests : Selector.nest names parent written = .ok selector)
      (inner : ∀ child ∈ children, Resolves names selector child) :
      Resolves names parent (.node written lines style children)

namespace Sheet

variable {names : OrderedMap Text Text} (owner : Text)

theorem exists_ofQueries {parent : Text} (queries : List QueryTree)
    (resolve : ∀ query ∈ queries, query.Resolves names parent) :
    ∃ printed, ofQueries names owner parent queries = .ok printed ∧
      ∀ rule ∈ printed, rule.declarations ≠ [] := by
  induction queries using QueryTree.forest_induction generalizing parent with
  | nil => exact ⟨[], rfl, by simp⟩
  | cons written lines style children rest ofChildren ofRest =>
      rw [List.forall_mem_cons] at resolve
      obtain ⟨@⟨_, selector, _, _, _, _, nests, inner⟩, resolveRest⟩ := resolve
      obtain ⟨nested, isNested, nestedDeclares⟩ := ofChildren inner
      obtain ⟨more, isMore, moreDeclares⟩ := ofRest resolveRest
      refine ⟨ofSelector owner selector style.base.entries style ++ nested ++ more, ?_, ?_⟩
      · rw [ofQueries, ofQuery, nests]
        simp [bind, Except.bind, isNested, isMore, pure, Except.pure]
      · simp only [List.forall_mem_append]
        exact ⟨⟨fun rule => declarations_ne_nil_of_mem_ofSelector, nestedDeclares⟩, moreDeclares⟩

theorem exists_ofClass {display : Text} {queries : List QueryTree}
    (resolve : ∀ query ∈ queries, query.Resolves names ("." ++ display)) (style : Style) :
    ∃ printed, ofClass names display style queries = .ok printed ∧
      ∀ rule ∈ printed, rule.declarations ≠ [] := by
  obtain ⟨nested, isNested, hasDeclarations⟩ := exists_ofQueries display queries resolve
  refine ⟨block none ":root" style.rootVariables.entries ++
    ofSelector display ("." ++ display) (ownDeclarations display style) style ++ nested, ?_, ?_⟩
  · rw [ofClass, isNested]
    rfl
  · intro rule isRule
    rw [List.mem_append, List.mem_append] at isRule
    rcases isRule with (isRoot | isOwn) | isNested
    · exact declarations_ne_nil_of_mem_block isRoot
    · exact declarations_ne_nil_of_mem_ofSelector isOwn
    · exact hasDeclarations rule isNested

/-- The rules that are emitted for a class print the described style sheet, rule for rule, and a
style sheet without delimiters in its parts is read back as it was described. -/
theorem read_renderRules_classRules {names : OrderedMap Text Text} {display : Text}
    {queries : List QueryTree}
    (resolve : ∀ query ∈ queries, query.Resolves names ("." ++ display)) (style : Style) :
    ∃ rules printed, classRules names display style queries = .ok rules ∧
      ofClass names display style queries = .ok printed ∧
      renderRules rules = printed.flatMap WrittenRule.text ∧
      ((∀ rule ∈ printed, rule.IsReadable) → read (renderRules rules) = some printed) := by
  obtain ⟨printed, isPrinted, hasDeclarations⟩ := exists_ofClass resolve style
  have emitted := map_written_classRules names display style queries
  rw [isPrinted] at emitted
  cases isEmitted : classRules names display style queries with
  | error error => simp [isEmitted, Except.map] at emitted
  | ok rules =>
      have same : rules.map Rule.written = printed := by
        simpa [isEmitted, Except.map] using emitted
      have isText : renderRules rules = printed.flatMap WrittenRule.text := by
        rw [← same, text_map_written]
      refine ⟨rules, printed, rfl, isPrinted, isText, ?_⟩
      intro readable
      rw [isText]
      exact read_text hasDeclarations readable

/-- A class with a local variable, a condition on the screen and a query inside a query that names
another class: the inner selector is resolved below the outer one. -/
theorem read_renderRules_classRules_nested :
    ∃ rules, classRules (OrderedMap.ofList [("b", "b-s")]) "a-s"
        { base := OrderedMap.ofList [("width", "⟦&:w⟧")]
          screens :=
            [{ query := "(min-width:9px)", properties := OrderedMap.ofList [("gap", "0")] }]
          localVariables := OrderedMap.ofList [("w", "1px")] }
        [.node "&>⟦@:b⟧" []
          { states := OrderedMap.ofList [("hover", OrderedMap.ofList [("top", "0")])] }
          [.node "p" [] { base := OrderedMap.ofList [("left", "⟦&:w⟧")] } []]] = .ok rules ∧
      read (renderRules rules) = some
        [{ wrapper := none, selector := ".a-s"
           declarations := [("--w-a-s", "1px"), ("width", "var(--w-a-s)")] },
          { wrapper := some "@media only screen and (min-width:9px)", selector := ".a-s"
            declarations := [("gap", "0")] },
          { wrapper := none, selector := ".a-s>.b-s:hover", declarations := [("top", "0")] },
          { wrapper := none, selector := ".a-s>.b-s p"
            declarations := [("left", "var(--w-a-s)")] }] := by
  have described : ∀ {names : OrderedMap Text Text} {display : Text} {style : Style}
      {queries : List QueryTree} {printed : List WrittenRule},
      (∀ query ∈ queries, query.Resolves names ("." ++ display)) →
      ofClass names display style queries = .ok printed → (∀ rule ∈ printed, rule.IsReadable) →
      ∃ rules, classRules names display style queries = .ok rules ∧
        read (renderRules rules) = some printed := by
    intro names display style queries printed resolve isPrinted readable
    obtain ⟨rules, listed, emitted, isListed, -, isRead⟩ :=
      read_renderRules_classRules resolve style
    obtain rfl : listed = printed := by simpa [isListed] using isPrinted
    exact ⟨rules, emitted, isRead readable⟩
  have outerNests : Selector.nest (OrderedMap.ofList [("b", "b-s")]) ".a-s" "&>⟦@:b⟧" =
      .ok ".a-s>.b-s" := by decide +kernel
  have innerNests : Selector.nest (OrderedMap.ofList [("b", "b-s")]) ".a-s>.b-s" "p" =
      .ok ".a-s>.b-s p" := by decide +kernel
  apply described
  · intro query isQuery
    rw [List.mem_singleton.mp isQuery]
    refine .node outerNests ?_
    intro child isChild
    rw [List.mem_singleton.mp isChild]
    exact .node innerNests (by simp)
  · decide +kernel
  · decide +kernel

end Sheet

end TerseStyle

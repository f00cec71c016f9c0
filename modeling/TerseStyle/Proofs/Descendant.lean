import TerseStyle.Proofs.Section

/-!
# Nested selectors and their class

A selector is a list of alternatives: a comma that stands in no bracket and in no string separates
two of them. Nesting puts the selector of the parent in front of the whole text, that is in front of
the first alternative only. So a nested selector stays inside its parent exactly if the parent is a
single alternative and every alternative after the first names the parent already
(`QueryTree.inside_class_iff`), and the same holds of every rule of the query, of the queries inside
it, and of the class that owns them all.
-/

namespace TerseStyle

namespace Selector

/-! ## Alternatives -/

/-- What is open at a place of a selector: brackets, a string with its quote, and an escape. -/
structure Reading where
  depth : Nat := 0
  quote : Option CodePoint := none
  escaped : Bool := false
  deriving DecidableEq

namespace Reading

/-- What is open after one more character. -/
def next (reading : Reading) (c : CodePoint) : Reading :=
  if reading.escaped then { reading with escaped := false }
  else if c = .char '\\' then { reading with escaped := true }
  else if reading.quote = some c then { reading with quote := none }
  else if reading.quote.isSome then reading
  else if c ∈ ("\"'" : Text) then { reading with quote := some c }
  else if c ∈ ("([" : Text) then { reading with depth := reading.depth + 1 }
  else if c ∈ (")]" : Text) then { reading with depth := reading.depth - 1 }
  else reading

/-- What is open after a text. -/
def after (reading : Reading) (text : Text) : Reading :=
  text.foldl next reading

@[simp]
theorem after_nil (reading : Reading) : reading.after [] = reading := rfl

@[simp]
theorem after_cons (reading : Reading) (c : CodePoint) (rest : Text) :
    reading.after (c :: rest) = (reading.next c).after rest := rfl

@[simp]
theorem after_append (reading : Reading) (left right : Text) :
    reading.after (left ++ right) = (reading.after left).after right :=
  List.foldl_append

/-- Characters that open and close nothing and separate nothing. -/
def IsPlain (c : CodePoint) : Prop :=
  c ∉ ("\\\"'([)]," : Text)

instance (c : CodePoint) : Decidable (IsPlain c) :=
  inferInstanceAs (Decidable (c ∉ ("\\\"'([)]," : Text)))

theorem isPlain_of_isNameChar {c : CodePoint} (isName : isNameChar c = true) : IsPlain c := by
  have noneIsName : ∀ c ∈ ("\\\"'([)]," : Text), isNameChar c = false := by decide
  intro isSpecial
  rw [noneIsName c isSpecial] at isName
  exact absurd isName (by simp)

theorem isPlain_of_isBlank {c : CodePoint} (blank : isBlank c = true) : IsPlain c := by
  have noneIsBlank : ∀ c ∈ ("\\\"'([)]," : Text), isBlank c = false := by decide
  intro isSpecial
  rw [noneIsBlank c isSpecial] at blank
  exact absurd blank (by simp)

theorem after_of_isPlain {text : Text} (plain : ∀ c ∈ text, IsPlain c) :
    Reading.after {} text = {} := by
  induction text with
  | nil => rfl
  | cons c rest ih =>
      rw [List.forall_mem_cons] at plain
      have stays : Reading.next {} c = {} := by
        have notSpecial := plain.1
        simp only [IsPlain, Text.ofString, Text.ofChars] at notSpecial
        simp [next, Text.ofString, Text.ofChars] at notSpecial ⊢
        simp [notSpecial]
      rw [after_cons, stays, ih plain.2]

end Reading

/-- The alternative that a text begins with. -/
def first (reading : Reading) : Text → Text
  | [] => []
  | c :: rest =>
    if reading = {} ∧ c = .char ',' then [] else c :: first (reading.next c) rest

/-- The alternatives after the one that a text begins with. -/
def later (reading : Reading) : Text → List Text
  | [] => []
  | c :: rest =>
    if reading = {} ∧ c = .char ',' then first {} rest :: later {} rest
    else later (reading.next c) rest

/-- The alternatives of a selector. -/
def alternatives (selector : Text) : List Text :=
  first {} selector :: later {} selector

/-- The alternatives after the first of a selector that is put behind a parent. -/
def behind (parent selector : Text) : List Text :=
  later (Reading.after {} (parent ++ " ")) selector

variable {reading : Reading} {text left right parent alternative : Text}

theorem first_append (single : first reading left = left) (right : Text) :
    first reading (left ++ right) = left ++ first (reading.after left) right := by
  induction left generalizing reading with
  | nil => rfl
  | cons c rest ih =>
      rw [first] at single
      split at single
      · simp at single
      · next joins =>
        rw [List.cons_append, first, if_neg joins,
          ih (List.cons.inj single).2, Reading.after_cons, List.cons_append]

theorem later_append (single : first reading left = left) (right : Text) :
    later reading (left ++ right) = later (reading.after left) right := by
  induction left generalizing reading with
  | nil => rfl
  | cons c rest ih =>
      rw [first] at single
      split at single
      · simp at single
      · next joins =>
        rw [List.cons_append, later, if_neg joins,
          ih (List.cons.inj single).2, Reading.after_cons]

theorem first_append_eq_iff :
    first reading (left ++ right) = left ++ right ↔
      first reading left = left ∧ first (reading.after left) right = right := by
  induction left generalizing reading with
  | nil => simp [first]
  | cons c rest ih =>
      rw [List.cons_append, first, first]
      split
      · simp
      · rw [List.cons.injEq, List.cons.injEq, ih, Reading.after_cons, and_assoc]

theorem first_first (reading : Reading) (text : Text) :
    first reading (first reading text) = first reading text := by
  induction text generalizing reading with
  | nil => rfl
  | cons c rest ih =>
      rw [first]
      split
      · rfl
      · next joins => rw [first, if_neg joins, ih]

theorem first_of_mem_later (isLater : alternative ∈ later reading text) :
    first {} alternative = alternative := by
  induction text generalizing reading with
  | nil => simp [later] at isLater
  | cons c rest ih =>
      rw [later] at isLater
      split at isLater
      · rcases List.mem_cons.mp isLater with rfl | isLater
        · exact first_first {} rest
        · exact ih isLater
      · exact ih isLater

theorem first_of_mem_alternatives (isAlternative : alternative ∈ alternatives text) :
    first {} alternative = alternative := by
  rcases List.mem_cons.mp isAlternative with rfl | isLater
  · exact first_first {} text
  · exact first_of_mem_later isLater

theorem later_eq_nil_iff : later reading text = [] ↔ first reading text = text := by
  induction text generalizing reading with
  | nil => simp [first, later]
  | cons c rest ih =>
      rw [first, later]
      split
      · simp
      · simp [ih]

theorem alternatives_eq_singleton_iff : alternatives text = [text] ↔ first {} text = text := by
  rw [alternatives, List.cons.injEq, later_eq_nil_iff, and_self]

theorem first_of_not_mem (noComma : CodePoint.char ',' ∉ text) : first reading text = text := by
  induction text generalizing reading with
  | nil => rfl
  | cons c rest ih =>
      rw [List.mem_cons, not_or] at noComma
      rw [first, if_neg fun separates => noComma.1 separates.2.symm, ih noComma.2]

/-! ## Alternatives inside a parent -/

/-- Up to blanks, the alternative begins with the parent and a space. -/
def Descends (parent alternative : Text) : Prop :=
  ∃ gap rest, (∀ c ∈ gap, isBlank c = true) ∧ alternative = gap ++ (parent ++ " " ++ rest)

/-- Somewhere in the alternative stands the parent with a space after it, and before it nothing or a
blank: only what is inside such an element is addressed. -/
def Inside (parent alternative : Text) : Prop :=
  ∃ front rest, Reading.after {} front = {} ∧ (∀ c ∈ front.getLast?, isBlank c = true) ∧
    alternative = front ++ (parent ++ " " ++ rest)

theorem Descends.inside (descends : Descends parent alternative) : Inside parent alternative := by
  rcases descends with ⟨gap, rest, blanks, rfl⟩
  refine ⟨gap, rest, Reading.after_of_isPlain fun c isChar =>
    Reading.isPlain_of_isBlank (blanks c isChar), ?_, rfl⟩
  intro c isLast
  exact blanks c (List.mem_of_getLast? isLast)

theorem Inside.length_lt (inside : Inside parent alternative) :
    parent.length < alternative.length := by
  rcases inside with ⟨front, rest, _, _, rfl⟩
  simp only [List.length_append]
  have isOne : (" " : Text).length = 1 := rfl
  omega

theorem Inside.first_parent (inside : Inside parent alternative)
    (single : first {} alternative = alternative) : first {} parent = parent := by
  rcases inside with ⟨front, rest, closed, _, rfl⟩
  rw [first_append_eq_iff, closed, List.append_assoc, first_append_eq_iff] at single
  exact single.2.1

/-- The alternatives of a text that begins with a parent: for the first of them it is enough that
the parent is a single one. -/
theorem forall_alternatives_iff {IsGood : Text → Prop} {front inner : Text}
    (plain : ∀ c ∈ front, Reading.IsPlain c)
    (begins : ∀ rest, IsGood (front ++ (parent ++ " " ++ rest)))
    (inside : ∀ alternative, IsGood alternative → Inside parent alternative) :
    (∀ alternative ∈ alternatives (front ++ (parent ++ " " ++ inner)), IsGood alternative) ↔
      alternatives parent = [parent] ∧
        ∀ alternative ∈ behind parent inner, IsGood alternative := by
  have closed := Reading.after_of_isPlain plain
  have singleFront : first {} front = front := by
    apply first_of_not_mem
    intro isChar
    exact plain _ isChar (by decide)
  have withSpace : ∀ single : first {} parent = parent,
      first {} (parent ++ (" " : Text)) = parent ++ " " := by
    intro single
    rw [first_append_eq_iff]
    exact ⟨single, first_of_not_mem (by decide)⟩
  rw [alternatives_eq_singleton_iff]
  constructor
  · intro good
    have single : first {} parent = parent := by
      have isHead : first {} (front ++ (parent ++ " " ++ inner)) ∈
          alternatives (front ++ (parent ++ " " ++ inner)) := List.mem_cons_self
      exact (inside _ (good _ isHead)).first_parent (first_of_mem_alternatives isHead)
    refine ⟨single, fun alternative isLater => good alternative (List.mem_cons_of_mem _ ?_)⟩
    rwa [later_append singleFront, closed, later_append (withSpace single)]
  · rintro ⟨single, good⟩
    rw [alternatives, first_append singleFront, later_append singleFront, closed,
      first_append (withSpace single), later_append (withSpace single), List.forall_mem_cons]
    exact ⟨begins _, good⟩

/-- What is put after a selector belongs to its last alternative. -/
theorem forall_alternatives_append_iff {IsGood : Text → Prop} {back : Text}
    (noComma : CodePoint.char ',' ∉ back)
    (keeps : ∀ alternative, IsGood (alternative ++ back) ↔ IsGood alternative) :
    (∀ alternative ∈ alternatives (text ++ back), IsGood alternative) ↔
      ∀ alternative ∈ alternatives text, IsGood alternative := by
  have general : ∀ reading before,
      (IsGood (before ++ first reading (text ++ back)) ∧
        ∀ alternative ∈ later reading (text ++ back), IsGood alternative) ↔
      (IsGood (before ++ first reading text) ∧
        ∀ alternative ∈ later reading text, IsGood alternative) := by
    induction text with
    | nil =>
        intro reading before
        have single : first reading back = back := first_of_not_mem noComma
        rw [List.nil_append, single, later_eq_nil_iff.mpr single, keeps, first, later,
          List.append_nil]
    | cons c rest ih =>
        intro reading before
        rw [List.cons_append, first, first, later, later]
        split
        · rw [List.forall_mem_cons, List.forall_mem_cons]
          exact and_congr_right fun _ => ih {} []
        · have onwards := ih (reading.next c) (before ++ [c])
          rwa [← List.append_cons, ← List.append_cons] at onwards
  rw [alternatives, alternatives, List.forall_mem_cons, List.forall_mem_cons]
  exact general {} []

theorem inside_append_iff {back : Text} (noSpace : CodePoint.char ' ' ∉ back) :
    Inside parent (alternative ++ back) ↔ Inside parent alternative := by
  constructor
  · rintro ⟨front, rest, closed, ends, isBoth⟩
    rw [← List.append_assoc, ← List.append_assoc] at isBoth
    rcases List.append_eq_append_iff.mp isBoth with ⟨more, isStart, isBack⟩ | ⟨more, rfl, _⟩
    · -- The space would stand in what is put after the alternative.
      rcases List.eq_nil_or_concat more with rfl | ⟨others, last, rfl⟩
      · rw [List.append_nil] at isStart
        exact ⟨front, [], closed, ends, by simp [← isStart]⟩
      · have isLast : last = .char ' ' := by
          rw [List.concat_eq_append, ← List.append_assoc] at isStart
          exact (List.singleton_inj.mp (List.append_inj_right' isStart rfl)).symm
        exact absurd (by simp [isBack, isLast]) noSpace
    · exact ⟨front, more, closed, ends, by simp⟩
  · rintro ⟨front, rest, closed, ends, rfl⟩
    exact ⟨front, rest ++ back, closed, ends, by simp⟩

/-! ## Nesting -/

/-- The selector with the classes of the source in it. -/
def resolve (names : OrderedMap Text Text) (selector : Text) : Except Error Text :=
  Reference.resolveScope (ofClass names) (Text.trim selector)

variable {names : OrderedMap Text Text} {parent selector resolved nested : Text}

/-- A character that a selector does not have can come in with the name of a class only. -/
theorem mem_of_resolve (resolves : resolve names selector = .ok resolved) {c : CodePoint}
    (isChar : c ∈ resolved) (isNew : c ∉ selector) :
    c = .char '.' ∨ ∃ display ∈ names.values, c ∈ display := by
  rw [resolve, Reference.resolveScope, Text.replaceItemsM, map_eq_ok] at resolves
  rcases resolves with ⟨parts, makes, rfl⟩
  rcases List.mem_flatten.mp isChar with ⟨part, isPart, inPart⟩
  rcases exists_of_mem_mapM makes isPart with ⟨piece, isPiece, rendered⟩
  rcases Text.mem_pieces isPiece with ⟨d, inText, rfl⟩ |
    ⟨suffix, width, reference, isSuffix, found, rfl⟩
  · rw [Piece.renderM, Except.ok.injEq] at rendered
    rw [← rendered, List.mem_singleton] at inPart
    exact absurd (Text.mem_of_mem_trim (inPart ▸ inText)) isNew
  · have kept : part = reference.render → c ∈ selector := by
      rintro rfl
      rcases Option.map_eq_some_iff.mp found with ⟨other, isRead, same⟩
      rw [← (Prod.mk.inj same).1] at inPart
      rcases (Reference.read?_eq_some isRead).2 with ⟨rest, rfl⟩
      exact Text.mem_of_mem_trim (isSuffix.subset (List.mem_append_left rest inPart))
    cases reference with
    | runtime name block => exact absurd (kept (Except.ok.inj rendered).symm) isNew
    | localVariable name => exact absurd (kept (Except.ok.inj rendered).symm) isNew
    | scope name =>
        simp only [Piece.renderM, ofClass] at rendered
        split at rendered
        · next display isClass =>
          rw [Except.ok.injEq] at rendered
          rw [← rendered] at inPart
          rcases List.mem_append.mp inPart with isDot | inDisplay
          · exact Or.inl (List.mem_singleton.mp isDot)
          · exact Or.inr ⟨display, List.mem_map_of_mem (OrderedMap.get?_eq_some_iff.mp isClass),
              inDisplay⟩
        · simp at rendered

theorem nest_eq_ok_iff : nest names parent selector = .ok nested ↔
    ∃ resolved, resolve names selector = .ok resolved ∧
      nested = if CodePoint.char '&' ∈ resolved then Text.replaceChar '&' parent resolved
        else parent ++ " " ++ resolved := by
  rw [nest, map_eq_ok]
  exact exists_congr fun resolved => and_congr_right fun _ => eq_comm

end Selector

/-! ## Labels -/

/-- Every label is part of one compound selector, and the classes of plugin containers are names. -/
structure Style.HasPlainLabels (style : Style) : Prop where
  labels : ∀ label ∈ style.labels, Vocabulary.IsCompound label
  containers : ∀ name ∈ style.pluginContainers.keys, ∀ c ∈ name, isNameChar c = true

/-- The labels of every fragment of the theme are plain. -/
def Theme.HasPlainLabels (theme : Theme) : Prop :=
  ∀ group variant fragment, theme.fragment? group variant = some fragment →
    fragment.HasPlainLabels

namespace Style

theorem hasPlainLabels_of_labels {style : Style} (noLabels : style.labels = []) :
    style.HasPlainLabels := by
  refine ⟨by simp [noLabels], fun name isName => ?_⟩
  have isLabel : name ∈ style.labels := by simp [labels, isName]
  simp [noLabels] at isLabel

theorem HasPlainLabels.append {left right : Style} (ofLeft : left.HasPlainLabels)
    (ofRight : right.HasPlainLabels) : (left ++ right).HasPlainLabels where
  labels label isLabel :=
    (mem_labels_append isLabel).elim (ofLeft.labels label) (ofRight.labels label)
  containers name isName :=
    (OrderedMap.mem_keys_mergeWith.mp isName).elim (ofLeft.containers name)
      (ofRight.containers name)

theorem HasPlainLabels.shared {fragment : Style} (plain : fragment.HasPlainLabels) :
    fragment.shared.HasPlainLabels :=
  ⟨plain.labels, plain.containers⟩

end Style

theorem Slot.hasPlainLabels_place {slot : Slot} (wellFormed : slot.WellFormed) (body : Body) :
    (slot.place body).HasPlainLabels where
  labels label isLabel := by
    rcases of_mem_labels_place isLabel with rfl | ⟨name, rfl⟩
    · exact wellFormed.areBlockChars.isCompound
    · exact (wellFormed.selector name label rfl).2
  containers name isName c isChar := by
    have isBlock : name = slot.target.block := by
      cases slot <;> simp_all [place, target, Target.insideBlock]
    exact (wellFormed.areBlockChars c (isBlock ▸ isChar)).1

variable {environment : Environment} {constants : Constants}

theorem Contributes.hasPlainLabels {isDeclared : Text → Bool} {contribution : Style}
    (contributes : Contributes environment (.topLevel isDeclared) contribution)
    (plainTheme : environment.theme.HasPlainLabels) : contribution.HasPlainLabels := by
  induction contributes with
  | both _ _ first second => exact first.append second
  | nothing | properties | runtime => exact Style.hasPlainLabels_of_labels rfl
  | localVariable _ takesLocals =>
      cases takesLocals
      exact Style.hasPlainLabels_of_labels rfl
  | @fragment _ _ fragment important _ isFragment =>
      have plain := (plainTheme _ _ fragment isFragment).shared
      cases important with
      | false => exact plain
      | true => exact plain.append (Style.hasPlainLabels_of_labels rfl)

theorem Contribution.hasPlainLabels {statement : Text} {contribution : Style}
    (contributes : Contribution environment statement contribution)
    (plainTheme : environment.theme.HasPlainLabels) : contribution.HasPlainLabels := by
  cases contributes with
  | flat _ contributes => exact contributes.hasPlainLabels plainTheme
  | slotted isSlot _ => exact Slot.hasPlainLabels_place (Slot.wellFormed_of_ofHead? isSlot) _
  | mentioned => exact Style.hasPlainLabels_of_labels rfl
  | @conditional kind => cases kind <;> exact Style.hasPlainLabels_of_labels rfl

theorem Theme.hasPlainLabels_of_ofTexts {texts : Theme.Texts} {theme : Theme}
    (built : Theme.ofTexts texts = .ok theme) : theme.HasPlainLabels := by
  intro group variant fragment isFragment
  rcases exists_text_of_fragment? built isFragment with ⟨_, _, text, _, compiles⟩
  rw [Fragment.compileText, Attempt.toExcept_eq_ok] at compiles
  have isState := congrArg Attempt.state compiles
  rw [show fragment = _ from isState.symm]
  apply Style.dispatchBody_induction Style.HasPlainLabels
  · intro style contribution _ _ plain contributes
    apply plain.append (contributes.hasPlainLabels _)
    intro group variant fragment isFragment
    simp [fragment?] at isFragment
  · exact Style.hasPlainLabels_of_labels rfl

theorem Source.hasPlainLabels_of_compileConstants (plainTheme : environment.theme.HasPlainLabels)
    {blocks : List ConstantBlock} (compiles : compileConstants environment blocks = .ok constants) :
    ∀ fragment ∈ constants.values, fragment.HasPlainLabels := by
  intro fragment isFragment
  rcases exists_block_of_compileConstants compiles isFragment with ⟨block, _, rfl⟩
  apply Style.dispatchAll_induction Style.HasPlainLabels
  · intro style contribution _ _ plain contributes
    exact plain.append (contributes.hasPlainLabels plainTheme)
  · exact Style.hasPlainLabels_of_labels rfl

/-- What a source gives to the queries of its classes is plain, whatever blocks they have. -/
theorem Source.hasPlainLabels_of_compileClass (plainTheme : environment.theme.HasPlainLabels)
    (plainConstants : ∀ fragment ∈ constants.values, fragment.HasPlainLabels) {scope : Text}
    {block : ClassBlock} {item : CompiledClass}
    (compiles : compileClass environment scope constants block = .ok item) :
    QueryTree.Every (fun query => query.style.HasPlainLabels) item.queries := by
  rcases exists_forest_of_compileClass compiles with ⟨lines, forest, parsed, isForest⟩
  have fresh : QueryTree.Every (fun query => query.style = ∅) forest := fun query isQuery =>
    (((QueryTree.reports_parse (fun _ _ => trivial) fun _ _ => trivial).of_ok parsed).2 query
      isQuery : query.ReadFrom (fun _ => True) fun _ => True).style
  have step : QueryTree.LinesLead environment constants (fun query => query.style = ∅)
      fun _ style => style.HasPlainLabels := by
    intro selector lines style children isEmpty
    apply Style.dispatchLines_induction Style.HasPlainLabels
    · intro style fragment isConstant plain
      exact plain.append (plainConstants fragment isConstant).shared
    · intro style contribution _ _ plain contributes
      exact plain.append (contributes.hasPlainLabels plainTheme)
    · rw [show style = ∅ from isEmpty]
      exact Style.hasPlainLabels_of_labels rfl
  have every := QueryTree.every_compileForest step forest fresh (by rw [isForest])
  rwa [isForest] at every

/-! ## Rules -/

open Selector

namespace Style

variable {style : Style} {owner selector : Text} {own : Properties} {rule : Rule}

/-- The selector of a rule is framed if what stands around the selector of its owner opens and
separates nothing: a class that the owner is in, or a label. -/
def Frames (selector framed : Text) : Prop :=
  ∃ front back, framed = front ++ selector ++ back ∧ (∀ c ∈ front, Reading.IsPlain c) ∧
    (∀ c ∈ front.getLast?, isBlank c = true) ∧ CodePoint.char ',' ∉ back ∧
    CodePoint.char ' ' ∉ back

theorem frames_self (selector : Text) : Frames selector selector :=
  ⟨[], [], by simp, by simp, by simp, by simp, by simp⟩

theorem frames_label {mark label : Text} (ofMark : Vocabulary.IsCompound mark)
    (ofLabel : Vocabulary.IsCompound label) : Frames selector (selector ++ mark ++ label) := by
  refine ⟨[], mark ++ label, by simp, by simp, by simp, ?_, ?_⟩
  · rw [List.mem_append, not_or]
    exact ⟨ofMark.1, ofLabel.1⟩
  · rw [List.mem_append, not_or]
    exact ⟨ofMark.2, ofLabel.2⟩

theorem frames_container {containerClass : Text}
    (isName : ∀ c ∈ containerClass, isNameChar c = true) :
    Frames selector ("." ++ containerClass ++ " " ++ selector) := by
  refine ⟨"." ++ containerClass ++ " ", [], by simp, ?_, ?_, by simp, by simp⟩
  · intro c isChar
    rcases List.mem_append.mp isChar with isMark | isSpace
    · rcases List.mem_append.mp isMark with isDot | inClass
      · rw [List.mem_singleton.mp isDot]
        decide
      · exact Reading.isPlain_of_isNameChar (isName c inClass)
    · rw [List.mem_singleton.mp isSpace]
      decide
  · intro c isLast
    have isSpace : (" " : Text).getLast? = some c := by
      rwa [List.getLast?_append_of_ne_nil _ (by decide)] at isLast
    rw [← Option.some.inj isSpace]
    decide

theorem frames_of_selects (plain : style.HasPlainLabels) {framed : Text}
    (selects : style.Selects selector framed) : Frames selector framed := by
  cases selects with
  | own => exact frames_self selector
  | label isMark isLabel =>
      have ofMarks : ∀ mark ∈ [(":" : Text), ".", "::"], Vocabulary.IsCompound mark := by
        decide
      exact frames_label (ofMarks _ isMark) (plain.labels _ isLabel)
  | inside isContainer => exact frames_container (plain.containers _ isContainer)

theorem inside_rule_iff {parent inner : Text} (plain : style.HasPlainLabels)
    (isRule : rule ∈ style.rules owner (parent ++ " " ++ inner) own) :
    (∀ alternative ∈ alternatives rule.selector, Inside parent alternative) ↔
      alternatives parent = [parent] ∧
        ∀ alternative ∈ behind parent inner, Inside parent alternative := by
  rcases List.mem_map.mp isRule with ⟨written, isWritten, rfl⟩
  rcases frames_of_selects plain (mem_writtenRules isWritten).2 with
    ⟨front, back, isSelector, plainFront, ends, noComma, noSpace⟩
  rw [isSelector, forall_alternatives_append_iff noComma fun _ => inside_append_iff noSpace]
  apply forall_alternatives_iff plainFront _ fun _ inside => inside
  intro rest
  exact ⟨front, rest, Reading.after_of_isPlain plainFront, ends, rfl⟩

end Style

namespace QueryTree

variable {names : OrderedMap Text Text} {owner top parent : Text} {path : List Text}
  {queries : List QueryTree} {query : QueryTree} {made : List Rule}

theorem exists_of_rules_append {first second : List (Text × QueryTree)}
    (makes : rules names owner (first ++ second) = .ok made) :
    ∃ ofFirst ofSecond, rules names owner first = .ok ofFirst ∧
      rules names owner second = .ok ofSecond ∧ made = ofFirst ++ ofSecond := by
  induction first using rules.induct generalizing made with
  | case1 => exact ⟨[], made, by rw [rules], makes, rfl⟩
  | case2 parent written lines style children rest ih =>
      rw [List.cons_append, rules] at makes
      simp only [bind_eq_ok, pure, Except.pure, Except.ok.injEq] at makes
      rcases makes with ⟨selector, nests, more, makesMore, rfl⟩
      rw [← List.append_assoc] at makesMore
      rcases ih selector makesMore with
        ⟨ofFirst, ofSecond, makesFirst, makesSecond, rfl⟩
      refine ⟨style.rules owner selector style.base ++ ofFirst, ofSecond, ?_, makesSecond, by simp⟩
      rw [rules, nests, ok_bind, makesFirst]
      rfl

/-- Somewhere in a forest under a selector stands a query. Given are the selectors of the queries
around it, with the classes of the source in them, and the selector of its parent. -/
inductive Stands (names : OrderedMap Text Text) (top : Text) (queries : List QueryTree) :
    List Text → Text → QueryTree → Prop
  | outermost {query : QueryTree} (isQuery : query ∈ queries) :
      Stands names top queries [] top query
  | inner {path : List Text} {parent resolved selector : Text} {query child : QueryTree}
      (stands : Stands names top queries path parent query)
      (resolves : resolve names query.selector = .ok resolved)
      (nests : nest names parent query.selector = .ok selector) (isChild : child ∈ query.children) :
      Stands names top queries (path ++ [resolved]) selector child

/-- The rules of every query are among those of the forest. -/
theorem exists_selector_of_mem {siblings : List QueryTree}
    (makes : rules names owner (under parent siblings) = .ok made) (isQuery : query ∈ siblings) :
    ∃ selector ofChildren, nest names parent query.selector = .ok selector ∧
      rules names owner (under selector query.children) = .ok ofChildren ∧
      query.style.rules owner selector query.style.base ⊆ made ∧ ofChildren ⊆ made := by
  rcases List.append_of_mem isQuery with ⟨before, after, rfl⟩
  rw [under, List.map_append, List.map_cons] at makes
  rcases exists_of_rules_append makes with ⟨_, ofRest, _, makesRest, rfl⟩
  cases query with
  | node written lines style children =>
      rw [rules] at makesRest
      simp only [bind_eq_ok, pure, Except.pure, Except.ok.injEq] at makesRest
      rcases makesRest with ⟨selector, nests, more, makesMore, rfl⟩
      rcases exists_of_rules_append makesMore with ⟨ofChildren, _, makesChildren, _, rfl⟩
      refine ⟨selector, ofChildren, nests, makesChildren, ?_, ?_⟩
      · intro rule isRule
        simp only [QueryTree.style] at isRule
        simp [isRule]
      · intro rule isRule
        simp [isRule]

theorem Stands.exists_selector (stands : Stands names top queries path parent query)
    (makes : rules names owner (under top queries) = .ok made) :
    ∃ selector, nest names parent query.selector = .ok selector ∧
      query.style.rules owner selector query.style.base ⊆ made := by
  have ofSiblings : ∃ siblings ofThem, query ∈ siblings ∧
      rules names owner (under parent siblings) = .ok ofThem ∧ ofThem ⊆ made := by
    induction stands with
    | outermost isQuery => exact ⟨queries, made, isQuery, makes, List.Subset.refl _⟩
    | @inner _ parent _ selector query _ _ _ nests isChild ih =>
        rcases ih with ⟨siblings, ofThem, isQuery, makesThem, arePart⟩
        rcases exists_selector_of_mem makesThem isQuery with
          ⟨other, ofChildren, nestsToo, makesChildren, _, childrenArePart⟩
        rw [nests, Except.ok.injEq] at nestsToo
        rw [← nestsToo] at makesChildren
        exact ⟨query.children, ofChildren, isChild, makesChildren,
          List.Subset.trans childrenArePart arePart⟩
  rcases ofSiblings with ⟨siblings, ofThem, isQuery, makesThem, arePart⟩
  rcases exists_selector_of_mem makesThem isQuery with ⟨selector, _, nests, _, rulesArePart, _⟩
  exact ⟨selector, nests, List.Subset.trans rulesArePart arePart⟩

theorem flatMap_eq_joinWith (separator : Text) {texts : List Text} (nonempty : texts ≠ []) :
    texts.flatMap (separator ++ ·) = separator ++ Text.joinWith separator texts := by
  induction texts using Text.joinWith.induct with
  | case1 => exact absurd rfl nonempty
  | case2 text => simp [Text.joinWith]
  | case3 text next rest ih =>
      rw [List.flatMap_cons, ih (List.cons_ne_nil _ _), Text.joinWith,
        List.append_assoc, List.append_assoc]

/-- Without `&` on the way, the selector of a query is that of the class with those of the queries
around it after it. -/
theorem Stands.parent_eq (stands : Stands names top queries path parent query)
    (plain : ∀ part ∈ path, CodePoint.char '&' ∉ part) :
    parent = top ++ path.flatMap ((" " : Text) ++ ·) := by
  induction stands with
  | outermost isQuery => simp
  | inner _ resolves nests _ ih =>
      rw [List.forall_mem_append, List.forall_mem_singleton] at plain
      rw [nest_eq_ok_iff] at nests
      rcases nests with ⟨other, resolvesToo, rfl⟩
      rw [resolves, Except.ok.injEq] at resolvesToo
      rw [← resolvesToo, if_neg plain.2, ih plain.1]
      simp

/-- A selector and the classes that it names, none of which has a `&` in it: it is put behind its
parent, and stays inside exactly if the parent is a single alternative and every alternative after
the first begins with the parent already. The rules of a query with this selector stay inside its
parent on the same condition, and inside the class if no query around has a `&` and the condition
holds of all their selectors together. Its labels have to be plain, which they are in every class
that is compiled in a source under a theme of texts. -/
theorem inside_class_iff {selector resolved : Text}
    (resolves : resolve names selector = .ok resolved) :
    (CodePoint.char '&' ∉ selector → CodePoint.char '&' ∈ resolved →
      ∃ display ∈ names.values, CodePoint.char '&' ∈ display) ∧
    (CodePoint.char '&' ∉ resolved →
      (∀ parent, ∃ nested, nest names parent selector = .ok nested ∧
        ((∀ alternative ∈ alternatives nested, Descends parent alternative) ↔
          alternatives parent = [parent] ∧
            ∀ alternative ∈ behind parent resolved, Descends parent alternative)) ∧
      ∀ display style queries made path parent query,
        classRules names display style queries = .ok made →
        Stands names ("." ++ display) queries path parent query → query.selector = selector →
        query.style.HasPlainLabels →
        ∃ nested, nest names parent selector = .ok nested ∧
          ∀ rule ∈ query.style.rules display nested query.style.base, rule ∈ made ∧
            ((∀ alternative ∈ alternatives rule.selector, Inside parent alternative) ↔
              alternatives parent = [parent] ∧
                ∀ alternative ∈ behind parent resolved, Inside parent alternative) ∧
            ((∀ part ∈ path, CodePoint.char '&' ∉ part) →
              ((∀ alternative ∈ alternatives rule.selector, Inside ("." ++ display) alternative) ↔
                alternatives ("." ++ display) = ["." ++ display] ∧
                  ∀ alternative ∈ behind ("." ++ display) (Text.joinWith " " (path ++ [resolved])),
                    Inside ("." ++ display) alternative))) ∧
    ∀ texts theme source environment constants block item, Theme.ofTexts texts = .ok theme →
      Source.environment theme source = .ok environment →
      Source.compileConstants environment source.constants = .ok constants →
      Source.compileClass environment source.scope constants block = .ok item →
      Every (fun query => query.style.HasPlainLabels) item.queries := by
  refine ⟨?_, ?_, ?_⟩
  · intro absent isChar
    exact (mem_of_resolve resolves isChar absent).resolve_left (by decide)
  · intro plain
    have nests : ∀ parent, nest names parent selector = .ok (parent ++ " " ++ resolved) := by
      intro parent
      rw [nest_eq_ok_iff]
      exact ⟨resolved, resolves, by rw [if_neg plain]⟩
    constructor
    · intro parent
      refine ⟨_, nests parent, ?_⟩
      rw [← List.nil_append (parent ++ (" " : Text) ++ resolved)]
      apply forall_alternatives_iff (by simp) _ fun _ descends => descends.inside
      intro rest
      exact ⟨[], rest, by simp, rfl⟩
    · rintro display style queries made path parent query makes stands rfl plainLabels
      refine ⟨_, nests parent, ?_⟩
      rw [classRules, map_eq_ok] at makes
      rcases makes with ⟨nested, makesNested, rfl⟩
      rcases stands.exists_selector makesNested with ⟨_, nestsToo, areRules⟩
      rw [nests parent, Except.ok.injEq] at nestsToo
      rw [← nestsToo] at areRules
      intro rule isRule
      refine ⟨List.mem_append_right _ (areRules isRule),
        Style.inside_rule_iff plainLabels isRule, ?_⟩
      intro plainPath
      have isWhole : parent ++ " " ++ resolved =
          "." ++ display ++ " " ++ Text.joinWith " " (path ++ [resolved]) := by
        have onwards := flatMap_eq_joinWith (" " : Text) (by simp : path ++ [resolved] ≠ [])
        rw [List.flatMap_append, List.flatMap_singleton] at onwards
        rw [stands.parent_eq plainPath, List.append_assoc, List.append_assoc, onwards]
        simp only [List.append_assoc]
      rw [isWhole] at isRule
      exact Style.inside_rule_iff plainLabels isRule
  · intro texts theme source environment constants block item built isEnvironment compilesConstants
    have plainTheme := Theme.hasPlainLabels_of_ofTexts built
    rw [← Source.theme_of_environment isEnvironment] at plainTheme
    exact Source.hasPlainLabels_of_compileClass plainTheme
      (Source.hasPlainLabels_of_compileConstants plainTheme compilesConstants)

/-- The second alternative leaves the query around it, but not the class, which it names. -/
theorem inside_class_iff_scope :
    let names : OrderedMap Text Text := .ofList [("x", "x")]
    let mark : Text := "listboxPlugin-selected[aria-selected=\"true\"]"
    let red : Properties := .ofList [("color", "red")]
    let style : Style :=
      { pluginStates := .ofList [("option-selected", { selector := mark, properties := red })] }
    let query := node "b,⟦@:x⟧ c" [] style []
    let rule : Rule := { selector := ".x i b,.x c." ++ mark, declarations := red }
    Stands names ".x" [node "i" [] ∅ [query]] ["i"] ".x i" query ∧
      classRules names "x" ∅ [node "i" [] ∅ [query]] = .ok [rule] ∧
      alternatives rule.selector = ([".x i b", ".x c." ++ mark] : List Text) ∧
      (¬∀ alternative ∈ alternatives rule.selector, Inside ".x i" alternative) ∧
      ∀ alternative ∈ alternatives rule.selector, Inside ".x" alternative := by
  intro names mark red style query rule
  have stands : Stands names ".x" [node "i" [] ∅ [query]] ["i"] ".x i" query :=
    .inner (.outermost (List.mem_singleton_self _)) (by decide +kernel) (by decide +kernel)
      (List.mem_singleton_self _)
  have makes : classRules names "x" ∅ [node "i" [] ∅ [query]] = .ok [rule] := by decide +kernel
  have resolves : resolve names "b,⟦@:x⟧ c" = .ok "b,.x c" := by decide +kernel
  rcases ((inside_class_iff resolves).2.1 (by decide)).2 "x" ∅ _ _ ["i"] ".x i" query makes stands
    rfl ⟨by decide, by decide⟩ with ⟨nested, nests, ofRules⟩
  have isNested : nest names ".x i" "b,⟦@:x⟧ c" = .ok ".x i b,.x c" := by decide +kernel
  rw [isNested, Except.ok.injEq] at nests
  rw [← nests] at ofRules
  rcases ofRules rule (by decide +kernel) with ⟨_, ofParent, ofClass⟩
  refine ⟨stands, makes, by decide +kernel, ?_, ?_⟩
  · rw [ofParent]
    rintro ⟨_, insideAll⟩
    have inside := insideAll ".x c" (by decide +kernel)
    exact absurd inside.length_lt (by decide)
  · have isOwner : ("." : Text) ++ "x" = ".x" := rfl
    rw [isOwner] at ofClass
    rw [ofClass (by decide)]
    refine ⟨by decide +kernel, ?_⟩
    have isLater : behind ".x" (Text.joinWith " " ([("i" : Text)] ++ [("b,.x c" : Text)])) =
        ([".x c"] : List Text) := by
      decide +kernel
    rw [isLater, List.forall_mem_singleton]
    exact ⟨[], "c", rfl, by simp, rfl⟩

set_option maxRecDepth 100000 in
/-- The second alternative of a selector leaves the class. -/
theorem not_inside_class_alternative :
    let text : Text := ".x \x7b @query a,b \x7bc[red]\x7d \x7d"
    let nested : Text := ".x a,b"
    nest ∅ ".x" "a,b" = .ok nested ∧
      TerseStyle.compile {} text = .ok (nested ++ "\x7bcolor:red;\x7d") ∧
      alternatives nested = ([".x a", "b"] : List Text) ∧ ¬Inside ".x" "b" ∧
      ¬Descends ".x" "b" := by
  intro text nested
  have outside : ¬Inside ".x" "b" := fun inside => absurd inside.length_lt (by decide)
  exact ⟨by decide +kernel, by decide +kernel, by decide +kernel, outside,
    fun descends => outside descends.inside⟩

end QueryTree

end TerseStyle

import TerseStyle.Proofs.Statement

/-!
# The grammar of brackets

A scan accepts exactly the texts of a grammar of nested groups (`Derives`). The grammar is given by
two tables: which characters stand at a level as themselves (`Level.Admits`), and which groups may
be opened there (`Level.Opens`). Inside a block a function needs the name of a function of values
right before it, and the name is looked up in the text of the block.

The state of a scan is described by `Unfinished`: for every open group, what stands before its
opener is unfinished in turn, and what follows the opener derives at the level of the group. One
character keeps the description (`Unfinished.step`), so it holds of every state that is reached,
and it says that all of the text derives once no group is open. For the other direction a
derivation is followed from any state at its level. The name before a parenthesis is the same one
for the scan, which has seen more than the block, because every group starts with a bracket.
-/

namespace TerseStyle

namespace Group

def opener : Group → CodePoint
  | value => .char '['
  | block | function => .char '('

def closer : Group → CodePoint
  | value => .char ']'
  | block | function => .char ')'

@[simp] theorem isNameChar_opener (group : Group) : isNameChar group.opener = false := by
  cases group <;> decide +kernel

end Group

/-- Where a character stands: outside every group, or directly inside one. -/
inductive Level where
  | plain
  | inside (group : Group)
  deriving Repr, DecidableEq

namespace Level

/-- The level that a stack of open groups leads to, the innermost group first. -/
def ofGroups : List Group → Level
  | [] => plain
  | innermost :: _ => inside innermost

/-- Whether a character stands for itself: it is no bracket, and neither a brace nor an at sign
directly inside a block. -/
def Admits (level : Level) (c : CodePoint) : Prop :=
  c ∉ ("()[]" : Text) ∧ (level = inside .block → c ∉ ("\x7b\x7d@" : Text))

/-- The groups that may be opened after the given text of the level. -/
inductive Opens : Level → Text → Group → Prop where
  | value (level : Level) (before : Text) : Opens level before .value
  | block (before : Text) : Opens plain before .block
  | functionOfValues {before : Text}
      (isFunction : before.rtakeWhile isNameChar ∈ Vocabulary.valueFunctions) :
      Opens (inside .block) before .function
  | functionInValue (before : Text) : Opens (inside .value) before .function
  | functionInFunction (before : Text) : Opens (inside .function) before .function

end Level

/-- The texts that may stand at a level: mixes of admitted characters and of closed groups. -/
inductive Derives : Level → Text → Prop where
  | empty (level : Level) : Derives level []
  | ordinary {level : Level} {before : Text} {c : CodePoint} (derives : Derives level before)
      (admitted : level.Admits c) : Derives level (before ++ [c])
  | group {level : Level} {before body : Text} {group : Group} (derives : Derives level before)
      (opened : level.Opens before group) (inner : Derives (.inside group) body) :
      Derives level (before ++ [group.opener] ++ body ++ [group.closer])

/-- The texts that lead to a stack of open groups, the innermost first. -/
inductive Unfinished : List Group → Text → Prop where
  | plain {text : Text} (derives : Derives .plain text) : Unfinished [] text
  | inside {outer : List Group} {before body : Text} {group : Group}
      (unfinished : Unfinished outer before) (opened : (Level.ofGroups outer).Opens before group)
      (derives : Derives (.inside group) body) :
      Unfinished (group :: outer) (before ++ [group.opener] ++ body)

/-- The levels that a scan is in, from the outermost to the innermost. A scan holds nothing but its
open groups, so every scan is plain at the outermost level and at no other. -/
def Scan.levels (scan : Scan) : List Level :=
  .plain :: scan.groups.reverse.map .inside

namespace Level

/-- A name does not reach into a text that ends with no name. -/
theorem rtakeWhile_append {before : Text} (ended : before.rtakeWhile isNameChar = [])
    (body : Text) : (before ++ body).rtakeWhile isNameChar = body.rtakeWhile isNameChar := by
  induction body using List.reverseRecOn with
  | nil => rw [List.append_nil, ended, List.rtakeWhile_nil]
  | append_singleton body c ih =>
      rw [← List.append_assoc, List.rtakeWhile_concat, List.rtakeWhile_concat, ih]

theorem rtakeWhile_append_opener (before : Text) (group : Group) :
    (before ++ [group.opener]).rtakeWhile isNameChar = [] :=
  List.rtakeWhile_concat_neg _ _ _ (by simp)

/-- What may be opened depends on the name before it, so only on the text of the level. -/
theorem opens_congr {level : Level} {before other : Text} {group : Group}
    (same : before.rtakeWhile isNameChar = other.rtakeWhile isNameChar)
    (opened : level.Opens before group) : level.Opens other group := by
  cases opened with
  | value => exact .value _ _
  | block => exact .block _
  | functionOfValues isFunction => exact .functionOfValues (same ▸ isFunction)
  | functionInValue => exact .functionInValue _
  | functionInFunction => exact .functionInFunction _

theorem admits_iff {level : Level} {c : CodePoint} :
    level.Admits c ↔ (c ≠ .char '[' ∧ c ≠ .char ']' ∧ c ≠ .char '(' ∧ c ≠ .char ')') ∧
      (level = inside .block → ¬(c = .char '\x7b' ∨ c = .char '\x7d' ∨ c = .char '@')) := by
  have brackets : ("()[]" : Text) = [.char '(', .char ')', .char '[', .char ']'] := rfl
  have others : ("\x7b\x7d@" : Text) = [.char '\x7b', .char '\x7d', .char '@'] := rfl
  simp only [Admits, brackets, others, List.mem_cons, List.not_mem_nil, or_false, not_or]
  tauto

end Level

namespace Scan

variable {scan next : Scan} {c : CodePoint} {text : Text}

theorem rtakeWhile_reverse_seen (scan : Scan) :
    scan.seen.reverse.rtakeWhile isNameChar = scan.nameBefore :=
  List.rtakeWhile_reverse

/-- Everything that a character can do to the open groups. -/
theorem cases_of_groupsAfter {groups : List Group} (after : scan.groupsAfter c = .ok groups) :
    (∃ group : Group, c = group.opener ∧ groups = group :: scan.groups ∧
      (Level.ofGroups scan.groups).Opens scan.seen.reverse group) ∨
    (∃ group : Group, c = group.closer ∧ scan.groups = group :: groups) ∨
    ((Level.ofGroups scan.groups).Admits c ∧ groups = scan.groups) := by
  have opens : ∀ group : Group, c = group.opener → Except.ok (group :: scan.groups) =
      (Except.ok groups : Except Cause (List Group)) →
      (Level.ofGroups scan.groups).Opens scan.seen.reverse group →
      (∃ group : Group, c = group.opener ∧ groups = group :: scan.groups ∧
        (Level.ofGroups scan.groups).Opens scan.seen.reverse group) := by
    intro group isOpener same opened
    exact ⟨group, isOpener, (Except.ok.inj same).symm, opened⟩
  unfold groupsAfter at after
  split at after
  · exact Or.inl (opens .value rfl after (.value _ _))
  · next outer isBefore =>
    rw [Except.ok.injEq] at after
    exact Or.inr (Or.inl ⟨.value, rfl, by rw [isBefore, after]⟩)
  · simp at after
  · next isBefore =>
    rw [← isBefore] at after
    exact Or.inl (opens .block rfl after (by rw [isBefore]; exact .block _))
  · next outer isBefore =>
    split at after
    · next isFunction =>
      rw [← isBefore] at after
      rw [← rtakeWhile_reverse_seen] at isFunction
      exact Or.inl (opens .function rfl after
        (by rw [isBefore]; exact .functionOfValues isFunction))
    · simp at after
  · next notTop notBlock =>
    refine Or.inl (opens .function rfl after ?_)
    cases isBefore : scan.groups with
    | nil => exact absurd isBefore notTop
    | cons innermost outer =>
        cases innermost with
        | block => exact absurd isBefore (notBlock outer)
        | value => exact .functionInValue _
        | function => exact .functionInFunction _
  · next outer isBefore =>
    rw [Except.ok.injEq] at after
    exact Or.inr (Or.inl ⟨.block, rfl, by rw [isBefore, after]⟩)
  · next outer isBefore =>
    rw [Except.ok.injEq] at after
    exact Or.inr (Or.inl ⟨.function, rfl, by rw [isBefore, after]⟩)
  · simp at after
  · next outer notOpen notClose notParen notCloseParen isBefore =>
    split at after
    · simp at after
    · next accepted =>
      rw [Except.ok.injEq, ← isBefore] at after
      refine Or.inr (Or.inr ⟨?_, after.symm⟩)
      exact Level.admits_iff.mpr ⟨⟨notOpen, notClose, notParen, notCloseParen⟩, fun _ => accepted⟩
  · next notOpen notClose notParen notCloseParen notBlock _ _ _ _ _ =>
    refine Or.inr (Or.inr ⟨Level.admits_iff.mpr ⟨⟨notOpen, notClose, notParen, notCloseParen⟩, ?_⟩,
      (Except.ok.inj after).symm⟩)
    intro isBlock
    cases isBefore : scan.groups with
    | nil => simp [isBefore, Level.ofGroups] at isBlock
    | cons innermost outer =>
        rw [isBefore, Level.ofGroups, Level.inside.injEq] at isBlock
        exact (notBlock outer (isBlock ▸ isBefore)).elim

theorem groupsAfter_opener {group : Group}
    (opened : (Level.ofGroups scan.groups).Opens scan.seen.reverse group) :
    scan.groupsAfter group.opener = .ok (group :: scan.groups) := by
  unfold groupsAfter
  cases isBefore : scan.groups with
  | nil =>
      rw [isBefore] at opened
      cases opened <;> rfl
  | cons innermost outer =>
      rw [isBefore] at opened
      cases opened with
      | value => rfl
      | functionOfValues isFunction =>
          rw [rtakeWhile_reverse_seen] at isFunction
          exact if_pos isFunction
      | functionInValue => rfl
      | functionInFunction => rfl

theorem groupsAfter_closer {group : Group} {outer : List Group}
    (isOpen : scan.groups = group :: outer) : scan.groupsAfter group.closer = .ok outer := by
  unfold groupsAfter
  rw [isOpen]
  cases group <;> rfl

theorem groupsAfter_of_admits (admitted : (Level.ofGroups scan.groups).Admits c) :
    scan.groupsAfter c = .ok scan.groups := by
  rcases Level.admits_iff.mp admitted with ⟨⟨notOpen, notClose, notParen, notCloseParen⟩, accepted⟩
  unfold groupsAfter
  split
  case h_10 outer _ _ _ _ isBefore =>
    rw [if_neg (accepted (by rw [isBefore]; rfl))]
    exact congrArg _ isBefore.symm
  all_goals first | rfl | contradiction

theorem groupsAfter_of_step (steps : scan.step c = .ok next) :
    scan.groupsAfter c = .ok next.groups ∧ next.seen = c :: scan.seen := by
  unfold step at steps
  split at steps
  · next groups after =>
    rw [Except.ok.injEq] at steps
    subst steps
    exact ⟨after, rfl⟩
  · simp at steps

theorem bracketDepth_of_step (steps : scan.step c = .ok next) :
    (c = .char '[' ∧ next.bracketDepth = scan.bracketDepth + 1) ∨
      (c = .char ']' ∧ scan.bracketDepth = next.bracketDepth + 1) ∨
      (c ≠ .char '[' ∧ c ≠ .char ']' ∧ next.bracketDepth = scan.bracketDepth) := by
  unfold bracketDepth
  rcases cases_of_groupsAfter (groupsAfter_of_step steps).1 with ⟨group, rfl, isGroups, _⟩ |
    ⟨group, rfl, isGroups⟩ | ⟨admitted, isGroups⟩
  · rw [isGroups]
    cases group <;> simp [Group.opener]
  · rw [isGroups]
    cases group <;> simp [Group.closer]
  · rcases (Level.admits_iff.mp admitted).1 with ⟨notOpen, notClose, _, _⟩
    exact Or.inr (Or.inr ⟨notOpen, notClose, by rw [isGroups]⟩)

theorem run_append {rest : Text} (runs : scan.run text = .ok next) :
    scan.run (text ++ rest) = next.run rest := by
  induction text generalizing scan with
  | nil =>
      rw [run, Except.ok.injEq] at runs
      rw [runs, List.nil_append]
  | cons c text ih =>
      rw [run] at runs
      rw [List.cons_append, run]
      split at runs
      · exact ih runs
      · simp at runs

theorem run_concat {last : Scan} (runs : scan.run text = .ok next)
    (after : next.groupsAfter c = .ok last.groups) (seen : last.seen = c :: next.seen) :
    scan.run (text ++ [c]) = .ok last := by
  rw [run_append runs, run, step, after, ← seen]
  rfl

theorem seen_of_run {last : Scan} (runs : scan.run text = .ok last) :
    last.seen = text.reverse ++ scan.seen := by
  induction text generalizing scan with
  | nil =>
      rw [run, Except.ok.injEq] at runs
      rw [← runs, List.reverse_nil, List.nil_append]
  | cons c text ih =>
      unfold run at runs
      split at runs
      · next steps =>
        rw [ih runs, (groupsAfter_of_step steps).2, List.reverse_cons,
          List.append_assoc, List.singleton_append]
      · simp at runs

end Scan

namespace Unfinished

variable {groups outer : List Group} {text body : Text} {group : Group} {c : CodePoint}

theorem ordinary (unfinished : Unfinished groups text)
    (admitted : (Level.ofGroups groups).Admits c) : Unfinished groups (text ++ [c]) := by
  cases unfinished with
  | plain derives => exact plain (derives.ordinary admitted)
  | inside unfinished opened derives =>
      rw [List.append_assoc]
      exact inside unfinished opened (derives.ordinary admitted)

theorem close (unfinished : Unfinished (group :: outer) text) :
    Unfinished outer (text ++ [group.closer]) := by
  cases unfinished with
  | inside unfinished opened inner =>
      cases unfinished with
      | plain derives => exact plain (derives.group opened inner)
      | inside unfinished openedAround derives =>
          have openedInside := Level.opens_congr
            (Level.rtakeWhile_append (Level.rtakeWhile_append_opener _ _) _) opened
          have around := inside unfinished openedAround (derives.group openedInside inner)
          simpa only [List.append_assoc] using around

/-- One character keeps the description of the state. -/
theorem step {scan next : Scan} (unfinished : Unfinished scan.groups scan.seen.reverse)
    (steps : scan.step c = .ok next) : Unfinished next.groups next.seen.reverse := by
  rcases Scan.groupsAfter_of_step steps with ⟨after, seen⟩
  rw [seen, List.reverse_cons]
  rcases Scan.cases_of_groupsAfter after with ⟨group, isOpener, isGroups, opened⟩ |
    ⟨group, isCloser, isGroups⟩ | ⟨admitted, isGroups⟩
  · rw [isGroups, isOpener]
    simpa using inside unfinished opened (.empty _)
  · rw [isGroups] at unfinished
    rw [isCloser]
    exact unfinished.close
  · rw [isGroups]
    exact unfinished.ordinary admitted

theorem run {scan last : Scan} (unfinished : Unfinished scan.groups scan.seen.reverse)
    (runs : scan.run text = .ok last) : Unfinished last.groups last.seen.reverse := by
  induction text generalizing scan with
  | nil =>
      rw [Scan.run, Except.ok.injEq] at runs
      rwa [← runs]
  | cons c text ih =>
      unfold Scan.run at runs
      split at runs
      · next steps => exact ih (unfinished.step steps) runs
      · simp at runs

/-- Only the outermost group is a block. -/
theorem block_outermost (unfinished : Unfinished groups text) {index : Nat}
    (isBlock : groups.reverse[index]? = some .block) : index = 0 := by
  induction unfinished with
  | plain => simp at isBlock
  | @inside outer before body group unfinished opened derives ih =>
      rw [List.reverse_cons] at isBlock
      by_cases isOuter : index < outer.reverse.length
      · rw [List.getElem?_append_left isOuter] at isBlock
        exact ih isBlock
      · rw [List.getElem?_append_right (Nat.le_of_not_lt isOuter)] at isBlock
        have isGroup := List.mem_of_getElem? isBlock
        rw [List.mem_singleton] at isGroup
        -- A block opens at the plain level, so no group is around it.
        rw [← isGroup] at opened
        cases outer with
        | nil =>
            have bound := (List.getElem?_eq_some_iff.mp isBlock).1
            simpa using bound
        | cons => nomatch opened

end Unfinished

namespace Derives

/-- A scan reads all of what derives at its level, and is at its level again. -/
theorem run {level : Level} {text : Text} (derives : Derives level text) {scan : Scan}
    (isLevel : Level.ofGroups scan.groups = level) (fresh : scan.nameBefore = []) :
    scan.run text = .ok { scan with seen := text.reverse ++ scan.seen } := by
  induction derives generalizing scan with
  | empty => rfl
  | @ordinary level before c derives admitted ih =>
      rw [← isLevel] at admitted
      apply Scan.run_concat (ih isLevel fresh)
      · exact Scan.groupsAfter_of_admits admitted
      · simp
  | @group level before body group derives opened inner around inside =>
      have reads := around isLevel fresh
      have opens :
          (Level.ofGroups scan.groups).Opens (before.reverse ++ scan.seen).reverse group := by
        rw [isLevel]
        refine Level.opens_congr ?_ opened
        rw [List.reverse_append, List.reverse_reverse, Level.rtakeWhile_append]
        rw [Scan.rtakeWhile_reverse_seen, fresh]
      let started : Scan :=
        { seen := group.opener :: (before.reverse ++ scan.seen), groups := group :: scan.groups }
      have starts : scan.run (before ++ [group.opener]) = .ok started :=
        Scan.run_concat reads (Scan.groupsAfter_opener opens) rfl
      have startsFresh : started.nameBefore = [] := by
        simp [started, Scan.nameBefore]
      have fills := @inside started rfl startsFresh
      apply Scan.run_concat
      · rw [Scan.run_append starts, fills]
      · exact Scan.groupsAfter_closer rfl
      · simp [started]

end Derives

theorem unfinished_of_run {text : Text} {scan : Scan} (runs : ({} : Scan).run text = .ok scan) :
    Unfinished scan.groups text := by
  have start : Unfinished ({} : Scan).groups ({} : Scan).seen.reverse := .plain (.empty _)
  have seen := Scan.seen_of_run runs
  rw [List.append_nil] at seen
  simpa [seen] using start.run runs

/-- A scan reads a text to its end and finds no group open exactly if the text is in the grammar.
Whatever it has read, it is plain outside every group and nowhere else, and no group is around a
block. -/
theorem scan_accepts_iff_derives (text : Text) :
    ((∃ scan, ({} : Scan).run text = .ok scan ∧ scan.finish = .ok ()) ↔ Derives .plain text) ∧
      ∀ scan, ({} : Scan).run text = .ok scan →
        scan.levels.head? = some .plain ∧ .plain ∉ scan.levels.tail ∧
          ∀ index, scan.levels[index]? = some (.inside .block) → index = 1 := by
  refine ⟨⟨?_, ?_⟩, ?_⟩
  · rintro ⟨scan, runs, finishes⟩
    have unfinished := unfinished_of_run runs
    rw [Scan.finish_eq_ok.mp finishes] at unfinished
    cases unfinished with
    | plain derives => exact derives
  · intro derives
    exact ⟨_, derives.run rfl rfl, Scan.finish_eq_ok.mpr rfl⟩
  · intro scan runs
    refine ⟨rfl, by simp [Scan.levels], ?_⟩
    intro index isBlock
    cases index with
    | zero => simp [Scan.levels] at isBlock
    | succ index =>
        rw [Scan.levels, List.getElem?_cons_succ, List.getElem?_map, Option.map_eq_some_iff]
          at isBlock
        rcases isBlock with ⟨group, isGroup, same⟩
        rw [Level.inside.injEq] at same
        rw [same] at isGroup
        rw [(unfinished_of_run runs).block_outermost isGroup]

/-- Inside a block a function of values is read as one, and a bracket in it as a value. -/
theorem scan_accepts_function_in_block :
    Derives .plain "hover(w[1px] h[calc(2px)] calc([a]))" ∧
      ∃ scan, ({} : Scan).run "a(calc([" = .ok scan ∧
        scan.levels = [.plain, .inside .block, .inside .function, .inside .value] ∧
        ∀ index, scan.levels[index]? = some (.inside .block) → index = 1 := by
  refine ⟨(scan_accepts_iff_derives _).1.mp ⟨_, rfl, rfl⟩, _, rfl, rfl, ?_⟩
  exact ((scan_accepts_iff_derives "a(calc([").2 _ rfl).2.2

end TerseStyle

import TerseStyle.Proofs.Declaration
import TerseStyle.Proofs.Outcome
import TerseStyle.Proofs.Scan

/-!
# Whole statements

What a scan does next depends on its open groups and on the name that it has just read, on nothing
before that (`Scan.Similar`). So a statement of a body is a whole: it can be read on its own, whole
statements can be joined to a body again (`statements_joinWith`), and the sigils of runtime
variables can be taken out of a body without changing how it is cut into statements
(`statements_dropSigils`).
-/

namespace TerseStyle

namespace Scan

/-- The scans go on alike. -/
structure Similar (scan other : Scan) : Prop where
  groups : scan.groups = other.groups
  nameBefore : scan.nameBefore = other.nameBefore

variable {scan other next last : Scan} {c : CodePoint} {text part : Text}

theorem Similar.refl (scan : Scan) : Similar scan scan := ⟨rfl, rfl⟩

theorem Similar.symm (similar : Similar scan other) : Similar other scan :=
  ⟨similar.groups.symm, similar.nameBefore.symm⟩

theorem Similar.trans {third : Scan} (similar : Similar scan other)
    (onwards : Similar other third) : Similar scan third :=
  ⟨similar.groups.trans onwards.groups, similar.nameBefore.trans onwards.nameBefore⟩

theorem nameBefore_of_step (steps : scan.step c = .ok next) :
    next.nameBefore = if isNameChar c then scan.nameBefore ++ [c] else [] := by
  unfold step at steps
  split at steps
  · rw [Except.ok.injEq] at steps
    rw [← steps, nameBefore, nameBefore, List.takeWhile_cons]
    split <;> simp
  · simp at steps

theorem step_of_ordinary (ordinary : c ∉ ("[]()\x7b\x7d@" : Text)) (scan : Scan) :
    scan.step c = .ok { scan with seen := c :: scan.seen } := by
  have groups : scan.groupsAfter c = .ok scan.groups := by
    have brackets : ("[]()\x7b\x7d@" : Text) =
        [.char '[', .char ']', .char '(', .char ')', .char '\x7b', .char '\x7d', .char '@'] := rfl
    simp only [brackets, List.mem_cons, List.not_mem_nil, or_false, not_or] at ordinary
    unfold Scan.groupsAfter
    split <;> simp_all
  rw [step, groups]

theorem step_of_isBlank (blank : isBlank c = true) (scan : Scan) :
    scan.step c = .ok { scan with seen := c :: scan.seen } := by
  apply step_of_ordinary
  intro isBracket
  have noneBlank : ∀ c ∈ ("[]()\x7b\x7d@" : Text), isBlank c = false := by decide
  simp [noneBlank c isBracket] at blank

theorem nameBefore_of_isBlank (blank : isBlank c = true) (steps : scan.step c = .ok next) :
    next.nameBefore = [] := by
  rw [nameBefore_of_step steps, isNameChar_of_isBlank blank]
  rfl

theorem Similar.kind_groupsAfter (similar : Similar scan other) (c : CodePoint) :
    (scan.groupsAfter c).mapError Cause.kind = (other.groupsAfter c).mapError Cause.kind := by
  unfold Scan.groupsAfter
  rw [similar.groups, similar.nameBefore]
  split
  case h_5 => split <;> rfl
  case h_10 => split <;> rfl
  all_goals rfl

theorem Similar.groupsAfter (similar : Similar scan other) {groups : List Group}
    (ended : scan.groupsAfter c = .ok groups) : other.groupsAfter c = .ok groups := by
  have sameKind := similar.kind_groupsAfter c
  rw [ended] at sameKind
  cases endedOther : other.groupsAfter c with
  | error cause => simp [endedOther, Except.mapError] at sameKind
  | ok groupsOther => simpa [endedOther, Except.mapError, eq_comm] using sameKind

theorem Similar.step (similar : Similar scan other) (steps : scan.step c = .ok next) :
    ∃ nextOther, other.step c = .ok nextOther ∧ Similar next nextOther := by
  have sameName := nameBefore_of_step steps
  cases ended : scan.groupsAfter c with
  | error cause => simp [Scan.step, ended] at steps
  | ok groups =>
      have otherSteps : other.step c = .ok { seen := c :: other.seen, groups } := by
        rw [Scan.step, similar.groupsAfter ended]
      refine ⟨_, otherSteps, ?_, ?_⟩
      · rw [Scan.step, ended, Except.ok.injEq] at steps
        rw [← steps]
      · rw [sameName, nameBefore_of_step otherSteps, similar.nameBefore]

theorem finish_eq_ok : scan.finish = .ok () ↔ scan.groups = [] := by
  unfold finish
  split <;> simp_all

/-- The statement that ends here, if one was begun. -/
def ended (part : Text) : List Text :=
  if part.isEmpty then [] else [part.reverse]

theorem statementsAfter_nil_eq_ok {found : List Text} :
    scan.statementsAfter part [] = .ok found ↔ scan.groups = [] ∧ ended part = found := by
  unfold statementsAfter
  cases finishes : scan.finish with
  | error error =>
      have isOpen : scan.groups ≠ [] := by
        rw [Ne, ← finish_eq_ok, finishes]
        simp
      simp [isOpen]
  | ok _ =>
      rw [Except.ok.injEq]
      exact ⟨fun same => ⟨finish_eq_ok.mp finishes, same⟩, And.right⟩

/-- A blank outside every group ends a statement, and every other character goes to one. -/
theorem statementsAfter_cons (scan : Scan) (part : Text) (c : CodePoint) (rest : Text) :
    scan.statementsAfter part (c :: rest) = (scan.step c).bind fun next =>
      if scan.groups = [] ∧ isBlank c = true then
        (next.statementsAfter [] rest).map (ended part ++ ·)
      else next.statementsAfter ((if isBlank c then .char ' ' else c) :: part) rest := by
  rw [statementsAfter]
  cases scan.step c with
  | error error => rfl
  | ok next =>
      simp only [Except.bind, Bool.and_eq_true, atTopLevel, List.isEmpty_iff, ended]
      split
      · split
        · cases next.statementsAfter [] rest <;> rfl
        · rfl
      · rfl

theorem statementsAfter_cons_eq_ok {rest : Text} {found : List Text} :
    scan.statementsAfter part (c :: rest) = .ok found ↔ ∃ next, scan.step c = .ok next ∧
      ((scan.groups = [] ∧ isBlank c = true) ∧
          (∃ later, next.statementsAfter [] rest = .ok later ∧ ended part ++ later = found) ∨
        ¬(scan.groups = [] ∧ isBlank c = true) ∧
          next.statementsAfter ((if isBlank c then .char ' ' else c) :: part) rest =
            .ok found) := by
  rw [statementsAfter_cons]
  refine bind_eq_ok.trans (exists_congr fun next => and_congr_right fun _ => ?_)
  split
  · next breaks => simp [breaks, map_eq_ok]
  · next goesOn => simp [goesOn]

theorem Similar.statementsAfter (similar : Similar scan other) {found : List Text}
    (scanned : scan.statementsAfter part text = .ok found) :
    other.statementsAfter part text = .ok found := by
  induction text generalizing scan other part found with
  | nil =>
      rw [statementsAfter_nil_eq_ok, ← similar.groups]
      exact statementsAfter_nil_eq_ok.mp scanned
  | cons c rest ih =>
      rw [statementsAfter_cons_eq_ok] at scanned ⊢
      rw [← similar.groups]
      rcases scanned with ⟨next, steps, goesOn⟩
      rcases similar.step steps with ⟨nextOther, otherSteps, onwards⟩
      refine ⟨nextOther, otherSteps, ?_⟩
      rcases goesOn with ⟨breaks, later, scannedLater, same⟩ | ⟨goesOn, scannedRest⟩
      · exact Or.inl ⟨breaks, later, ih onwards scannedLater, same⟩
      · exact Or.inr ⟨goesOn, ih onwards scannedRest⟩

/-- A scan that reads a text without leaving a statement. Blanks are spaces inside a group. -/
inductive Reads : Scan → Text → Scan → Prop where
  | nil (scan : Scan) : Reads scan [] scan
  | cons {scan next last : Scan} {c : CodePoint} {rest : Text} (steps : scan.step c = .ok next)
      (inGroup : isBlank c = true → c = .char ' ' ∧ scan.groups ≠ [])
      (onwards : Reads next rest last) : Reads scan (c :: rest) last

namespace Reads

theorem append {middle : Scan} {rest : Text} (reads : Reads scan text middle)
    (onwards : Reads middle rest last) : Reads scan (text ++ rest) last := by
  induction reads with
  | nil => exact onwards
  | cons steps inGroup _ ih =>
      exact cons steps inGroup (ih onwards)

theorem split {rest : Text} (reads : Reads scan (text ++ rest) last) :
    ∃ middle, Reads scan text middle ∧ Reads middle rest last := by
  induction text generalizing scan with
  | nil => exact ⟨scan, nil scan, reads⟩
  | cons c text ih =>
      cases reads with
      | cons steps inGroup onwards =>
          rcases ih onwards with ⟨middle, first, second⟩
          exact ⟨middle, cons steps inGroup first, second⟩

theorem similar (reads : Reads scan text last) (alike : Similar scan other) :
    ∃ lastOther, Reads other text lastOther ∧ Similar last lastOther := by
  induction reads generalizing other with
  | nil => exact ⟨other, nil other, alike⟩
  | cons steps inGroup _ ih =>
      rcases alike.step steps with ⟨nextOther, otherSteps, onwards⟩
      rcases ih onwards with ⟨lastOther, reads, similarLast⟩
      refine ⟨lastOther, cons otherSteps ?_ reads, similarLast⟩
      rw [← alike.groups]
      exact inGroup

end Reads

end Scan

/-- The text is a whole statement. -/
def IsWhole (text : Text) : Prop :=
  text ≠ [] ∧ ∃ last, Scan.Reads {} text last ∧ last.groups = []

namespace Scan

variable {scan other next last : Scan} {c : CodePoint} {text part : Text}

theorem similar_of_break (blank : isBlank c = true) (closed : scan.groups = [])
    (steps : scan.step c = .ok next) : Similar {} next := by
  refine ⟨?_, (nameBefore_of_isBlank blank steps).symm⟩
  rw [step_of_isBlank blank, Except.ok.injEq] at steps
  rw [← steps]
  exact closed.symm

theorem isWhole_of_statementsAfter {found : List Text}
    (scanned : scan.statementsAfter part text = .ok found)
    (read : ∃ soFar, Reads {} part.reverse soFar ∧ Similar soFar scan) :
    ∀ statement ∈ found, IsWhole statement := by
  have ends : ∀ {scan : Scan} {part : Text}, (∃ soFar, Reads {} part.reverse soFar ∧
      Similar soFar scan) → scan.groups = [] → ∀ statement ∈ ended part, IsWhole statement := by
    rintro scan part ⟨soFar, reads, similar⟩ closed statement isEnded
    unfold ended at isEnded
    split at isEnded
    · simp at isEnded
    · next somePart =>
      rw [List.mem_singleton] at isEnded
      rw [isEnded]
      exact ⟨by simpa using somePart, soFar, reads, similar.groups.trans closed⟩
  induction text generalizing scan part found with
  | nil =>
      rcases statementsAfter_nil_eq_ok.mp scanned with ⟨closed, rfl⟩
      exact ends read closed
  | cons c rest ih =>
      rcases statementsAfter_cons_eq_ok.mp scanned with
        ⟨next, steps, ⟨⟨closed, blank⟩, later, scannedLater, rfl⟩ | ⟨goesOn, scannedRest⟩⟩
      · rw [List.forall_mem_append]
        refine ⟨ends read closed, ih scannedLater ⟨{}, .nil _, ?_⟩⟩
        exact similar_of_break blank closed steps
      · apply ih scannedRest
        rcases read with ⟨soFar, reads, similar⟩
        by_cases blank : isBlank c = true
        · -- A blank inside a group is written as a space, and a space is read like it.
          have isSpace : isBlank (.char ' ') = true := by decide
          have inGroup : soFar.groups ≠ [] := by
            rw [similar.groups]
            exact fun closed => goesOn ⟨closed, blank⟩
          have soFarSteps := step_of_isBlank isSpace soFar
          rw [if_pos blank, List.reverse_cons]
          refine ⟨_, reads.append (.cons soFarSteps (fun _ => ⟨rfl, inGroup⟩) (.nil _)), ?_, ?_⟩
          · rw [step_of_isBlank blank, Except.ok.injEq] at steps
            rw [← steps]
            exact similar.groups
          · rw [nameBefore_of_isBlank isSpace soFarSteps, nameBefore_of_isBlank blank steps]
        · rcases similar.symm.step steps with ⟨nextSoFar, soFarSteps, onwards⟩
          rw [if_neg blank, List.reverse_cons]
          refine ⟨nextSoFar, reads.append (.cons soFarSteps ?_ (.nil _)), onwards.symm⟩
          exact fun isBlank => absurd isBlank blank

/-- A body and a blank can be put in front of another body. -/
theorem statementsAfter_append {rest : Text} {found later : List Text}
    (scanned : scan.statementsAfter part text = .ok found) (blank : isBlank c = true)
    (scannedRest : statements rest = .ok later) :
    scan.statementsAfter part (text ++ c :: rest) = .ok (found ++ later) := by
  induction text generalizing scan part found with
  | nil =>
      rcases statementsAfter_nil_eq_ok.mp scanned with ⟨closed, rfl⟩
      have steps := step_of_isBlank blank scan
      have fresh := similar_of_break blank closed steps
      rw [List.nil_append, statementsAfter_cons_eq_ok]
      exact ⟨_, steps, Or.inl ⟨⟨closed, blank⟩, later, fresh.statementsAfter scannedRest, rfl⟩⟩
  | cons first text ih =>
      rw [List.cons_append]
      rw [statementsAfter_cons_eq_ok] at scanned ⊢
      rcases scanned with
        ⟨next, steps, ⟨breaks, between, scannedBetween, rfl⟩ | ⟨goesOn, scannedText⟩⟩
      · refine ⟨next, steps, Or.inl ⟨breaks, between ++ later, ?_, (List.append_assoc _ _ _).symm⟩⟩
        exact ih scannedBetween
      · exact ⟨next, steps, Or.inr ⟨goesOn, ih scannedText⟩⟩

theorem Reads.statementsAfter (reads : Reads scan text last) (part rest : Text) :
    scan.statementsAfter part (text ++ rest) =
      last.statementsAfter (text.reverse ++ part) rest := by
  induction reads generalizing part with
  | nil => rfl
  | @cons scan next last c text steps inGroup _ ih =>
      have noBreak : (scan.atTopLevel && isBlank c) = false := by
        by_contra isBreak
        rw [Bool.not_eq_false, Bool.and_eq_true, atTopLevel, List.isEmpty_iff] at isBreak
        exact (inGroup isBreak.2).2 isBreak.1
      have kept : (if isBlank c = true then .char ' ' else c) = c := by
        split
        · next blank => exact (inGroup blank).1.symm
        · rfl
      rw [List.cons_append, Scan.statementsAfter, steps]
      simp only [noBreak, Bool.false_eq_true, if_false, kept]
      rw [ih, List.reverse_cons, List.append_assoc, List.singleton_append]

end Scan

theorem isWhole_of_statements {body : Text} {found : List Text}
    (scanned : statements body = .ok found) : ∀ statement ∈ found, IsWhole statement :=
  Scan.isWhole_of_statementsAfter scanned ⟨{}, .nil _, .refl _⟩

theorem Text.trim_eq_self {text : Text} (first : ∀ c ∈ text.head?, isBlank c = false)
    (last : ∀ c ∈ text.getLast?, isBlank c = false) : trim text = text := by
  have keeps : ∀ {text : Text}, (∀ c ∈ text.head?, isBlank c = false) →
      text.dropWhile isBlank = text := by
    intro text first
    cases text with
    | nil => rfl
    | cons c rest => exact List.dropWhile_cons_of_neg (by simp [first c rfl])
  rw [← List.head?_reverse] at last
  rw [trim, keeps first, trimRight, keeps last, List.reverse_reverse]

namespace IsWhole

variable {statement : Text}

theorem first (whole : IsWhole statement) : ∀ c ∈ statement.head?, isBlank c = false := by
  rcases whole with ⟨_, last, reads, _⟩
  rintro c isFirst
  cases reads with
  | nil => simp at isFirst
  | cons _ inGroup _ =>
      rw [List.head?_cons, Option.mem_some_iff] at isFirst
      subst isFirst
      rw [← Bool.not_eq_true]
      exact fun blank => absurd rfl (inGroup blank).2

/-- There is no blank at the end of a whole statement. -/
theorem last (whole : IsWhole statement) : ∀ c ∈ statement.getLast?, isBlank c = false := by
  rcases whole with ⟨_, last, reads, closed⟩
  rintro c isLast
  rcases List.eq_nil_or_concat' statement with rfl | ⟨before, final, rfl⟩
  · simp at isLast
  · rw [List.getLast?_concat, Option.mem_some_iff] at isLast
    subst isLast
    rcases reads.split with ⟨middle, _, readsLast⟩
    cases readsLast with
    | cons steps inGroup ends =>
        cases ends
        rw [← Bool.not_eq_true]
        -- A blank leaves the groups open that it stands in.
        intro blank
        rw [Scan.step_of_isBlank blank, Except.ok.injEq] at steps
        rw [← steps] at closed
        exact (inGroup blank).2 closed

theorem trim_eq (whole : IsWhole statement) : Text.trim statement = statement :=
  Text.trim_eq_self whole.first whole.last

end IsWhole

theorem statements_of_isWhole {statement : Text} (whole : IsWhole statement) :
    statements statement = .ok [statement] := by
  rcases whole with ⟨nonempty, last, reads, closed⟩
  have scanned := reads.statementsAfter [] []
  rw [List.append_nil, List.append_nil] at scanned
  rw [statements, scanned, Scan.statementsAfter, Scan.finish_eq_ok.mpr closed]
  simp [nonempty]

theorem statements_append {body rest : Text} {c : CodePoint} {found later : List Text}
    (scanned : statements body = .ok found) (blank : isBlank c = true)
    (scannedRest : statements rest = .ok later) :
    statements (body ++ c :: rest) = .ok (found ++ later) :=
  Scan.statementsAfter_append scanned blank scannedRest

/-- Whole statements, joined by a blank, are the statements of the whole text. -/
theorem statements_joinWith {c : CodePoint} (blank : isBlank c = true) {parts : List Text}
    (whole : ∀ part ∈ parts, IsWhole part) :
    statements (Text.joinWith [c] parts) = .ok parts := by
  induction parts with
  | nil => rfl
  | cons first rest ih =>
      rw [List.forall_mem_cons] at whole
      cases rest with
      | nil => exact statements_of_isWhole whole.1
      | cons second rest =>
          rw [Text.joinWith, List.append_assoc, List.singleton_append]
          exact statements_append (statements_of_isWhole whole.1) blank
            (ih whole.2)

/-! ## Taking out sigils -/

namespace Scan

/-- The text without the sigil of a runtime variable at the beginning of its statements. The scan
is at such a beginning if it is fresh. -/
def dropSigilsAfter (scan : Scan) (fresh : Bool) : Text → Text
  | [] => []
  | c :: rest =>
    match scan.step c with
    | .error _ => c :: rest
    | .ok next =>
      if fresh && c == .char '$' then next.dropSigilsAfter false rest
      else c :: next.dropSigilsAfter (scan.atTopLevel && isBlank c) rest

variable {scan other inner next last : Scan} {c : CodePoint} {text part : Text} {fresh : Bool}

theorem step_sigil (scan : Scan) :
    scan.step (.char '$') = .ok { scan with seen := .char '$' :: scan.seen } :=
  step_of_ordinary (by decide) scan

/-- A sigil that does not follow a name can be left out. -/
theorem similar_of_step_sigil (noName : scan.nameBefore = [])
    (steps : scan.step (.char '$') = .ok next) : Similar scan next := by
  have notName : isNameChar (.char '$') = false := by decide
  refine ⟨?_, ?_⟩
  · rw [step_sigil, Except.ok.injEq] at steps
    rw [← steps]
  · rw [nameBefore_of_step steps, notName, noName]
    rfl

/-- Taking the sigils out of a part of a statement leaves a part of a statement. The part may be
scanned inside a block while the sigils are found by a scan of the part on its own. -/
theorem Reads.dropSigilsAfter (reads : Reads scan text last) (similar : Similar scan other)
    (sameName : inner.nameBefore = scan.nameBefore)
    (noName : fresh = true → scan.nameBefore = []) :
    ∃ lastOther, Reads other (inner.dropSigilsAfter fresh text) lastOther ∧
      Similar last lastOther := by
  induction reads generalizing inner other fresh with
  | nil => exact ⟨other, .nil other, similar⟩
  | @cons scan next last c rest steps inGroup onwards ih =>
      unfold Scan.dropSigilsAfter
      cases innerSteps : inner.step c with
      | error error => exact (Reads.cons steps inGroup onwards).similar similar
      | ok nextInner =>
          have nextName : nextInner.nameBefore = next.nameBefore := by
            rw [nameBefore_of_step innerSteps, nameBefore_of_step steps, sameName]
          simp only
          split
          · next isSigil =>
            rw [Bool.and_eq_true, beq_iff_eq] at isSigil
            rw [isSigil.2] at steps
            have skips := similar_of_step_sigil (noName isSigil.1) steps
            exact ih (skips.symm.trans similar) nextName (by simp)
          · rcases similar.step steps with ⟨nextOther, otherSteps, onwards⟩
            have blankName : (inner.atTopLevel && isBlank c) = true → next.nameBefore = [] := by
              intro isBreak
              rw [Bool.and_eq_true] at isBreak
              exact nameBefore_of_isBlank isBreak.2 steps
            rcases ih onwards nextName blankName with
              ⟨lastOther, reads, similarLast⟩
            refine ⟨lastOther, .cons otherSteps ?_ reads, similarLast⟩
            rw [← similar.groups]
            exact inGroup

theorem dropSigilsAfter_cons (steps : scan.step c = .ok next)
    (kept : ¬(fresh && c == .char '$') = true) (rest : Text) :
    scan.dropSigilsAfter fresh (c :: rest) =
      c :: next.dropSigilsAfter (scan.atTopLevel && isBlank c) rest := by
  rw [dropSigilsAfter, steps]
  simp only [if_neg kept]

theorem statementsAfter_dropSigilsAfter {found : List Text} {partOther : Text}
    (scanned : scan.statementsAfter part text = .ok found)
    (nonempty : ∀ statement ∈ found, Declaration.withoutSigil statement ≠ [])
    (similar : Similar scan other) (isFresh : fresh = true ↔ part = [])
    (noName : fresh = true → scan.nameBefore = [])
    (sameParts : partOther.reverse = Declaration.withoutSigil part.reverse) :
    other.statementsAfter partOther (scan.dropSigilsAfter fresh text) =
      .ok (found.map Declaration.withoutSigil) := by
  induction text generalizing scan other part partOther found fresh with
  | nil =>
      unfold statementsAfter at scanned
      cases ended : scan.finish with
      | error error => simp [ended] at scanned
      | ok _ =>
          have otherEnded : other.finish = .ok () := by
            rw [finish_eq_ok, ← similar.groups]
            exact finish_eq_ok.mp ended
          rw [ended, Except.ok.injEq] at scanned
          rw [dropSigilsAfter, statementsAfter, otherEnded, ← scanned]
          by_cases noPart : part = []
          · have noOther : partOther = [] := by
              simpa [noPart, Declaration.withoutSigil] using sameParts
            simp [noPart, noOther]
          · have someOther : partOther ≠ [] := by
              intro noOther
              apply nonempty part.reverse
              · simp [← scanned, noPart]
              · simpa [noOther] using sameParts.symm
            simp [noPart, someOther, sameParts]
  | cons c rest ih =>
      unfold statementsAfter at scanned
      cases steps : scan.step c with
      | error error => simp [steps] at scanned
      | ok next =>
          simp only [steps] at scanned
          by_cases isSigil : (fresh && c == .char '$') = true
          · -- The statement starts with a sigil, which the other scan does not see.
            have notBreak : (scan.atTopLevel && isBlank (.char '$')) = false := by
              rw [Bool.and_eq_false_iff]
              exact Or.inr (by decide)
            rw [dropSigilsAfter, steps]
            simp only [if_pos isSigil]
            rw [Bool.and_eq_true, beq_iff_eq] at isSigil
            rw [isSigil.2] at steps scanned
            have noPart := isFresh.mp isSigil.1
            have skips := similar_of_step_sigil (noName isSigil.1) steps
            simp only [notBreak, noPart, Bool.false_eq_true, if_false] at scanned
            apply ih scanned nonempty (skips.symm.trans similar) (by simp)
              (by simp)
            rw [sameParts, noPart]
            rfl
          · rcases similar.step steps with ⟨nextOther, otherSteps, onwards⟩
            have sameLevel : other.atTopLevel = scan.atTopLevel := by
              rw [atTopLevel, atTopLevel, similar.groups]
            rw [dropSigilsAfter_cons steps isSigil, statementsAfter]
            simp only [otherSteps, sameLevel]
            split at scanned
            · next isBreak =>
              have blankName : next.nameBefore = [] := by
                rw [Bool.and_eq_true] at isBreak
                exact nameBefore_of_isBlank isBreak.2 steps
              have startsAnew : (scan.atTopLevel && isBlank c) = true ↔ ([] : Text) = [] := by
                simp [isBreak]
              rw [if_pos isBreak]
              split at scanned
              · next noPart =>
                rw [List.isEmpty_iff] at noPart
                have noOther : partOther = [] := by
                  simpa [noPart, Declaration.withoutSigil] using sameParts
                rw [if_pos (by simp [noOther])]
                exact ih scanned nonempty onwards startsAnew
                  (fun _ => blankName) rfl
              · next somePart =>
                rcases map_eq_ok.mp scanned with ⟨later, scannedLater, rfl⟩
                rw [List.forall_mem_cons] at nonempty
                have someOther : ¬partOther.isEmpty = true := by
                  intro noOther
                  apply nonempty.1
                  rw [← sameParts, List.isEmpty_iff.mp noOther]
                  rfl
                rw [if_neg someOther, ih scannedLater nonempty.2 onwards startsAnew
                  (fun _ => blankName) rfl]
                simp [Except.map, sameParts]
            · next noBreak =>
              rw [if_neg noBreak]
              apply ih scanned nonempty onwards
              · simp [noBreak]
              · exact fun isBreak => absurd isBreak noBreak
              · rw [List.reverse_cons, List.reverse_cons, sameParts]
                by_cases noPart : part = []
                · have notSigil : c ≠ .char '$' := by
                    rintro rfl
                    exact isSigil (by simp [isFresh.mpr noPart])
                  have written : (if isBlank c = true then .char ' ' else c) ≠ .char '$' := by
                    split
                    · decide
                    · exact notSigil
                  rw [noPart, List.reverse_nil, List.nil_append,
                    Declaration.withoutSigil_cons_of_ne written]
                  rfl
                · exact (Declaration.withoutSigil_append (by simpa using noPart) _).symm

end Scan

/-- The text without the sigil of a runtime variable at the beginning of its statements. -/
def dropSigils (text : Text) : Text :=
  ({} : Scan).dropSigilsAfter true text

/-- Without sigils a body has the same statements, each without its sigil. -/
theorem statements_dropSigils {body : Text} {found : List Text}
    (scanned : statements body = .ok found)
    (nonempty : ∀ statement ∈ found, Declaration.withoutSigil statement ≠ []) :
    statements (dropSigils body) = .ok (found.map Declaration.withoutSigil) :=
  Scan.statementsAfter_dropSigilsAfter scanned nonempty (.refl _) (by simp) (fun _ => rfl) rfl

theorem IsWhole.withoutSigil {statement : Text} (whole : IsWhole statement)
    (nonempty : Declaration.withoutSigil statement ≠ []) :
    IsWhole (Declaration.withoutSigil statement) := by
  rcases whole with ⟨_, last, reads, closed⟩
  refine ⟨nonempty, ?_⟩
  unfold Declaration.withoutSigil
  split
  · cases reads with
    | cons steps _ onwards =>
        have skips := Scan.similar_of_step_sigil rfl steps
        rcases onwards.similar skips.symm with ⟨lastOther, readsOther, similar⟩
        exact ⟨lastOther, readsOther, similar.groups ▸ closed⟩
  · exact ⟨last, reads, closed⟩

theorem IsWhole.dropSigils {head inside : Text}
    (whole : IsWhole (head ++ CodePoint.char '(' :: (inside ++ [CodePoint.char ')']))) :
    IsWhole (head ++ CodePoint.char '(' :: (dropSigils inside ++ [CodePoint.char ')'])) := by
  rcases whole with ⟨_, last, reads, closed⟩
  refine ⟨by simp, ?_⟩
  rcases reads.split with ⟨afterHead, readsHead, fromHead⟩
  cases fromHead with
  | @cons _ opened _ _ _ opens notBlank fromInside =>
      rcases fromInside.split with ⟨afterInside, readsInside, closes⟩
      have noName : opened.nameBefore = [] := by
        have notName : isNameChar (.char '(') = false := by decide
        rw [Scan.nameBefore_of_step opens, notName]
        rfl
      have sameName : ({} : Scan).nameBefore = opened.nameBefore := noName.symm
      rcases readsInside.dropSigilsAfter (.refl opened) sameName (fun _ => noName) with
        ⟨afterOther, readsOther, similar⟩
      rcases closes.similar similar with ⟨lastOther, closesOther, similarLast⟩
      exact ⟨lastOther, readsHead.append (.cons opens notBlank (readsOther.append closesOther)),
        similarLast.groups ▸ closed⟩

end TerseStyle

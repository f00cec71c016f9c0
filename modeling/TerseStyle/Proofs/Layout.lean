import TerseStyle.Proofs.Source

/-!
# Directives among classes

Once constants and keyframes are cut out, a source is a sequence of classes, blanks and lines with
an at sign. The directives of a text are taken from the lines that start at depth zero, where the
depth counts every brace, while a class ends at the brace that matches its first one, where braces
inside square brackets do not count. The two agree if no such brace and no brace of a directive
comes before a directive; otherwise a line inside a class can be taken for a directive, and a
directive outside every class can be missed (`Source.Layout.takesOutside_iff_countsBraces`).
-/

namespace TerseStyle

namespace Text

/-- Whether a line ends between two texts, or one of them is empty. -/
def endsLine (before after : Text) : Bool :=
  match before.getLast?, after.head? with
  | some last, some first => isLineBreak last && !(last == '\r' && first == '\n')
  | _, _ => true

variable {c : CodePoint} {before after rest : Text}

theorem endsLine_cons {next : CodePoint} :
    endsLine (c :: next :: before) after = endsLine (next :: before) after := by
  simp only [endsLine, List.getLast?_cons_cons]

theorem linesWithBreaks_of_break (isBreak : isLineBreak c = true)
    (notPair : ¬(c = '\r' ∧ rest.head? = some (.char '\n'))) :
    linesWithBreaks (c :: rest) = [c] :: linesWithBreaks rest := by
  rw [linesWithBreaks, if_pos isBreak]
  rintro more rfl rfl
  exact notPair ⟨rfl, rfl⟩

theorem linesWithBreaks_of_notBreak (notBreak : isLineBreak c = false) :
    linesWithBreaks (c :: rest) = (c :: (linesWithBreaks rest).headD []) ::
      (linesWithBreaks rest).tail := by
  rw [linesWithBreaks, notBreak, if_neg Bool.false_ne_true]
  · cases linesWithBreaks rest with
    | nil => rfl
    | cons line more => rfl
  · rintro more rfl _
    exact absurd notBreak (by decide)

theorem linesWithBreaks_ne_nil : linesWithBreaks (c :: rest) ≠ [] := by
  intro none
  have whole := flatten_linesWithBreaks (c :: rest)
  simp [none] at whole

theorem endsLine_append (nonempty : after ≠ []) (more : Text) :
    endsLine before (after ++ more) = endsLine before after := by
  rw [endsLine, endsLine, List.head?_append_of_ne_nil after nonempty]

theorem endsLine_of_append {front : Text} (ends : endsLine (front ++ before) after = true) :
    endsLine before after = true := by
  induction front with
  | nil => exact ends
  | cons c front ih =>
      apply ih
      cases isRest : front ++ before with
      | nil => simp [endsLine]
      | cons next rest => rwa [List.cons_append, isRest, endsLine_cons] at ends

/-- Where a line ends between two texts, each has its own lines. -/
theorem linesWithBreaks_append (ends : endsLine before after = true) :
    linesWithBreaks (before ++ after) = linesWithBreaks before ++ linesWithBreaks after := by
  induction before using linesWithBreaks.induct with
  | case1 => rfl
  | case2 rest ih =>
      have endsRest : endsLine rest after = true := by
        cases rest with
        | nil => simp [endsLine]
        | cons next rest => rwa [endsLine_cons, endsLine_cons] at ends
      simp only [List.cons_append, linesWithBreaks, ih endsRest]
  | case3 c rest notPair isBreak ih =>
      cases rest with
      | nil =>
          have apart : ¬(c = '\r' ∧ after.head? = some (.char '\n')) := by
            rintro ⟨rfl, isFeed⟩
            simp [endsLine, isFeed] at ends
          rw [List.singleton_append, linesWithBreaks_of_break isBreak apart,
            linesWithBreaks_of_break isBreak (by simp)]
          rfl
      | cons next rest =>
          have apart : ∀ {more : Text},
              ¬(c = '\r' ∧ (next :: more).head? = some (.char '\n')) := by
            rintro more ⟨rfl, isFeed⟩
            rw [List.head?_cons, Option.some.injEq] at isFeed
            exact notPair rest rfl (by rw [isFeed])
          rw [endsLine_cons] at ends
          rw [List.cons_append, List.cons_append, linesWithBreaks_of_break isBreak apart,
            linesWithBreaks_of_break isBreak apart, ← List.cons_append, ih ends,
            List.cons_append]
  | case4 c rest notPair notBreak noLine ih =>
      cases rest with
      | nil =>
          -- No line ends after the last character, so nothing may follow it.
          cases after with
          | nil => simp [linesWithBreaks]
          | cons first after => simp [endsLine, notBreak] at ends
      | cons next rest => exact absurd noLine linesWithBreaks_ne_nil
  | case5 c rest notPair notBreak line more lines ih =>
      cases rest with
      | nil => simp [linesWithBreaks] at lines
      | cons next rest =>
          rw [Bool.not_eq_true] at notBreak
          rw [endsLine_cons] at ends
          rw [List.cons_append, linesWithBreaks_of_notBreak notBreak,
            linesWithBreaks_of_notBreak notBreak, ih ends, lines]
          rfl

end Text

namespace Directive

/-- The directive that a line spells, without the characters that end the line. -/
def ofLine? (line : Text) : Option Directive :=
  read? (splitLineEnd line).1

/-- The lines, each with its directive if it starts at the top and spells one. Where the top is
depends on the text before the line. -/
def choose (isTop : Text → Bool) (before : Text) : List Text → List (Text × Option Directive)
  | [] => []
  | line :: rest =>
    (line, if isTop before then ofLine? line else none) :: choose isTop (before ++ line) rest

/-- What remains of a line. -/
def keep : Text × Option Directive → Text
  | (line, none) => line
  | (line, some _) => (splitLineEnd line).2

/-- The text that remains when the directives are taken out, and the directives. -/
def collect (choices : List (Text × Option Directive)) : Text × List Directive :=
  (choices.flatMap keep, choices.filterMap Prod.snd)

variable {isTop isTop' : Text → Bool} {before text : Text} {lines : List Text} {number : Nat}
  {taken : Text × List Directive}

/-- Whether a scope, if this is one, has a legal value. -/
def isLegal (directive : Directive) : Bool :=
  !directive.isScope || isScopeValue directive.value

theorem choose_append {more : List Text} :
    choose isTop before (lines ++ more) =
      choose isTop before lines ++ choose isTop (before ++ lines.flatten) more := by
  induction lines generalizing before with
  | nil => simp [choose]
  | cons line rest ih =>
      simp [choose, ih, List.append_assoc]

theorem length_choose : (choose isTop before lines).length = lines.length := by
  induction lines generalizing before with
  | nil => rfl
  | cons line rest ih => simp [choose, ih]

theorem collect_append (choices more : List (Text × Option Directive)) :
    collect (choices ++ more) =
      ((collect choices).1 ++ (collect more).1, (collect choices).2 ++ (collect more).2) := by
  simp [collect]

theorem collect_choose_false (before : Text) (lines : List Text) :
    collect (choose (fun _ => false) before lines) = (lines.flatten, []) := by
  induction lines generalizing before with
  | nil => rfl
  | cons line rest ih =>
      rw [choose, ← List.singleton_append, collect_append, ih]
      simp [collect, keep]

/-- Two ideas of where the top is choose the same lines if they agree at every line that spells a
directive. -/
theorem choose_eq_iff :
    choose isTop before lines = choose isTop' before lines ↔
      ∀ front line back, lines = front ++ line :: back → (ofLine? line).isSome = true →
        isTop (before ++ front.flatten) = isTop' (before ++ front.flatten) := by
  induction lines generalizing before with
  | nil => simp [choose]
  | cons line rest ih =>
      rw [choose, choose, List.cons.injEq, ih, Prod.mk.injEq]
      constructor
      · rintro ⟨⟨_, sameChoice⟩, sameRest⟩ front found back isLines spells
        rcases List.cons_eq_append_iff.mp isLines with ⟨rfl, isFirst⟩ | ⟨front, rfl, isRest⟩
        · rw [List.cons.injEq] at isFirst
          rw [isFirst.1] at spells
          rcases Option.isSome_iff_exists.mp spells with ⟨directive, isDirective⟩
          rw [isDirective] at sameChoice
          rw [List.flatten_nil, List.append_nil]
          revert sameChoice
          cases isTop before <;> cases isTop' before <;> simp
        · have same := sameRest front found back isRest spells
          simpa [List.append_assoc] using same
      · intro same
        refine ⟨⟨rfl, ?_⟩, ?_⟩
        · cases spells : ofLine? line with
          | none => simp
          | some directive =>
              have sameTop := same [] line rest rfl (by simp [spells])
              rw [List.flatten_nil, List.append_nil] at sameTop
              rw [sameTop]
        · intro front found back isRest spells
          have sameTop := same (line :: front) found back (by rw [isRest]; rfl) spells
          simpa [List.append_assoc] using sameTop

/-- If the same directives are collected from the first lines, however many these are, then the
same lines are chosen. -/
theorem choose_eq_of_collect
    (same : ∀ front, front <+: lines →
      collect (choose isTop [] front) = collect (choose isTop' [] front)) :
    choose isTop [] lines = choose isTop' [] lines := by
  induction lines using List.reverseRecOn with
  | nil => rfl
  | append_singleton front line ih =>
      have sameFront := ih fun shorter isShorter =>
        same shorter (isShorter.trans (List.prefix_append front [line]))
      have sameDirectives := congrArg Prod.snd (same _ List.prefix_rfl)
      rw [choose_append, choose_append, collect_append, collect_append, sameFront,
        List.append_cancel_left_eq] at sameDirectives
      rw [choose_append, choose_append, sameFront, List.append_cancel_left_eq]
      simp only [choose, collect, List.filterMap_cons, List.filterMap_nil] at sameDirectives ⊢
      generalize (if isTop ([] ++ front.flatten) = true then ofLine? line else none) = first
        at sameDirectives ⊢
      generalize (if isTop' ([] ++ front.flatten) = true then ofLine? line else none) = second
        at sameDirectives ⊢
      cases first <;> cases second <;> simp_all

theorem braceBalance_append (front rest : Text) :
    braceBalance (front ++ rest) = braceBalance front + braceBalance rest := by
  simp only [braceBalance, List.count_append]
  omega

/-- The directives are taken from the lines that start at depth zero. -/
theorem takeFrom_eq_ok_iff {depth : Int} (isDepth : depth = braceBalance before) :
    takeFrom depth number lines = .ok taken ↔
      (∀ directive ∈ taken.2, directive.isLegal = true) ∧
        collect (choose (braceBalance · == 0) before lines) = taken := by
  induction lines generalizing depth number before taken with
  | nil =>
      rw [takeFrom, choose, Except.ok.injEq]
      constructor
      · rintro rfl
        exact ⟨by simp, rfl⟩
      · exact fun isTaken => isTaken.2
  | cons line rest ih =>
      have isNext : depth + braceBalance line = braceBalance (before ++ line) := by
        rw [isDepth, braceBalance_append]
      rw [choose]
      generalize isChosen :
        (if (braceBalance before == 0) = true then ofLine? line else none) = chosen
      have sameChoice : (if depth = 0 then read? (splitLineEnd line).1 else none) = chosen := by
        rw [← isChosen, isDepth]
        simp [ofLine?]
      generalize isLater : choose (braceBalance · == 0) (before ++ line) rest = later
      have ofRest := @ih _ (number + Text.lineFeeds line) (collect later) _ isNext
      rw [isLater] at ofRest
      rw [takeFrom]
      cases takenRest : takeFrom (depth + braceBalance line)
        (number + Text.lineFeeds line) rest with
      | error error =>
          constructor
          · intro fails
            simp at fails
          · rintro ⟨legal, rfl⟩
            have legalLater : ∀ directive ∈ (collect later).2, directive.isLegal = true := by
              intro directive isLaterDirective
              apply legal
              rw [← List.singleton_append, collect_append]
              exact List.mem_append_right _ isLaterDirective
            rw [ofRest.mpr ⟨legalLater, rfl⟩] at takenRest
            simp at takenRest
      | ok takenLater =>
          rcases (ih isNext).mp takenRest with ⟨legalLater, rfl⟩
          rw [isLater] at legalLater ⊢
          simp only [sameChoice]
          cases chosen with
          | none =>
              rw [Except.ok.injEq]
              constructor
              · rintro rfl
                exact ⟨legalLater, rfl⟩
              · exact fun isTaken => isTaken.2
          | some directive =>
              have isIllegal : (directive.isScope && !isScopeValue directive.value) =
                  !directive.isLegal := by
                simp [isLegal]
              simp only [isIllegal]
              cases legal : directive.isLegal with
              | false =>
                  constructor
                  · intro fails
                    simp at fails
                  · rintro ⟨allLegal, rfl⟩
                    have isTaken := allLegal directive List.mem_cons_self
                    simp [legal] at isTaken
              | true =>
                  simp only [Bool.not_true, Bool.false_eq_true, if_false, Except.ok.injEq]
                  constructor
                  · rintro rfl
                    exact ⟨List.forall_mem_cons.mpr ⟨legal, legalLater⟩, rfl⟩
                  · exact fun isTaken => isTaken.2

theorem takeFrom_zero_eq_ok_iff :
    takeFrom 0 number lines = .ok taken ↔
      (∀ directive ∈ taken.2, directive.isLegal = true) ∧
        collect (choose (braceBalance · == 0) [] lines) = taken :=
  takeFrom_eq_ok_iff (by simp [braceBalance])

/-- Whether a text begins, after spaces and tabs, with an at sign. -/
def StartsWithAt (text : Text) : Prop :=
  (text.dropWhile fun (c : CodePoint) => c == ' ' || c == '\t').head? = some (.char '@')

instance (text : Text) : Decidable (StartsWithAt text) :=
  inferInstanceAs (Decidable (_ = _))

theorem startsWithAt_cons {c : CodePoint} :
    StartsWithAt (c :: text) ↔ c = .char '@' ∨ (c = ' ' ∨ c = '\t') ∧ StartsWithAt text := by
  simp only [StartsWithAt, List.dropWhile_cons, Bool.or_eq_true, beq_iff_eq]
  split
  · next isIndent =>
    have notAt : c ≠ .char '@' := by
      rintro rfl
      exact absurd isIndent (by decide)
    simp [isIndent, notAt]
  · next notIndent => simp [notIndent]

theorem StartsWithAt.ne_nil (starts : StartsWithAt text) : text ≠ [] := by
  rintro rfl
  simp [StartsWithAt] at starts

theorem StartsWithAt.append (starts : StartsWithAt text) (rest : Text) :
    StartsWithAt (text ++ rest) := by
  induction text with
  | nil => exact absurd rfl starts.ne_nil
  | cons c text ih =>
      rw [List.cons_append, startsWithAt_cons]
      exact (startsWithAt_cons.mp starts).imp_right (And.imp_right ih)

theorem splitLineEnd_append (line : Text) :
    (splitLineEnd line).1 ++ (splitLineEnd line).2 = line := by
  rw [splitLineEnd, ← List.reverse_append, List.takeWhile_append_dropWhile, List.reverse_reverse]

theorem startsWithAt_of_ofLine? {line : Text} (spells : (ofLine? line).isSome = true) :
    StartsWithAt line := by
  rw [← splitLineEnd_append line]
  apply StartsWithAt.append
  rw [ofLine?, read?] at spells
  split at spells
  · next written isWritten => rw [StartsWithAt, isWritten, List.head?_cons]
  · simp at spells

theorem StartsWithAt.of_append {front : Text} (noAt : .char '@' ∉ front)
    (starts : StartsWithAt (front ++ text)) : StartsWithAt text := by
  induction front with
  | nil => exact starts
  | cons c front ih =>
      rw [List.mem_cons, not_or] at noAt
      rcases startsWithAt_cons.mp starts with isAt | ⟨_, startsLater⟩
      · exact absurd isAt.symm noAt.1
      · exact ih noAt.2 startsLater

end Directive

namespace Brace

/-- The number of open square brackets after a character. -/
def nextBrackets (brackets : Nat) (c : CodePoint) : Nat :=
  if c = '[' then brackets + 1 else if c = ']' then brackets - 1 else brackets

/-- How a character changes the depth of braces. -/
def depthChange (brackets : Nat) (c : CodePoint) : Int :=
  if brackets = 0 then Directive.braceBalance [c] else 0

theorem splitAtClosing_cons {depth : Int} {brackets : Nat} {c : CodePoint} {rest : Text} :
    splitAtClosing depth brackets (c :: rest) =
      if c = '}' ∧ brackets = 0 ∧ depth = 1 then some ([], rest)
      else (splitAtClosing (depth + depthChange brackets c) (nextBrackets brackets c) rest).map
        fun (body, after) => (c :: body, after) := by
  simp only [splitAtClosing, nextBrackets, depthChange, Directive.braceBalance]
  by_cases isOpen : c = '['
  · simp [isOpen]
  · by_cases noBrackets : brackets = 0
    · by_cases isBrace : c = '{'
      · simp [isBrace, noBrackets]
      · by_cases isClosing : c = '}'
        · by_cases isOne : depth = 1
          · simp [isClosing, noBrackets, isOne]
          · simp [isClosing, noBrackets, isOne, Int.sub_eq_add_neg]
        · simp [isOpen, isBrace, isClosing, noBrackets]
    · simp [isOpen, noBrackets]

/-- The brace after a body is the first that brings the depth back to zero, where `depth` braces and
`brackets` square brackets are open at the start. -/
def IsBody (depth : Int) (brackets : Nat) : Text → Prop
  | [] => brackets = 0 ∧ depth = 1
  | c :: rest => ¬(c = '}' ∧ brackets = 0 ∧ depth = 1) ∧
    IsBody (depth + depthChange brackets c) (nextBrackets brackets c) rest

variable {depth : Int} {brackets : Nat} {text body after : Text}

theorem splitAtClosing_of_isBody (isBody : IsBody depth brackets body) (after : Text) :
    splitAtClosing depth brackets (body ++ .char '}' :: after) = some (body, after) := by
  induction body generalizing depth brackets with
  | nil => rw [List.nil_append, splitAtClosing_cons, if_pos ⟨rfl, isBody⟩]
  | cons c body ih =>
      rw [List.cons_append, splitAtClosing_cons, if_neg isBody.1, ih isBody.2]
      rfl

theorem isBody_of_splitAtClosing (found : splitAtClosing depth brackets text = some (body, after)) :
    IsBody depth brackets body := by
  induction text generalizing depth brackets body with
  | nil => simp [splitAtClosing] at found
  | cons c text ih =>
      rw [splitAtClosing_cons] at found
      split at found
      · next isClosing =>
        rw [Option.some.injEq, Prod.mk.injEq] at found
        rw [← found.1]
        exact isClosing.2
      · next goesOn =>
        rcases Option.map_eq_some_iff.mp found with ⟨⟨inner, innerAfter⟩, foundInner, same⟩
        rw [Prod.mk.injEq] at same
        rw [same.2] at foundInner
        rw [← same.1]
        exact ⟨goesOn, ih foundInner⟩

/-- Whether a text, where `brackets` square brackets are open at the start, has no brace inside
square brackets. -/
def hasPlainValues (brackets : Nat) : Text → Bool
  | [] => true
  | c :: rest =>
    (brackets == 0 || c != '{' && c != '}') && hasPlainValues (nextBrackets brackets c) rest

/-- Without braces inside square brackets, counting braces finds the end of a body: the depth stays
positive before it and is one at it. -/
theorem braceBalance_of_isBody (isBody : IsBody depth brackets body)
    (plain : hasPlainValues brackets body = true) (positive : 1 ≤ depth) :
    depth + Directive.braceBalance body = 1 ∧
      ∀ front rest, body = front ++ rest → 1 ≤ depth + Directive.braceBalance front := by
  induction body generalizing depth brackets with
  | nil =>
      refine ⟨by simp [isBody.2, Directive.braceBalance], ?_⟩
      intro front rest isNothing
      rw [List.nil_eq, List.append_eq_nil_iff] at isNothing
      simp [isNothing.1, isBody.2, Directive.braceBalance]
  | cons c body ih =>
      rw [hasPlainValues, Bool.and_eq_true] at plain
      have isChange : depthChange brackets c = Directive.braceBalance [c] := by
        rw [depthChange]
        split
        · rfl
        · next inBrackets =>
          have notBrace : c ≠ '{' ∧ c ≠ '}' := by simpa [inBrackets] using plain.1
          simp [Directive.braceBalance, notBrace]
      have stays : 1 ≤ depth + depthChange brackets c := by
        by_cases isClosing : c = '}' ∧ brackets = 0
        · have notOne : depth ≠ 1 := fun isOne => isBody.1 ⟨isClosing.1, isClosing.2, isOne⟩
          have isLess : depthChange brackets c = -1 := by
            rw [depthChange, if_pos isClosing.2, isClosing.1]
            decide
          omega
        · have notLess : 0 ≤ depthChange brackets c := by
            rw [depthChange]
            split
            · next noBrackets =>
              have notClosing : c ≠ '}' := fun isBrace => isClosing ⟨isBrace, noBrackets⟩
              simp [Directive.braceBalance, notClosing]
            · exact le_refl 0
          omega
      rcases ih isBody.2 plain.2 stays with ⟨atEnd, before⟩
      rw [isChange] at atEnd before stays
      refine ⟨?_, ?_⟩
      · rw [← List.singleton_append, Directive.braceBalance_append]
        omega
      · intro front rest isFront
        cases front with
        | nil => simpa [Directive.braceBalance] using positive
        | cons first front =>
            rw [List.cons_append, List.cons.injEq] at isFront
            have later := before front rest isFront.2
            rw [← isFront.1, ← List.singleton_append, Directive.braceBalance_append]
            omega

end Brace

namespace Source

/-- Whether a text may be the name of a class. -/
def isClassName (name : Text) : Bool :=
  match name with
  | .char '-' :: first :: rest => isIdentifierStart first && rest.all isNameChar
  | first :: rest => isIdentifierStart first && rest.all isNameChar
  | [] => false

/-- A class as a source writes it. -/
structure WrittenClass where
  name : Text
  /-- The blanks between the name and the brace. -/
  gap : Text
  body : Text
  isName : isClassName name = true
  isGap : ∀ c ∈ gap, isBlank c = true
  /-- The brace after the body is the one that closes the class. -/
  isBody : Brace.splitAtClosing 1 0 (body ++ [.char '}']) = some (body, [])

/-- The text of the class. -/
def WrittenClass.text (written : WrittenClass) : Text :=
  .char '.' :: (written.name ++ written.gap ++ .char '{' :: (written.body ++ [.char '}']))

/-- A part of a source without constants and keyframes. -/
inductive Part where
  /-- A class. -/
  | ofClass (written : WrittenClass)
  /-- Blanks between classes and lines. -/
  | blanks (text : Text) (areBlanks : ∀ c ∈ text, isBlank c = true)
  /-- A line with an at sign, including the break that ends it. -/
  | line (text : Text) (isLine : Text.linesWithBreaks text = [text])
      (starts : Directive.StartsWithAt text)

namespace Part

/-- The text of the part. -/
def text : Part → Text
  | ofClass written => written.text
  | blanks text _ => text
  | line text _ _ => text

/-- Whether the part is a class. -/
def isClass : Part → Bool
  | ofClass _ => true
  | _ => false

/-- Whether the part is a line with an at sign. -/
def isLine : Part → Bool
  | line _ _ _ => true
  | _ => false

/-- The directive of the part. -/
def directive? : Part → Option Directive
  | line text _ _ => Directive.ofLine? text
  | _ => none

/-- What remains of the part when directives are taken out. -/
def remaining (part : Part) : Text :=
  Directive.keep (part.text, part.directive?)

end Part

/-- Whether the lines among the parts are lines of the text, where some text stands before. -/
def areLines (before : Text) : List Part → Bool
  | [] => true
  | part :: rest =>
    (!part.isLine ||
      Text.endsLine before part.text && Text.endsLine part.text (rest.flatMap Part.text)) &&
      areLines (before ++ part.text) rest

/-- Whether a position is outside every class. -/
def isOutside : List Part → Nat → Bool
  | [], _ => true
  | part :: rest, position =>
    if position < part.text.length then position == 0 || !part.isClass
    else isOutside rest (position - part.text.length)

variable {before front rest : Text} {part : Part} {parts : List Part} {isTop : Text → Bool}

theorem areLines_of_append {after : Text} (lines : areLines (before ++ after) parts = true) :
    areLines after parts = true := by
  induction parts generalizing after with
  | nil => rfl
  | cons part rest ih =>
      simp only [areLines, Bool.and_eq_true, Bool.or_eq_true] at lines ⊢
      refine ⟨lines.1.imp_right (And.imp_left Text.endsLine_of_append), ?_⟩
      apply ih
      rw [← List.append_assoc]
      exact lines.2

theorem isOutside_append (front back : List Part) (position : Nat) :
    isOutside (front ++ back) ((front.flatMap Part.text).length + position) =
      isOutside back position := by
  induction front with
  | nil => simp
  | cons part front ih =>
      rw [List.cons_append, isOutside, List.flatMap_cons, List.length_append, if_neg (by omega),
        ← ih]
      congr 1
      omega

theorem isOutside_of_append {front back : List Part} {position : Nat}
    (outside : isOutside (front ++ back) position = true) : isOutside front position = true := by
  induction front generalizing position with
  | nil => rfl
  | cons part front ih =>
      rw [List.cons_append, isOutside] at outside
      rw [isOutside]
      split at outside
      · next isInside => rwa [if_pos isInside]
      · next isBeyond =>
        rw [if_neg isBeyond]
        exact ih outside

theorem isOutside_zero (parts : List Part) : isOutside parts 0 = true := by
  induction parts with
  | nil => rfl
  | cons part rest ih =>
      rw [isOutside]
      split
      · rfl
      · rwa [Nat.zero_sub]

/-- Outside the classes, a text of classes and blanks nowhere goes on with an at sign. -/
theorem not_startsWithAt_of_isOutside (noLine : ∀ part ∈ parts, part.isLine = false)
    (isText : parts.flatMap Part.text = front ++ rest)
    (outside : isOutside parts front.length = true) : ¬Directive.StartsWithAt rest := by
  induction parts generalizing front rest with
  | nil =>
      rw [List.flatMap_nil, List.nil_eq, List.append_eq_nil_iff] at isText
      exact fun starts => starts.ne_nil isText.2
  | cons part parts ih =>
      rw [List.forall_mem_cons] at noLine
      rw [isOutside] at outside
      rcases List.append_eq_append_iff.mp isText with ⟨more, isFront, isRest⟩ |
        ⟨more, isPart, isRest⟩
      · have isBeyond : ¬front.length < part.text.length := by
          rw [isFront, List.length_append]
          omega
        rw [if_neg isBeyond, isFront, List.length_append, Nat.add_sub_cancel_left] at outside
        exact ih noLine.2 isRest outside
      · have ofNext : ¬Directive.StartsWithAt (parts.flatMap Part.text) :=
          ih noLine.2 (List.nil_append _).symm (isOutside_zero parts)
        cases part with
        | ofClass written =>
            cases more with
            | nil => rwa [isRest]
            | cons c more =>
                have isInside : front.length < (Part.ofClass written).text.length := by
                  simp [isPart]
                have isStart : front = [] := by
                  simpa [isInside, Part.isClass] using outside
                rw [isStart, List.nil_append, Part.text, WrittenClass.text,
                  List.cons.injEq] at isPart
                rw [isRest, List.cons_append, ← isPart.1, Directive.startsWithAt_cons]
                simp
        | blanks text areBlanks =>
            intro starts
            rw [isRest] at starts
            apply ofNext
            apply starts.of_append
            intro isChar
            have isBlankChar := areBlanks (.char '@') (by
              rw [show text = front ++ more from isPart]
              exact List.mem_append_right _ isChar)
            exact absurd isBlankChar (by decide)
        | line text isLine starts => simp [Part.isLine] at noLine

/-- Nothing is taken out of classes and blanks. -/
theorem collect_choose_of_noLine (noLine : ∀ part ∈ parts, part.isLine = false)
    (isOuter : ∀ front, isTop (before ++ front) = true → isOutside parts front.length = true) :
    Directive.collect (Directive.choose isTop before
      (Text.linesWithBreaks (parts.flatMap Part.text))) = (parts.flatMap Part.text, []) := by
  have nowhere : Directive.choose isTop before (Text.linesWithBreaks (parts.flatMap Part.text)) =
      Directive.choose (fun _ => false) before
        (Text.linesWithBreaks (parts.flatMap Part.text)) := by
    rw [Directive.choose_eq_iff]
    intro front line back isLines spells
    rw [← Bool.not_eq_true]
    intro isTopmost
    have isText : parts.flatMap Part.text = front.flatten ++ (line ++ back.flatten) := by
      rw [← Text.flatten_linesWithBreaks (parts.flatMap Part.text), isLines]
      simp
    exact not_startsWithAt_of_isOutside noLine isText (isOuter _ isTopmost)
      ((Directive.startsWithAt_of_ofLine? spells).append _)
  rw [nowhere, Directive.collect_choose_false, Text.flatten_linesWithBreaks]

/-- Taking the lines outside the classes takes the directives among the parts. -/
theorem collect_choose {chunk : List Part} (noLine : ∀ part ∈ chunk, part.isLine = false)
    (lines : areLines (chunk.flatMap Part.text) parts = true)
    (isOuter : ∀ front, isTop (before ++ front) = isOutside (chunk ++ parts) front.length) :
    Directive.collect (Directive.choose isTop before
        (Text.linesWithBreaks ((chunk ++ parts).flatMap Part.text))) =
      (chunk.flatMap Part.text ++ parts.flatMap Part.remaining,
        parts.filterMap Part.directive?) := by
  -- The parts before the next line with an at sign are put off, as they need not end with a line.
  induction parts generalizing chunk before with
  | nil =>
      rw [List.append_nil] at isOuter ⊢
      simpa using collect_choose_of_noLine noLine fun front isTopmost => isOuter front ▸ isTopmost
  | cons part parts ih =>
      rw [areLines, Bool.and_eq_true] at lines
      rcases lines with ⟨ownLine, laterLines⟩
      have putOff : part.isLine = false → part.remaining = part.text ∧ part.directive? = none →
          Directive.collect (Directive.choose isTop before
              (Text.linesWithBreaks ((chunk ++ part :: parts).flatMap Part.text))) =
            (chunk.flatMap Part.text ++ (part :: parts).flatMap Part.remaining,
              (part :: parts).filterMap Part.directive?) := by
        rintro notLine ⟨remains, noDirective⟩
        have noLineBefore : ∀ earlier ∈ chunk ++ [part], earlier.isLine = false := by
          simpa [or_imp, forall_and] using ⟨noLine, notLine⟩
        rw [List.append_cons] at isOuter ⊢
        rw [ih noLineBefore (by simpa using laterLines) isOuter]
        simp [remains, noDirective]
      cases part with
      | ofClass written => exact putOff rfl ⟨rfl, rfl⟩
      | blanks text areBlanks => exact putOff rfl ⟨rfl, rfl⟩
      | line text isLine starts =>
          have ends : Text.endsLine (chunk.flatMap Part.text) text = true ∧
              Text.endsLine text (parts.flatMap Part.text) = true := by
            simpa [Part.isLine, Part.text] using ownLine
          rcases ends with ⟨endsBefore, endsAfter⟩
          rw [← Text.endsLine_append starts.ne_nil (parts.flatMap Part.text)] at endsBefore
          have ofChunk : Directive.collect (Directive.choose isTop before
              (Text.linesWithBreaks (chunk.flatMap Part.text))) =
                (chunk.flatMap Part.text, []) := by
            apply collect_choose_of_noLine noLine
            intro front isTopmost
            rw [isOuter] at isTopmost
            exact isOutside_of_append isTopmost
          have atLine : isTop (before ++ chunk.flatMap Part.text) = true := by
            have sameTop := isOutside_append chunk (.line text isLine starts :: parts) 0
            rw [Nat.add_zero, isOutside_zero] at sameTop
            rw [isOuter, sameTop]
          rw [List.append_cons] at isOuter
          have laterOwn : areLines [] parts = true :=
            areLines_of_append (by rw [List.append_nil]; exact laterLines)
          have ofRest : Directive.collect (Directive.choose isTop
                (before ++ chunk.flatMap Part.text ++ text)
                (Text.linesWithBreaks (parts.flatMap Part.text))) =
              (parts.flatMap Part.remaining, parts.filterMap Part.directive?) := by
            apply @ih _ [] (by simp) laterOwn
            intro front
            have sameTop :=
              isOutside_append (chunk ++ [.line text isLine starts]) parts front.length
            simp only [List.append_assoc, isOuter]
            rw [List.nil_append, ← sameTop]
            simp [Part.text, Nat.add_assoc]
          have isText : (chunk ++ .line text isLine starts :: parts).flatMap Part.text =
              chunk.flatMap Part.text ++ (text ++ parts.flatMap Part.text) := by
            simp [Part.text]
          rw [isText, Text.linesWithBreaks_append endsBefore, Text.linesWithBreaks_append endsAfter,
            isLine, Directive.choose_append, Text.flatten_linesWithBreaks, Directive.collect_append,
            ofChunk, List.singleton_append, Directive.choose, atLine, ← List.singleton_append,
            Directive.collect_append, ofRest]
          have isOwn : Directive.collect [(text, Directive.ofLine? text)] =
              ((Part.line text isLine starts).remaining,
                (Part.line text isLine starts).directive?.toList) := by
            simp only [Directive.collect, List.flatMap_singleton, Part.remaining, Part.text,
              Part.directive?]
            cases Directive.ofLine? text <;> rfl
          rw [if_pos rfl, isOwn]
          cases isDirective : (Part.line text isLine starts).directive? <;> simp [isDirective]

/-- Whether counting all braces of the part is as good as finding the end of the class: there is no
brace inside square brackets and none in a line with an at sign. -/
def Part.isPlain : Part → Bool
  | ofClass written => Brace.hasPlainValues 0 written.body
  | blanks _ _ => true
  | line text _ _ => .char '{' ∉ text ∧ .char '}' ∉ text

theorem braceBalance_eq_zero {text : Text} (noBrace : .char '{' ∉ text ∧ .char '}' ∉ text) :
    Directive.braceBalance text = 0 := by
  rw [Directive.braceBalance, List.count_eq_zero.mpr noBrace.1, List.count_eq_zero.mpr noBrace.2]
  rfl

theorem isNameChar_of_isIdentifierStart {c : CodePoint} (isStart : isIdentifierStart c = true) :
    isNameChar c = true := by
  simp only [isIdentifierStart, Bool.or_eq_true, isLetter, Bool.and_eq_true,
    decide_eq_true_eq] at isStart
  simp only [isNameChar, isWordChar, isAlphanumeric, isLetter, Bool.or_eq_true]
  rcases isStart with isLetter | isUnderscore
  · left
    left
    rw [if_pos (by omega)]
    simp only [Bool.or_eq_true, Bool.and_eq_true, decide_eq_true_eq]
    exact Or.inl isLetter
  · exact Or.inl (Or.inr isUnderscore)

theorem isNameChar_of_isClassName {name : Text} (isName : isClassName name = true) :
    ∀ c ∈ name, isNameChar c = true := by
  unfold isClassName at isName
  split at isName
  · next first rest =>
    rw [Bool.and_eq_true, List.all_eq_true] at isName
    simp only [List.forall_mem_cons]
    exact ⟨by decide, isNameChar_of_isIdentifierStart isName.1, isName.2⟩
  · next first rest _ =>
    rw [Bool.and_eq_true, List.all_eq_true] at isName
    rw [List.forall_mem_cons]
    exact ⟨isNameChar_of_isIdentifierStart isName.1, isName.2⟩
  · simp at isName

namespace WrittenClass

theorem not_mem_header (written : WrittenClass) {c : CodePoint} (notName : isNameChar c = false)
    (notBlank : isBlank c = false) : c ∉ written.name ++ written.gap := by
  intro isChar
  rcases List.mem_append.mp isChar with inName | inGap
  · simpa [notName] using isNameChar_of_isClassName written.isName c inName
  · simpa [notBlank] using written.isGap c inGap

theorem braceBalance_text {written : WrittenClass}
    (plain : Brace.hasPlainValues 0 written.body = true) :
    Directive.braceBalance written.text = 0 := by
  have closes := Brace.isBody_of_splitAtClosing written.isBody
  have ofBody := (Brace.braceBalance_of_isBody closes plain le_rfl).1
  have ofHeader : Directive.braceBalance (written.name ++ written.gap) = 0 :=
    braceBalance_eq_zero ⟨written.not_mem_header (by decide) (by decide),
      written.not_mem_header (by decide) (by decide)⟩
  have isText : written.text = [CodePoint.char '.'] ++ (written.name ++ written.gap) ++
      ([CodePoint.char '{'] ++ written.body ++ [CodePoint.char '}']) := by
    simp [text]
  rw [isText]
  simp only [Directive.braceBalance_append, ofHeader]
  have ofDot : Directive.braceBalance [.char '.'] = 0 := by decide
  have ofOpening : Directive.braceBalance [.char '{'] = 1 := by decide
  have ofClosing : Directive.braceBalance [.char '}'] = -1 := by decide
  omega

/-- Where a line with an at sign starts inside a class, more braces are open than closed. -/
theorem braceBalance_pos {written : WrittenClass}
    (plain : Brace.hasPlainValues 0 written.body = true) {front rest after : Text}
    (isText : written.text = front ++ rest) (started : front ≠ []) (goesOn : rest ≠ [])
    (starts : Directive.StartsWithAt (rest ++ after)) : 0 < Directive.braceBalance front := by
  cases front with
  | nil => exact absurd rfl started
  | cons dot front =>
      rw [text, List.cons_append, List.cons.injEq] at isText
      rcases List.append_eq_append_iff.mp isText.2 with
        ⟨inside, isFront, isInside⟩ | ⟨header, isHeader, isRest⟩
      · cases inside with
        | nil =>
            rw [List.nil_append] at isInside
            rw [← isInside, List.cons_append, Directive.startsWithAt_cons] at starts
            exact absurd starts (by simp)
        | cons brace inside =>
            rw [List.cons_append, List.cons.injEq] at isInside
            have isBody : ∃ more, written.body = inside ++ more := by
              rcases List.append_eq_append_iff.mp isInside.2 with
                ⟨extra, isLonger, isClosing⟩ | ⟨more, isShorter, _⟩
              · cases extra with
                | nil => exact ⟨[], by rw [isLonger, List.append_nil, List.append_nil]⟩
                | cons c extra =>
                    rw [List.cons_append, List.cons.injEq, List.nil_eq,
                      List.append_eq_nil_iff] at isClosing
                    exact absurd isClosing.2.2 goesOn
              · exact ⟨more, isShorter⟩
            rcases isBody with ⟨more, isBody⟩
            have closes := Brace.isBody_of_splitAtClosing written.isBody
            have ofBody := (Brace.braceBalance_of_isBody closes plain le_rfl).2 inside more isBody
            have ofHeader : Directive.braceBalance (written.name ++ written.gap) = 0 :=
              braceBalance_eq_zero ⟨written.not_mem_header (by decide) (by decide),
                written.not_mem_header (by decide) (by decide)⟩
            have isOpened : dot :: front =
                [CodePoint.char '.'] ++ (written.name ++ written.gap) ++ [CodePoint.char '{'] ++
                  inside := by
              rw [isFront, ← isText.1, ← isInside.1]
              simp
            have ofDot : Directive.braceBalance [.char '.'] = 0 := by decide
            have ofOpening : Directive.braceBalance [.char '{'] = 1 := by decide
            rw [isOpened, Directive.braceBalance_append, Directive.braceBalance_append,
              Directive.braceBalance_append, ofHeader]
            omega
      · -- Between the dot and the brace there is no at sign.
        have noAt : .char '@' ∉ header := by
          intro isChar
          apply @not_mem_header written (.char '@') (by decide) (by decide)
          rw [isHeader]
          exact List.mem_append_right _ isChar
        rw [isRest, List.append_assoc] at starts
        have startsAtBrace := starts.of_append noAt
        rw [List.cons_append, Directive.startsWithAt_cons] at startsAtBrace
        exact absurd startsAtBrace (by simp)

end WrittenClass

theorem Part.not_brace_of_notClass (plain : part.isPlain = true) (notClass : part.isClass = false) :
    .char '{' ∉ part.text ∧ .char '}' ∉ part.text := by
  cases part with
  | ofClass written => simp [isClass] at notClass
  | blanks text areBlanks =>
      constructor
      · exact fun isChar => absurd (areBlanks _ isChar) (by decide)
      · exact fun isChar => absurd (areBlanks _ isChar) (by decide)
  | line text isLine starts => simpa [isPlain, Part.text] using plain

theorem Part.braceBalance_text (plain : part.isPlain = true) :
    Directive.braceBalance part.text = 0 := by
  cases part with
  | ofClass written => exact written.braceBalance_text plain
  | blanks text areBlanks => exact braceBalance_eq_zero (not_brace_of_notClass plain rfl)
  | line text isLine starts => exact braceBalance_eq_zero (not_brace_of_notClass plain rfl)

/-- Counting braces tells inside from outside at every line with an at sign, if all parts are
plain. -/
theorem braceBalance_eq_zero_iff (plain : ∀ part ∈ parts, part.isPlain = true)
    (isText : parts.flatMap Part.text = front ++ rest) (starts : Directive.StartsWithAt rest) :
    Directive.braceBalance front = 0 ↔ isOutside parts front.length = true := by
  induction parts generalizing front with
  | nil =>
      rw [List.flatMap_nil, List.nil_eq, List.append_eq_nil_iff] at isText
      simp [isText.1, isOutside, Directive.braceBalance]
  | cons part parts ih =>
      rw [List.forall_mem_cons] at plain
      rcases plain with ⟨plainPart, plainParts⟩
      rw [isOutside]
      rcases List.append_eq_append_iff.mp isText with ⟨more, isFront, isRest⟩ |
        ⟨more, isPart, isRest⟩
      · rw [if_neg (by rw [isFront, List.length_append]; omega), isFront, List.length_append,
          Nat.add_sub_cancel_left, Directive.braceBalance_append, part.braceBalance_text plainPart,
          zero_add]
        exact ih plainParts isRest
      · by_cases atEnd : more = []
        · rw [atEnd, List.append_nil] at isPart
          rw [← isPart, if_neg (by omega), Nat.sub_self, isOutside_zero,
            part.braceBalance_text plainPart]
          simp
        · have isInside : front.length < part.text.length := by
            have positive := List.length_pos_of_ne_nil atEnd
            rw [isPart, List.length_append]
            omega
          rw [if_pos isInside]
          cases isClass : part.isClass with
          | false =>
              have noBrace := part.not_brace_of_notClass plainPart isClass
              rw [isPart, List.mem_append, List.mem_append, not_or, not_or] at noBrace
              simp [braceBalance_eq_zero ⟨noBrace.1.1, noBrace.2.1⟩]
          | true =>
              cases part with
              | ofClass written =>
                  by_cases atStart : front = []
                  · simp [atStart, Directive.braceBalance]
                  · rw [isRest] at starts
                    have positive := written.braceBalance_pos plainPart isPart atStart atEnd starts
                    simp [atStart]
                    omega
              | blanks text areBlanks => simp [Part.isClass] at isClass
              | line text isLine starts => simp [Part.isClass] at isClass

/-- A source without constants and keyframes, cut into its parts. -/
structure Layout where
  parts : List Part
  lineParts : areLines [] parts = true

namespace Layout

/-- The text of the source. -/
def text (layout : Layout) : Text :=
  layout.parts.flatMap Part.text

/-- The lines of the source. -/
def lines (layout : Layout) : List Text :=
  Text.linesWithBreaks layout.text

/-- The directives outside the classes. -/
def directives (layout : Layout) : List Directive :=
  layout.parts.filterMap Part.directive?

/-- The text of the source without the directives outside the classes. -/
def remaining (layout : Layout) : Text :=
  layout.parts.flatMap Part.remaining

/-- However many lines are read, the directives taken are those of the lines that start outside
every class, and everything else remains. -/
def TakesOutside (layout : Layout) : Prop :=
  ∀ front, front <+: layout.lines → Directive.takeFrom 0 1 front =
    .ok (Directive.collect (Directive.choose (fun before => isOutside layout.parts before.length) []
      front))

/-- At every line that spells a directive, as many braces were opened as closed exactly if the line
starts outside every class. -/
def CountsBraces (layout : Layout) : Prop :=
  ∀ front line back, layout.lines = front ++ line :: back →
    (Directive.ofLine? line).isSome = true →
      (Directive.braceBalance front.flatten = 0 ↔
        isOutside layout.parts front.flatten.length = true)

theorem countsBraces_iff {layout : Layout} :
    layout.CountsBraces ↔ Directive.choose (Directive.braceBalance · == 0) [] layout.lines =
      Directive.choose (fun before => isOutside layout.parts before.length) [] layout.lines := by
  rw [Directive.choose_eq_iff, CountsBraces]
  refine forall₅_congr fun front line back isLines spells => ?_
  rw [List.nil_append, @Bool.eq_iff_iff (_ == _), beq_iff_eq]

theorem collect_choose_lines (layout : Layout) :
    Directive.collect (Directive.choose (fun before => isOutside layout.parts before.length) []
      layout.lines) = (layout.remaining, layout.directives) := by
  have noChunk : ∀ part ∈ ([] : List Part), part.isLine = false := by simp
  exact collect_choose noChunk layout.lineParts fun _ => rfl

theorem countsBraces_of_isPlain {layout : Layout}
    (plain : ∀ part ∈ layout.parts, part.isPlain = true) :
    layout.CountsBraces := by
  intro front line back isLines spells
  have isText : layout.parts.flatMap Part.text = front.flatten ++ (line ++ back.flatten) := by
    rw [← Text.flatten_linesWithBreaks (layout.parts.flatMap Part.text)]
    simp [show Text.linesWithBreaks (layout.parts.flatMap Part.text) = _ from isLines]
  exact braceBalance_eq_zero_iff plain isText ((Directive.startsWithAt_of_ofLine? spells).append _)

theorem takeAll_text {layout : Layout} (counts : layout.CountsBraces)
    (legal : ∀ directive ∈ layout.directives, directive.isLegal = true)
    (oneScope : layout.directives.countP Directive.isScope ≤ 1) :
    Directive.takeAll layout.text = .ok (layout.remaining, layout.directives) := by
  have taken : Directive.takeFrom 0 1 layout.lines = .ok (layout.remaining, layout.directives) := by
    rw [Directive.takeFrom_zero_eq_ok_iff, countsBraces_iff.mp counts]
    exact ⟨legal, layout.collect_choose_lines⟩
  rw [Directive.takeAll, show Text.linesWithBreaks layout.text = layout.lines from rfl, taken]
  simp only
  rw [if_neg (by omega)]

/-- Taking directives takes exactly the lines that start outside every class if and only if counting
all braces tells inside from outside where these lines start. Then the classes remain as they are.
This is so if there is no brace inside square brackets and none in a line with an at sign. -/
theorem takesOutside_iff_countsBraces (layout : Layout)
    (legal : ∀ directive ∈ layout.directives, directive.isLegal = true)
    (oneScope : layout.directives.countP Directive.isScope ≤ 1) :
    (layout.TakesOutside ↔ layout.CountsBraces) ∧
      (layout.CountsBraces →
        Directive.takeAll layout.text = .ok (layout.remaining, layout.directives)) ∧
      ((∀ part ∈ layout.parts, part.isPlain = true) → layout.CountsBraces) := by
  refine ⟨⟨?_, ?_⟩, fun counts => takeAll_text counts legal oneScope, countsBraces_of_isPlain⟩
  · intro takes
    rw [countsBraces_iff]
    apply Directive.choose_eq_of_collect
    intro front isFront
    exact (Directive.takeFrom_zero_eq_ok_iff.mp (takes front isFront)).2
  · intro counts front isFront
    rcases isFront with ⟨back, isLines⟩
    have chosen := countsBraces_iff.mp counts
    rw [← isLines, Directive.choose_append, Directive.choose_append] at chosen
    have isTaken := congrArg Prod.snd layout.collect_choose_lines
    rw [← isLines, Directive.choose_append, Directive.collect_append] at isTaken
    have legalLines := legal
    rw [← show _ = layout.directives from isTaken] at legalLines
    have sameFront := (List.append_inj chosen (by simp [Directive.length_choose])).1
    rw [Directive.takeFrom_zero_eq_ok_iff, sameFront]
    exact ⟨fun directive isDirective => legalLines directive (List.mem_append_left _ isDirective),
      rfl⟩

set_option maxRecDepth 10000 in
theorem takesOutside_nested :
    ∃ layout : Layout,
      layout.text = ".a \x7b\n@query &:hover \x7b\n@scope t\n\x7d\n\x7d\n@scope s\n@use k\n" ∧
      layout.TakesOutside ∧ Directive.takeAll layout.text =
        .ok (".a \x7b\n@query &:hover \x7b\n@scope t\n\x7d\n\x7d\n\n@use k\n",
          [⟨"scope", "s"⟩]) := by
  let nested : WrittenClass := {
    name := "a", gap := " ", body := "\n@query &:hover \x7b\n@scope t\n\x7d\n"
    isName := by decide, isGap := by decide, isBody := by decide }
  let layout : Layout := {
    parts := [.ofClass nested, .blanks "\n" (by decide),
      .line "@scope s\n" (by decide) (by decide), .line "@use k\n" (by decide) (by decide)]
    lineParts := by decide }
  have legal : ∀ directive ∈ layout.directives, directive.isLegal = true := by decide
  rcases takesOutside_iff_countsBraces layout legal (by decide) with ⟨takes, takesAll, counts⟩
  have counted : layout.CountsBraces := counts (by decide)
  exact ⟨layout, by decide +kernel, takes.mpr counted, takesAll counted⟩

set_option maxRecDepth 10000 in
/-- A closing brace in a value ends the class for the count of braces, but not for the class. -/
theorem not_takesOutside_value :
    ∃ layout : Layout, layout.text = ".a \x7b\n ct[\x7d]\n@foo bar\n\x7d\n" ∧
      layout.directives = [] ∧ layout.remaining = layout.text ∧ ¬layout.TakesOutside ∧
      Directive.takeAll layout.text =
        .ok (".a \x7b\n ct[\x7d]\n\n\x7d\n", [⟨"foo", "bar"⟩]) := by
  let written : WrittenClass := {
    name := "a", gap := " ", body := "\n ct[\x7d]\n@foo bar\n"
    isName := by decide, isGap := by decide, isBody := by decide }
  let layout : Layout := {
    parts := [.ofClass written, .blanks "\n" (by decide)]
    lineParts := by decide }
  have taken : Directive.takeFrom 0 1 layout.lines =
      .ok (".a \x7b\n ct[\x7d]\n\n\x7d\n", [⟨"foo", "bar"⟩]) := by decide
  refine ⟨layout, by decide, by decide, by decide, ?_, by decide⟩
  intro takes
  have takesAll := takes layout.lines List.prefix_rfl
  rw [collect_choose_lines, taken] at takesAll
  exact absurd takesAll (by decide)

end Layout

end Source

end TerseStyle

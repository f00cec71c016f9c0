import TerseStyle.Proofs.Block
import TerseStyle.Proofs.Grammar
import TerseStyle.Proofs.Layout

/-!
# Reading back a written source

A source may be written from its items, constants, keyframes, directives and classes in any order,
each on lines of its own. Reading it gives the items of each kind in their order
(`Source.parse_render`), although the kinds are taken out of the text one after the other and each
step rewrites the text for the next one.
-/

namespace TerseStyle

namespace Brace

/-- Whether braces and square brackets are balanced and no brace is inside square brackets, where
`depth` braces and `brackets` square brackets are open at the start. -/
def isBalanced (depth brackets : Nat) : Text → Bool
  | [] => depth == 0 && brackets == 0
  | c :: rest =>
    if c = '[' then isBalanced depth (brackets + 1) rest
    else if c = ']' then brackets != 0 && isBalanced depth (brackets - 1) rest
    else if c = '{' then brackets == 0 && isBalanced (depth + 1) brackets rest
    else if c = '}' then brackets == 0 && depth != 0 && isBalanced (depth - 1) brackets rest
    else isBalanced depth brackets rest

theorem exists_of_isBalanced_cons {depth brackets : Nat} {c : CodePoint} {rest : Text}
    (balanced : isBalanced depth brackets (c :: rest) = true) :
    (brackets = 0 ∨ c ≠ '{' ∧ c ≠ '}') ∧ ∃ next : Nat,
      (next : Int) = depth + depthChange brackets c ∧
        isBalanced next (nextBrackets brackets c) rest = true := by
  rw [isBalanced] at balanced
  simp only [depthChange, nextBrackets, Directive.braceBalance]
  split at balanced
  · next isOpen => exact ⟨by simp [isOpen], depth, by simp [isOpen], by simpa [isOpen]⟩
  · next notOpen =>
    split at balanced
    · next isClose =>
      rw [Bool.and_eq_true] at balanced
      exact ⟨by simp [isClose], depth, by simp [isClose], by simpa [isClose] using balanced.2⟩
    · next notClose =>
      split at balanced
      · next isBrace =>
        rw [Bool.and_eq_true, beq_iff_eq] at balanced
        exact ⟨.inl balanced.1, depth + 1, by simp [isBrace, balanced.1],
          by simpa [isBrace] using balanced.2⟩
      · next notBrace =>
        split at balanced
        · next isClosing =>
          rw [Bool.and_eq_true, Bool.and_eq_true, beq_iff_eq, bne_iff_ne] at balanced
          refine ⟨.inl balanced.1.1, depth - 1, ?_, by simpa [isClosing] using balanced.2⟩
          simp [isClosing, balanced.1.1]
          omega
        · next notClosing =>
          exact ⟨.inr ⟨notBrace, notClosing⟩, depth, by simp [notBrace, notClosing],
            by simpa [notOpen, notClose]⟩

theorem isBody_of_isBalanced {depth brackets : Nat} {body : Text}
    (balanced : isBalanced depth brackets body = true) : IsBody (depth + 1) brackets body := by
  induction body generalizing depth brackets with
  | nil =>
      rw [isBalanced, Bool.and_eq_true, beq_iff_eq, beq_iff_eq] at balanced
      exact ⟨balanced.2, by omega⟩
  | cons c body ih =>
      obtain ⟨_, next, isNext, balancedRest⟩ := exists_of_isBalanced_cons balanced
      constructor
      · rintro ⟨rfl, rfl, isOne⟩
        rw [show depthChange 0 '}' = -1 by decide] at isNext
        omega
      · rw [Int.add_right_comm, ← isNext]
        exact ih balancedRest

theorem hasPlainValues_of_isBalanced {depth brackets : Nat} {body : Text}
    (balanced : isBalanced depth brackets body = true) : hasPlainValues brackets body = true := by
  induction body generalizing depth brackets with
  | nil => rfl
  | cons c body ih =>
      obtain ⟨isPlain, next, _, balancedRest⟩ := exists_of_isBalanced_cons balanced
      rw [hasPlainValues, ih balancedRest, Bool.and_true]
      simpa using isPlain

end Brace

theorem Text.endsLine_lineFeed (front after : Text) :
    endsLine (front ++ [CodePoint.char '\n']) after = true := by
  rw [endsLine, List.getLast?_concat]
  cases after <;> simp [isLineBreak, CodePoint.toNat]

namespace Scan

/-- Square brackets are balanced in a text that has statements. -/
theorem isBalanced_of_statementsAfter {scan : Scan} {part text : Text} {found : List Text}
    (scanned : scan.statementsAfter part text = .ok found)
    (noBrace : .char '{' ∉ text ∧ .char '}' ∉ text) :
    Brace.isBalanced 0 scan.bracketDepth text = true := by
  induction text generalizing scan part found with
  | nil => simp [Brace.isBalanced, bracketDepth, (statementsAfter_nil_eq_ok.mp scanned).1]
  | cons c text ih =>
      rw [List.mem_cons, List.mem_cons, not_or, not_or] at noBrace
      have noBraceLater : .char '{' ∉ text ∧ .char '}' ∉ text := ⟨noBrace.1.2, noBrace.2.2⟩
      rcases statementsAfter_cons_eq_ok.mp scanned with ⟨next, steps, goesOn⟩
      have balanced : Brace.isBalanced 0 next.bracketDepth text = true := by
        rcases goesOn with ⟨_, _, scannedLater, _⟩ | ⟨_, scannedRest⟩
        · exact ih scannedLater noBraceLater
        · exact ih scannedRest noBraceLater
      rcases bracketDepth_of_step steps with ⟨rfl, isMore⟩ | ⟨rfl, isLess⟩ |
        ⟨notOpen, notClose, same⟩
      · simpa [Brace.isBalanced, isMore] using balanced
      · simpa [Brace.isBalanced, isLess] using balanced
      · have notBrace : c ≠ '{' ∧ c ≠ '}' := ⟨Ne.symm noBrace.1.1, Ne.symm noBrace.2.1⟩
        simpa [Brace.isBalanced, notOpen, notClose, notBrace, same] using balanced

end Scan

theorem Text.dropBeginning?_append_of_none {beginning text rest : Text} {c : CodePoint}
    (differs : dropBeginning? beginning text = none) (notIn : c ∉ beginning) :
    dropBeginning? beginning (text ++ c :: rest) = none := by
  induction beginning generalizing text with
  | nil => simp [dropBeginning?] at differs
  | cons first beginning ih =>
      rw [List.mem_cons, not_or] at notIn
      cases text with
      | nil => simp [dropBeginning?, Ne.symm notIn.1]
      | cons next text =>
          simp only [List.cons_append, dropBeginning?] at differs ⊢
          split
          · next same =>
            rw [if_pos same] at differs
            exact ih differs notIn.2
          · rfl

namespace Query

/-- No query arises where texts without queries are put together with a blank between them. -/
theorem splitAtQuery?_append {front rest : Text} {separator : CodePoint}
    (isSeparator : isBlank separator = true) (noneBefore : splitAtQuery? front = none)
    (noneAfter : splitAtQuery? rest = none) :
    splitAtQuery? (front ++ separator :: rest) = none := by
  have notIn : separator ∉ ("@query" : Text) := by
    intro isChar
    have noneBlank : ∀ c ∈ ("@query" : Text), isBlank c = false := by decide
    simp [noneBlank separator isChar] at isSeparator
  induction front with
  | nil =>
      have atSeparator : Text.dropBeginning? "@query" (separator :: rest) = none := by
        have notAt : separator ≠ '@' := fun same => notIn (by rw [same]; decide)
        exact if_neg (Ne.symm notAt)
      rw [List.nil_append, splitAtQuery?, atSeparator, noneAfter]
      rfl
  | cons c front ih =>
      rw [List.cons_append]
      rw [splitAtQuery?] at noneBefore ⊢
      cases beginning : Text.dropBeginning? "@query" (c :: front) with
      | none =>
          rw [beginning, Option.map_eq_none_iff] at noneBefore
          rw [← List.cons_append, Text.dropBeginning?_append_of_none beginning notIn,
            ih noneBefore]
          rfl
      | some after =>
          rw [beginning] at noneBefore
          simp only at noneBefore
          split at noneBefore
          · next isWord =>
            have isText := Text.dropBeginning?_eq_some beginning
            have longer : Text.dropBeginning? "@query" (c :: (front ++ separator :: rest)) =
                some (after ++ separator :: rest) := by
              rw [← List.cons_append, isText, List.append_assoc, Text.dropBeginning?_append]
            have sameHead : (after ++ separator :: rest).head? = after.head? := by
              cases after with
              | nil => simp at isWord
              | cons first after => rfl
            rw [Option.map_eq_none_iff] at noneBefore
            rw [longer]
            simp only [sameHead, isWord, if_true, ih noneBefore, Option.map_none]
          · simp at noneBefore

theorem splitAtQuery?_joinWith {separator : CodePoint} (isSeparator : isBlank separator = true)
    {texts : List Text} (noQuery : ∀ text ∈ texts, splitAtQuery? text = none) :
    splitAtQuery? (Text.joinWith [separator] texts) = none := by
  induction texts using Text.joinWith.induct with
  | case1 => rfl
  | case2 text => exact noQuery text (List.mem_singleton_self _)
  | case3 text next rest ih =>
      rw [List.forall_mem_cons] at noQuery
      rw [Text.joinWith, List.append_assoc, List.singleton_append]
      exact splitAtQuery?_append isSeparator noQuery.1 (ih noQuery.2)

end Query

namespace Source

/-- A constant as a source writes it: its statements are separated by a blank. -/
structure WrittenConstant where
  name : Text
  separator : CodePoint
  statements : List Text
  isName : name ≠ [] ∧ ∀ c ∈ name, isNameChar c = true
  isSeparator : isBlank separator = true
  areStatements : ∀ statement ∈ statements, TerseStyle.statements statement = .ok [statement]
  noBrace : ∀ statement ∈ statements, .char '{' ∉ statement ∧ .char '}' ∉ statement
  noQuery : ∀ statement ∈ statements, Query.splitAtQuery? statement = none

/-- A keyframe as a source writes it. -/
structure WrittenKeyframe where
  name : Text
  body : Text
  isName : name ≠ [] ∧ ∀ c ∈ name, isNameChar c = true
  isBody : Brace.isBalanced 0 0 body = true
  noConstant : findHeader? "@const" false body = none

/-- A directive as a source writes it. -/
structure WrittenDirective extends Directive where
  isName : name ≠ [] ∧ ∀ c ∈ name, isNameChar c = true
  notReserved : name ∉ Directive.reserved
  isTrimmed : Text.trim value = value
  isLine : ∀ c ∈ value, isLineBreak c = false
  noBrace : .char '{' ∉ value ∧ .char '}' ∉ value
  isLegal : toDirective.isLegal = true

/-- A class as a source writes it, with nothing in its body that is taken for another item. -/
structure WrittenClassBlock extends ClassBlock where
  isName : isClassName name = true
  isBody : Brace.isBalanced 0 0 body = true
  noConstant : findHeader? "@const" false body = none
  noKeyframe : findHeader? "@keyframe" false body = none

/-- An item of a source. -/
inductive Item where
  | constant (written : WrittenConstant)
  | keyframe (written : WrittenKeyframe)
  | directive (written : WrittenDirective)
  | ofClass (written : WrittenClassBlock)

namespace WrittenConstant

def body (written : WrittenConstant) : Text :=
  Text.joinWith [written.separator] written.statements

theorem statements_body (written : WrittenConstant) :
    TerseStyle.statements written.body = .ok written.statements :=
  statements_joinWith written.isSeparator fun statement isStatement =>
    isWhole_of_statements (written.areStatements statement isStatement) statement
      (List.mem_singleton_self _)

theorem noBrace_body (written : WrittenConstant) :
    .char '{' ∉ written.body ∧ .char '}' ∉ written.body := by
  have notIn : ∀ c : CodePoint, isBlank c = false →
      (∀ statement ∈ written.statements, c ∉ statement) → c ∉ written.body := by
    intro c notBlank inNone isChar
    rcases Text.mem_joinWith isChar with isSeparator | ⟨statement, isStatement, inStatement⟩
    · rw [List.mem_singleton.mp isSeparator, written.isSeparator] at notBlank
      simp at notBlank
    · exact inNone statement isStatement inStatement
  exact ⟨notIn _ (by decide) fun statement isStatement => (written.noBrace statement isStatement).1,
    notIn _ (by decide) fun statement isStatement => (written.noBrace statement isStatement).2⟩

theorem isBalanced_body (written : WrittenConstant) : Brace.isBalanced 0 0 written.body = true :=
  Scan.isBalanced_of_statementsAfter written.statements_body written.noBrace_body

theorem constant_eq_ok (written : WrittenConstant) (line : Nat) :
    constant { name := written.name, body := written.body, line } =
      .ok { name := written.name, statements := written.statements } := by
  have noQuery : Query.splitAtQuery? written.body = none :=
    Query.splitAtQuery?_joinWith written.isSeparator written.noQuery
  have noBrace := written.noBrace_body
  simp only [constant, noQuery, written.statements_body]
  simp [noBrace.1, noBrace.2, Except.map]

end WrittenConstant

/-- The line of the directive, without its break. -/
def WrittenDirective.line (written : WrittenDirective) : Text :=
  .char '@' :: (written.name ++ .char ' ' :: written.value)

/-- The class with a space before its brace. -/
def WrittenClassBlock.toWritten (written : WrittenClassBlock) : WrittenClass where
  name := written.name
  gap := [.char ' ']
  body := written.body
  isName := written.isName
  isGap := by decide
  isBody := Brace.splitAtClosing_of_isBody (Brace.isBody_of_isBalanced written.isBody) []

namespace Item

/-- The text of the item. -/
def text : Item → Text
  | constant written => blockText "const" written.name written.body
  | keyframe written => blockText "keyframe" written.name written.body
  | directive written => written.line
  | ofClass written => written.toWritten.text

def constant? : Item → Option WrittenConstant
  | constant written => some written
  | _ => none

def keyframe? : Item → Option WrittenKeyframe
  | keyframe written => some written
  | _ => none

def directive? : Item → Option WrittenDirective
  | directive written => some written
  | _ => none

def class? : Item → Option WrittenClassBlock
  | ofClass written => some written
  | _ => none

end Item

/-! ## Items that are passed by -/

/-- An item with a body is passed by if neither its first line nor its body has a header. -/
theorem skipped_body {kind : Text} (isKind : ∀ c ∈ kind, isNameChar c = true) {first : CodePoint}
    {head body : Text} (isItem : first = '@' ∨ first = '.')
    (noHeader : ∀ rest, readHeader? (.char '@' :: kind) (first :: (head ++ rest)) = none)
    (noFeed : .char '\n' ∉ head) (noneInBody : findHeader? (.char '@' :: kind) false body = none) :
    Skipped (.char '@' :: kind)
      (first :: (head ++ (body ++ [CodePoint.char '}', .char '\n']))) := by
  intro rest starts
  have notFeed : (first == '\n') = false := by
    rcases isItem with rfl | rfl <;> decide
  refine ⟨?_, ?_⟩
  · rcases isItem with rfl | rfl <;> rfl
  · have isText : first :: (head ++ (body ++ [CodePoint.char '}', .char '\n'])) ++ rest =
        first :: (head ++ (body ++ CodePoint.char '}' :: (.char '\n' :: rest))) := by
      simp
    rw [isText, findHeader?_cons fun _ => noHeader _, notFeed, findHeader?_append_of_noFeed noFeed,
      findHeader?_append_closing isKind noneInBody, findHeader?_cons (by simp), map_placeAfter,
      map_placeAfter, map_placeAfter]
    simp

/-- The rest of a header does not start an item. -/
theorem startsItem_eq_false {inner rest : Text}
    (isInner : ∀ c ∈ inner, isNameChar c = true ∨ isBlank c = true) :
    startsItem (inner ++ .char '{' :: rest) = false := by
  induction inner with
  | nil => rfl
  | cons c inner ih =>
      rw [List.forall_mem_cons] at isInner
      by_cases isBlankChar : isBlank c = true
      · have sameRest := @startsItem_append [c] (by simpa using isBlankChar)
          (inner ++ .char '{' :: rest)
        rw [List.singleton_append] at sameRest
        rw [List.cons_append, sameRest]
        exact ih isInner.2
      · have isNameFirst := isInner.1.resolve_right isBlankChar
        have notItem : c ≠ '@' ∧ c ≠ '.' := by
          constructor
          · rintro rfl
            exact absurd isNameFirst (by decide)
          · rintro rfl
            exact absurd isNameFirst (by decide)
        simp [startsItem, isBlankChar, notItem]

/-- A line with an at sign and no brace is passed by. -/
theorem skipped_line {kind line : Text} (isKind : ∀ c ∈ kind, isNameChar c = true)
    (noFeed : CodePoint.char '\n' ∉ line) (noBrace : CodePoint.char '{' ∉ line) :
    Skipped (.char '@' :: kind) (.char '@' :: (line ++ [CodePoint.char '\n'])) := by
  intro rest starts
  refine ⟨rfl, ?_⟩
  have noHeader : readHeader? (.char '@' :: kind)
      (.char '@' :: (line ++ CodePoint.char '\n' :: rest)) = none := by
    rw [Option.eq_none_iff_forall_ne_some]
    intro header found
    rcases readHeader?_at found with ⟨inner, isInner, isText⟩
    have isPart : ∀ c ∈ kind ++ inner, isNameChar c = true ∨ isBlank c = true := by
      intro c isChar
      rcases List.mem_append.mp isChar with inKind | inInner
      · exact Or.inl (isKind c inKind)
      · exact isInner c inInner
    rw [List.append_cons] at isText
    -- The brace of the header comes after the line, but there an item starts.
    rcases List.append_eq_append_iff.mp isText with ⟨more, isFront, isRest⟩ | ⟨more, isLine, isRest⟩
    · have notItem : startsItem rest = false := by
        rw [isRest]
        apply startsItem_eq_false
        intro c isChar
        exact isPart c (by rw [isFront]; exact List.mem_append_right _ isChar)
      simp [notItem] at starts
    · cases more with
      | nil =>
          rw [List.nil_append] at isRest
          have notItem : startsItem (.char '{' :: header.rest) = false := rfl
          simp [← isRest, notItem] at starts
      | cons c more =>
          rw [List.cons_append, List.cons.injEq] at isRest
          have inLine : CodePoint.char '{' ∈ line ++ [CodePoint.char '\n'] := by
            rw [isLine, isRest.1]
            simp
          rcases List.mem_append.mp inLine with inLine | isFeed
          · exact noBrace inLine
          · exact absurd isFeed (by decide)
  have isText : CodePoint.char '@' :: (line ++ [CodePoint.char '\n']) ++ rest =
      CodePoint.char '@' :: (line ++ CodePoint.char '\n' :: rest) := by
    simp
  have notFeed : ((.char '@' : CodePoint) == '\n') = false := by decide
  rw [isText, findHeader?_cons fun _ => noHeader, notFeed, findHeader?_append_of_noFeed noFeed,
    findHeader?_cons (by simp), map_placeAfter, map_placeAfter]
  simp

namespace Item

/-- The item as a segment when constants are cut out. -/
def constantSegment : Item → Segment
  | constant written => .block written.name written.body
  | item => .plain (item.text ++ [.char '\n'])

/-- The item, or what remains of it, as a segment when keyframes are cut out. -/
def keyframeSegment : Item → Segment
  | constant written => .plain (blank written.body ++ [.char '\n'])
  | keyframe written => .block written.name written.body
  | item => .plain (item.text ++ [.char '\n'])

theorem skipped_directive {kind : Text} (isKind : ∀ c ∈ kind, isNameChar c = true)
    (written : WrittenDirective) :
    Skipped (.char '@' :: kind) ((directive written).text ++ [CodePoint.char '\n']) := by
  have inLine : ∀ c ∈ written.name ++ CodePoint.char ' ' :: written.value,
      isNameChar c = true ∨ c = ' ' ∨ c ∈ written.value := by
    intro c isChar
    rcases List.mem_append.mp isChar with inName | inRest
    · exact Or.inl (written.isName.2 c inName)
    · exact Or.inr (List.mem_cons.mp inRest)
  apply skipped_line isKind
  · intro isFeed
    rcases inLine _ isFeed with isNameFeed | isSpace | inValue
    · exact absurd isNameFeed (by decide)
    · exact absurd isSpace (by decide)
    · exact absurd (written.isLine _ inValue) (by decide)
  · intro isBrace
    rcases inLine _ isBrace with isNameBrace | isSpace | inValue
    · exact absurd isNameBrace (by decide)
    · exact absurd isSpace (by decide)
    · exact written.noBrace.1 inValue

theorem skipped_class {kind : Text} (isKind : ∀ c ∈ kind, isNameChar c = true)
    (written : WrittenClassBlock)
    (noHeader : findHeader? (.char '@' :: kind) false written.body = none) :
    Skipped (.char '@' :: kind) ((ofClass written).text ++ [CodePoint.char '\n']) := by
  have isText : (ofClass written).text ++ [CodePoint.char '\n'] = CodePoint.char '.' ::
      ((written.name ++ [CodePoint.char ' ', .char '{']) ++
        (written.body ++ [CodePoint.char '}', .char '\n'])) := by
    simp [text, WrittenClass.text, WrittenClassBlock.toWritten]
  rw [isText]
  refine skipped_body isKind (Or.inr rfl)
    (fun rest => readHeader?_eq_none_of_head (by decide) (by decide)) ?_ noHeader
  intro isFeed
  rcases List.mem_append.mp isFeed with inName | isOther
  · exact absurd (isNameChar_of_isClassName written.isName _ inName) (by decide)
  · exact absurd isOther (by decide)

theorem skipped_keyframe (written : WrittenKeyframe) :
    Skipped "@const" ((keyframe written).text ++ [CodePoint.char '\n']) := by
  have isText : (keyframe written).text ++ [CodePoint.char '\n'] = CodePoint.char '@' ::
      ((("keyframe" : Text) ++ CodePoint.char ' ' ::
          (written.name ++ [CodePoint.char ' ', .char '{'])) ++
        (written.body ++ [CodePoint.char '}', .char '\n'])) := by
    simp [text, blockText]
  rw [isText]
  refine @skipped_body "const" (by decide) _ _ _ (Or.inl rfl) ?_ ?_ written.noConstant
  · intro rest
    rw [Option.eq_none_iff_forall_ne_some]
    intro header found
    rcases readHeader?_at found with ⟨inner, _, isKeyword⟩
    have differs : (CodePoint.char 'k') = CodePoint.char 'c' := (List.cons.inj isKeyword).1
    exact absurd differs (by decide)
  · intro isFeed
    simp only [List.mem_append, List.mem_cons, List.not_mem_nil, or_false] at isFeed
    rcases isFeed with inKind | isSpace | inName | isSpace | isBrace
    · exact absurd inKind (by decide)
    · exact absurd isSpace (by decide)
    · exact absurd (written.isName.2 _ inName) (by decide)
    · exact absurd isSpace (by decide)
    · exact absurd isBrace (by decide)

theorem isCut_constantSegment (item : Item) : item.constantSegment.IsCut "const" := by
  cases item with
  | constant written => exact ⟨written.isName, Brace.splitAtClosing_of_isBody
      (Brace.isBody_of_isBalanced written.isBalanced_body)⟩
  | keyframe written => exact skipped_keyframe written
  | directive written => exact skipped_directive (by decide) written
  | ofClass written => exact skipped_class (by decide) written written.noConstant

theorem isCut_keyframeSegment (item : Item) : item.keyframeSegment.IsCut "keyframe" := by
  cases item with
  | constant written => exact (skipped_replicate _).append skipped_lineFeed
  | keyframe written => exact ⟨written.isName, Brace.splitAtClosing_of_isBody
      (Brace.isBody_of_isBalanced written.isBody)⟩
  | directive written => exact skipped_directive (by decide) written
  | ofClass written => exact skipped_class (by decide) written written.noKeyframe

end Item

/-! ## Directives among classes -/

theorem isBlank_of_isLineBreak {c : CodePoint} (isBreak : isLineBreak c = true) :
    isBlank c = true := by
  simp only [isLineBreak, isBlank, Bool.or_eq_true, Bool.and_eq_true, decide_eq_true_eq,
    beq_iff_eq] at isBreak ⊢
  omega

theorem isLineBreak_of_isNameChar {c : CodePoint} (isName : isNameChar c = true) :
    isLineBreak c = false := by
  rw [← Bool.not_eq_true]
  intro isBreak
  simp [isNameChar_of_isBlank (isBlank_of_isLineBreak isBreak)] at isName

theorem isBlank_blank (body : Text) :
    ∀ c ∈ blank body ++ [CodePoint.char '\n'], isBlank c = true := by
  intro c isChar
  rcases List.mem_append.mp isChar with inBody | isFeed
  · rw [List.eq_of_mem_replicate inBody]
    decide
  · rw [List.mem_singleton.mp isFeed]
    decide

theorem linesWithBreaks_line {line : Text} (noBreak : ∀ c ∈ line, isLineBreak c = false) :
    Text.linesWithBreaks (line ++ [CodePoint.char '\n']) = [line ++ [CodePoint.char '\n']] := by
  induction line with
  | nil => rfl
  | cons c line ih =>
      rw [List.forall_mem_cons] at noBreak
      rw [List.cons_append, Text.linesWithBreaks_of_notBreak noBreak.1,
        ih noBreak.2]
      rfl

theorem splitLineEnd_line {line : Text} (noBreak : ∀ c ∈ line, isLineBreak c = false) :
    Directive.splitLineEnd (line ++ [CodePoint.char '\n']) = (line, [.char '\n']) := by
  have ending : ∀ c ∈ line.reverse.head?, Directive.isLineEnd c = false := by
    intro c isLast
    have notBreak := noBreak c (List.mem_reverse.mp (List.mem_of_mem_head? isLast))
    rw [← Bool.not_eq_true, Directive.isLineEnd, Bool.or_eq_true, beq_iff_eq, beq_iff_eq]
    rintro (rfl | rfl)
    · exact absurd notBreak (by decide)
    · exact absurd notBreak (by decide)
  have feed : ∀ c ∈ [CodePoint.char '\n'], Directive.isLineEnd c = true := by decide
  rcases span_append feed ending with ⟨isTaken, isLeft⟩
  rw [Directive.splitLineEnd, List.reverse_append, List.reverse_singleton, isTaken, isLeft]
  simp

namespace WrittenDirective

theorem noBreak_line (written : WrittenDirective) :
    ∀ c ∈ written.line, isLineBreak c = false := by
  simp only [line, List.forall_mem_cons, List.forall_mem_append]
  refine ⟨by decide, ?_, by decide, written.isLine⟩
  exact fun c inName => isLineBreak_of_isNameChar (written.isName.2 c inName)

theorem noBrace_line (written : WrittenDirective) :
    .char '{' ∉ written.line ∧ .char '}' ∉ written.line := by
  have notIn : ∀ c, isNameChar c = false → c ≠ '@' ∧ c ≠ ' ' → c ∉ written.value →
      c ∉ written.line := by
    intro c notName differs notInValue isChar
    simp only [line, List.mem_cons, List.mem_append, differs.1, differs.2, notInValue, false_or,
      or_false] at isChar
    rw [written.isName.2 c isChar] at notName
    contradiction
  exact ⟨notIn _ (by decide) (by decide) written.noBrace.1,
    notIn _ (by decide) (by decide) written.noBrace.2⟩

theorem ofLine?_line (written : WrittenDirective) :
    Directive.ofLine? (written.line ++ [CodePoint.char '\n']) = some written.toDirective := by
  have notName : ∀ c ∈ (CodePoint.char ' ' :: written.value).head?, isNameChar c = false := by
    rintro c ⟨⟩
    decide
  rcases span_append written.isName.2 notName with ⟨isTaken, isLeft⟩
  have notIndented : written.line.dropWhile (fun (c : CodePoint) => c == ' ' || c == '\t') =
      .char '@' :: (written.name ++ CodePoint.char ' ' :: written.value) := rfl
  rw [Directive.ofLine?, splitLineEnd_line written.noBreak_line, Directive.read?]
  simp only [notIndented, isTaken, isLeft]
  rw [if_neg (by simp [written.isName.1, written.notReserved])]
  simp [written.isTrimmed]

end WrittenDirective

namespace Item

/-- What remains of the item when constants and keyframes are cut out, as parts of a layout. -/
def parts : Item → List Part
  | constant written => [.blanks (blank written.body ++ [.char '\n']) (isBlank_blank _)]
  | keyframe written => [.blanks (blank written.body ++ [.char '\n']) (isBlank_blank _)]
  | directive written =>
    [.line (written.line ++ [.char '\n']) (linesWithBreaks_line written.noBreak_line)
      (Directive.startsWithAt_cons.mpr (Or.inl rfl))]
  | ofClass written => [.ofClass written.toWritten, .blanks [.char '\n'] (by decide)]

theorem isPlain_parts (item : Item) : ∀ part ∈ item.parts, part.isPlain = true := by
  cases item with
  | constant written => simp [parts, Part.isPlain]
  | keyframe written => simp [parts, Part.isPlain]
  | directive written =>
      have noBrace := written.noBrace_line
      simp [parts, Part.isPlain, noBrace.1, noBrace.2]
  | ofClass written =>
      have plain : Brace.hasPlainValues 0 written.toWritten.body = true :=
        Brace.hasPlainValues_of_isBalanced written.isBody
      simpa [parts, Part.isPlain] using plain

end Item

/-- The lines with directives are lines of the text. -/
theorem areLines_parts {before : Text}
    (ends : before = [] ∨ ∃ front, before = front ++ [CodePoint.char '\n']) (items : List Item) :
    areLines before (items.flatMap Item.parts) = true := by
  induction items generalizing before with
  | nil => rfl
  | cons item items ih =>
      have later : ∀ front : Text,
          areLines (front ++ [CodePoint.char '\n']) (items.flatMap Item.parts) = true :=
        fun front => ih (Or.inr ⟨front, rfl⟩)
      rw [List.flatMap_cons]
      cases item with
      | constant written | keyframe written =>
          rw [Item.parts, List.singleton_append, areLines, Part.text, ← List.append_assoc, later]
          rfl
      | directive written =>
          have startsLine :
              Text.endsLine before (written.line ++ [CodePoint.char '\n']) = true := by
            rcases ends with rfl | ⟨front, rfl⟩
            · rfl
            · exact Text.endsLine_lineFeed _ _
          rw [Item.parts, List.singleton_append, areLines]
          simp only [Part.text, startsLine, Text.endsLine_lineFeed, ← List.append_assoc, later,
            Bool.and_self, Bool.or_true]
      | ofClass written =>
          rw [Item.parts, List.cons_append, List.singleton_append, areLines, areLines]
          simp only [Part.text, later, Part.isLine, Bool.not_false, Bool.true_or, Bool.true_and]

/-- A source with the given items, from which constants and keyframes are cut out. -/
def layout (items : List Item) : Layout where
  parts := items.flatMap Item.parts
  lineParts := areLines_parts (Or.inl rfl) items

/-- The text of a source with the given items, each on lines of its own. -/
def render (items : List Item) : Text :=
  items.flatMap fun item => item.text ++ [.char '\n']

/-- The source with the given items. -/
def ofItems (items : List Item) : Source where
  constants := (items.filterMap Item.constant?).map fun written =>
    { name := written.name, statements := written.statements }
  keyframes := (items.filterMap Item.keyframe?).map fun written =>
    { name := written.name, body := written.body }
  directives := (items.filterMap Item.directive?).map WrittenDirective.toDirective
  classes := (items.filterMap Item.class?).map WrittenClassBlock.toClassBlock

/-! ## Reading classes -/

theorem readClasses_append {blanks : Text} (areBlanks : ∀ c ∈ blanks, isBlank c = true) (line : Nat)
    (seen : List Text) (rest : Text) :
    readClasses line seen (blanks ++ rest) =
      readClasses (line + Text.lineFeeds blanks) seen rest := by
  have sameLine : line + Text.lineFeeds ((blanks ++ rest).takeWhile isBlank) =
      line + Text.lineFeeds blanks + Text.lineFeeds (rest.takeWhile isBlank) := by
    rw [List.takeWhile_append_of_pos areBlanks, Text.lineFeeds, List.count_append, Nat.add_assoc]
    rfl
  have sameStart : (blanks ++ rest).dropWhile isBlank = rest.dropWhile isBlank :=
    List.dropWhile_append_of_pos areBlanks
  rw [readClasses.eq_def line, readClasses.eq_def (line + Text.lineFeeds blanks)]
  simp only
  rw [sameLine]
  generalize (blanks ++ rest).dropWhile isBlank = start at sameStart ⊢
  subst sameStart
  rfl

theorem readClassHeader?_text (written : WrittenClass) (after : Text) :
    readClassHeader? (written.text ++ after) =
      some { name := written.name
             written := .char '.' :: written.name ++ (written.gap ++ [.char '{'])
             rest := written.body ++ .char '}' :: after } := by
  rcases written with ⟨name, gap, body, isName, isGap, isBody⟩
  have notName : ∀ c ∈ (gap ++ .char '{' :: (body ++ .char '}' :: after)).head?,
      isNameChar c = false := by
    cases gap with
    | nil =>
        rintro c ⟨⟩
        decide
    | cons first gap =>
        rintro c ⟨⟩
        exact isNameChar_of_isBlank (isGap first List.mem_cons_self)
  unfold isClassName at isName
  split at isName
  · next first rest =>
    rw [Bool.and_eq_true, List.all_eq_true] at isName
    rcases span_append isName.2 notName with ⟨isTaken, isLeft⟩
    simp [WrittenClass.text, readClassHeader?, isName.1, isTaken, isLeft, skipToBrace?_append isGap]
  · next first rest notHyphen =>
    rw [Bool.and_eq_true, List.all_eq_true] at isName
    rcases span_append isName.2 notName with ⟨isTaken, isLeft⟩
    have isStart : first ≠ '-' := by
      rintro rfl
      exact absurd isName.1 (by decide)
    simp [WrittenClass.text, readClassHeader?, isStart, isName.1, isTaken, isLeft,
      skipToBrace?_append isGap]
  · simp at isName

theorem readClasses_text (written : WrittenClass) (line : Nat) {seen : List Text}
    (unseen : written.name ∉ seen) (rest : Text) :
    ∃ later, readClasses line seen (written.text ++ rest) =
      (readClasses later (written.name :: seen) rest).map
        ({ name := written.name, body := written.body } :: ·) := by
  have notBlank : (written.text ++ rest).dropWhile isBlank = written.text ++ rest := rfl
  have header := readClassHeader?_text written rest
  have closes := Brace.splitAtClosing_of_isBody (Brace.isBody_of_splitAtClosing written.isBody) rest
  rw [readClasses.eq_def line]
  simp only
  generalize (written.text ++ rest).dropWhile isBlank = start at notBlank ⊢
  subst notBlank
  rw [if_neg (by simp [WrittenClass.text])]
  split
  · next noneFound =>
    rw [header] at noneFound
    simp at noneFound
  · next found isFound =>
    rw [header, Option.some.injEq] at isFound
    subst isFound
    rw [if_neg unseen]
    split
    · next fails =>
      rw [Brace.readBody, closes] at fails
      simp at fails
    · next body after reads =>
      rw [Brace.readBody, closes, Except.ok.injEq, Prod.mk.injEq] at reads
      rcases reads with ⟨rfl, rfl⟩
      exact ⟨_, rfl⟩

/-- The classes among the items are read from what remains. -/
theorem readClasses_remaining {items : List Item} (line : Nat) {seen : List Text}
    (distinct : ((items.filterMap Item.class?).map fun written => written.name).Nodup)
    (unseen : ∀ name ∈ (items.filterMap Item.class?).map fun written => written.name, name ∉ seen) :
    readClasses line seen ((items.flatMap Item.parts).flatMap Part.remaining) =
      .ok ((items.filterMap Item.class?).map WrittenClassBlock.toClassBlock) := by
  induction items generalizing line seen with
  | nil =>
      rw [List.flatMap_nil, List.flatMap_nil, readClasses]
      rfl
  | cons item items ih =>
      rw [List.flatMap_cons, List.flatMap_append]
      have afterBlanks : ∀ blanks : Text, (∀ c ∈ blanks, isBlank c = true) →
          item.parts.flatMap Part.remaining = blanks → item.class? = none →
          readClasses line seen (item.parts.flatMap Part.remaining ++
              (items.flatMap Item.parts).flatMap Part.remaining) =
            .ok (((item :: items).filterMap Item.class?).map WrittenClassBlock.toClassBlock) := by
        intro blanks areBlanks remains noClass
        rw [List.filterMap_cons_none noClass] at distinct unseen ⊢
        rw [remains, readClasses_append areBlanks]
        exact ih _ distinct unseen
      cases item with
      | constant written | keyframe written =>
          refine afterBlanks _ (isBlank_blank written.body) ?_ rfl
          simp [Item.parts, Part.remaining, Part.directive?, Part.text, Directive.keep]
      | directive written =>
          refine afterBlanks [.char '\n'] (by decide) ?_ rfl
          simp [Item.parts, Part.remaining, Part.directive?, Part.text, written.ofLine?_line,
            Directive.keep, splitLineEnd_line written.noBreak_line]
      | ofClass written =>
          simp only [List.filterMap_cons, Item.class?, List.map_cons, List.nodup_cons,
            List.forall_mem_cons] at distinct unseen ⊢
          have isText : (Item.ofClass written).parts.flatMap Part.remaining =
              written.toWritten.text ++ [CodePoint.char '\n'] := by
            simp [Item.parts, Part.remaining, Part.directive?, Part.text, Directive.keep]
          have unseenLater : ∀ name ∈ (items.filterMap Item.class?).map fun written => written.name,
              name ∉ written.toWritten.name :: seen := by
            intro name isLater isSeen
            rcases List.mem_cons.mp isSeen with rfl | inSeen
            · exact distinct.1 isLater
            · exact unseen.2 name isLater inSeen
          rcases readClasses_text written.toWritten line unseen.1
            ([CodePoint.char '\n'] ++ (items.flatMap Item.parts).flatMap Part.remaining) with
            ⟨later, reads⟩
          rw [isText, List.append_assoc, reads, readClasses_append (by decide),
            ih _ distinct.2 unseenLater]
          rfl

/-! ## Reading all items -/

theorem mapM_constant {blocks : List NamedBlock} {written : List WrittenConstant}
    (areBlocks : blocks.map (fun block => (block.name, block.body)) =
      written.map fun written => (written.name, written.body)) :
    blocks.mapM constant = .ok (written.map fun written =>
      { name := written.name, statements := written.statements }) := by
  induction blocks generalizing written with
  | nil =>
      rw [List.map_nil, List.nil_eq, List.map_eq_nil_iff] at areBlocks
      rw [areBlocks]
      rfl
  | cons block blocks ih =>
      cases written with
      | nil => simp at areBlocks
      | cons first written =>
          rcases block with ⟨name, body, line⟩
          rw [List.map_cons, List.map_cons, List.cons.injEq, Prod.mk.injEq] at areBlocks
          rcases areBlocks with ⟨⟨rfl, rfl⟩, areLater⟩
          rw [List.mapM_cons, first.constant_eq_ok, ih areLater]
          rfl

theorem directives_layout (items : List Item) :
    (layout items).directives = (ofItems items).directives := by
  simp only [Layout.directives, layout, ofItems]
  induction items with
  | nil => rfl
  | cons item items ih =>
      rw [List.flatMap_cons, List.filterMap_append, ih]
      cases item with
      | constant written => rfl
      | keyframe written => rfl
      | directive written =>
          simp [Item.parts, Part.directive?, written.ofLine?_line, Item.directive?]
      | ofClass written => rfl

theorem takeAll_layout {items : List Item}
    (oneScope : (ofItems items).directives.countP Directive.isScope ≤ 1) :
    Directive.takeAll (layout items).text =
      .ok ((layout items).remaining, (ofItems items).directives) := by
  rw [← directives_layout] at oneScope ⊢
  apply Layout.takeAll_text _ _ oneScope
  · apply Layout.countsBraces_of_isPlain
    intro part isPart
    rcases List.mem_flatMap.mp isPart with ⟨item, _, inItem⟩
    exact item.isPlain_parts part inItem
  · intro directive isDirective
    rw [directives_layout] at isDirective
    rcases List.mem_map.mp isDirective with ⟨written, _, rfl⟩
    exact written.isLegal

/-- Reading a written source gives the items of each kind in their order. -/
theorem parse_render (items : List Item)
    (distinctConstants : ((items.filterMap Item.constant?).map fun written => written.name).Nodup)
    (distinctKeyframes : ((items.filterMap Item.keyframe?).map fun written => written.name).Nodup)
    (distinctClasses : ((items.filterMap Item.class?).map fun written => written.name).Nodup)
    (oneScope : (ofItems items).directives.countP Directive.isScope ≤ 1)
    (unmarked : Reference.hasMarker (render items) = false) :
    parse (render items) = .ok (ofItems items) := by
  have constantBlocks : (items.map Item.constantSegment).filterMap Segment.block? =
      (items.filterMap Item.constant?).map fun written => (written.name, written.body) := by
    rw [List.filterMap_map, List.map_filterMap]
    congr 1
    funext item
    cases item <;> rfl
  have keyframeBlocks : (items.map Item.keyframeSegment).filterMap Segment.block? =
      (items.filterMap Item.keyframe?).map fun written => (written.name, written.body) := by
    rw [List.filterMap_map, List.map_filterMap]
    congr 1
    funext item
    cases item <;> rfl
  rcases @cutBlocks_segments "const" (by decide) (items.map Item.constantSegment)
    (by simpa using fun item _ => item.isCut_constantSegment) [] [] (skipped_nil _)
    (by rw [constantBlocks, List.map_map]; exact distinctConstants) (by simp) with
    ⟨constants, cutConstants, areConstants⟩
  rcases @cutBlocks_segments "keyframe" (by decide) (items.map Item.keyframeSegment)
    (by simpa using fun item _ => item.isCut_keyframeSegment) [] [] (skipped_nil _)
    (by rw [keyframeBlocks, List.map_map]; exact distinctKeyframes) (by simp) with
    ⟨keyframes, cutKeyframes, areKeyframes⟩
  have isRendered : [] ++ (items.map Item.constantSegment).flatMap (Segment.text "const") =
      render items := by
    rw [List.nil_append, List.flatMap_map, render]
    congr 1
    funext item
    cases item <;> rfl
  have isBetween : [] ++ (items.map Item.constantSegment).flatMap Segment.remaining =
      [] ++ (items.map Item.keyframeSegment).flatMap (Segment.text "keyframe") := by
    rw [List.nil_append, List.nil_append, List.flatMap_map, List.flatMap_map]
    congr 1
    funext item
    cases item <;> rfl
  have isLayout : [] ++ (items.map Item.keyframeSegment).flatMap Segment.remaining =
      (layout items).text := by
    rw [List.nil_append, List.flatMap_map, Layout.text, layout, List.flatMap_assoc]
    congr 1
    funext item
    cases item <;> simp [Item.keyframeSegment, Segment.remaining, Item.parts, Part.text, Item.text]
  rw [isRendered, isBetween] at cutConstants
  rw [isLayout] at cutKeyframes
  have readsConstants := mapM_constant (areConstants.trans constantBlocks)
  have isKeyframes : keyframes.map (fun block => { name := block.name, body := block.body }) =
      (ofItems items).keyframes := by
    have pairs := congrArg (List.map fun pair => KeyframeBlock.mk pair.1 pair.2)
      (areKeyframes.trans keyframeBlocks)
    rw [List.map_map, List.map_map] at pairs
    exact pairs
  have readsClasses := readClasses_remaining 1 distinctClasses
    (fun name _ => List.not_mem_nil)
  rw [parse, unmarked]
  simp only [cutConstants, cutKeyframes, readsConstants, takeAll_layout oneScope, bind, Except.bind,
    pure, Except.pure, isKeyframes]
  rw [Layout.remaining, layout, readsClasses]
  rfl

set_option maxRecDepth 10000 in
theorem parse_render_interleaved :
    ∃ items, render items = (".a \x7b\n@use k\n@query &:hover \x7b c[red] \x7d\n\x7d\n" : Text) ++
        ("@const x\n@const k \x7bp[1px] c[a]\x7d\n@scope s\n" : Text) ++
        ("@keyframe p \x7b\n@keyframe q \x7b\x7d\x7d\n" : Text) ∧
      parse (render items) = .ok {
        constants := [{ name := "k", statements := ["p[1px]", "c[a]"] }]
        keyframes := [{ name := "p", body := "\n@keyframe q \x7b\x7d" }]
        directives := [{ name := "const", value := "x" }, { name := "scope", value := "s" }]
        classes := [{ name := "a", body := "\n@use k\n@query &:hover \x7b c[red] \x7d\n" }] } := by
  let a : WrittenClassBlock := {
    name := "a", body := "\n@use k\n@query &:hover \x7b c[red] \x7d\n", isName := by decide
    isBody := by decide, noConstant := by decide, noKeyframe := by decide }
  let x : WrittenDirective := {
    name := "const", value := "x", isName := by decide, notReserved := by decide
    isTrimmed := by decide, isLine := by decide, noBrace := by decide, isLegal := by decide }
  let k : WrittenConstant := {
    name := "k", separator := ' ', statements := ["p[1px]", "c[a]"], isName := by decide
    isSeparator := by decide, areStatements := by decide, noBrace := by decide,
      noQuery := by decide }
  let s : WrittenDirective := {
    name := "scope", value := "s", isName := by decide, notReserved := by decide
    isTrimmed := by decide, isLine := by decide, noBrace := by decide, isLegal := by decide }
  let p : WrittenKeyframe := {
    name := "p", body := "\n@keyframe q \x7b\x7d", isName := by decide, isBody := by decide
    noConstant := by decide }
  refine ⟨[.ofClass a, .directive x, .constant k, .directive s, .keyframe p], by decide +kernel, ?_⟩
  exact parse_render _ (by decide) (by decide) (by decide) (by decide) (by decide)

end Source

end TerseStyle

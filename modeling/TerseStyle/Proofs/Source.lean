import TerseStyle.Compile
import TerseStyle.Proofs.Query

/-!
# The parts of a source

Reading a source cuts it up and adds nothing but line feeds and spaces. So its names, bodies and
statements are made of the characters that the text is made of. In particular they are free of
reserved characters, as a text that has any is refused.
-/

namespace TerseStyle

open Reference (Unmarked)

attribute [local simp] Reports Error.MadeOf Cause.describe

namespace Source

variable {Good : CodePoint → Prop} {text : Text} {header : Header}

/-- Cutting blocks out of a text leaves line feeds in their place. -/
theorem reports_cutBlocks (lineFeed : Good '\n') {kind : Text} (ofKind : Text.HasBytes kind)
    (seen : List Text) (madeOf : Text.MadeOf Good text) :
    Reports (Error.Says Good) (fun parts => Text.MadeOf Good parts.1 ∧
      ∀ block ∈ parts.2, Text.MadeOf Good block.name ∧ Text.MadeOf Good block.body)
      (cutBlocks kind seen text) := by
  have ofBlank : ∀ text, Text.MadeOf Good (blank text) := by
    intro text c isChar
    rwa [List.eq_of_mem_replicate isChar]
  have ofHeader : ∀ {text before header},
      findHeader? (.char '@' :: kind) true text = some (before, header) → Text.MadeOf Good text →
      Text.MadeOf Good before ∧ Text.MadeOf Good header.name ∧ Text.MadeOf Good header.rest := by
    intro text before header found ofText
    obtain ⟨isText, isName⟩ := findHeader?_eq_some found
    rw [isText, Text.madeOf_append, Text.madeOf_append] at ofText
    exact ⟨ofText.1.1, ofText.1.2.of_subset isName, ofText.2⟩
  fun_induction cutBlocks kind seen text with
  | case1 => exact Reports.ok ⟨madeOf, by simp⟩
  | case2 seen text before header found line isSeen =>
      have ofKind : Text.MadeOf (fun c => Good c ∨ Text.IsCharacter c) kind :=
        fun c isChar => Or.inr (ofKind c isChar)
      simp [ofKind, (ofHeader found madeOf).2.1.quoted]
  | case3 seen text before header found line notSeen error refused =>
      exact Brace.says_of_readBody refused
  | case4 seen text before header found line notSeen body after closed ih =>
      obtain ⟨ofBefore, ofName, ofRest⟩ := ofHeader found madeOf
      obtain ⟨ofBody, ofAfter⟩ := (Brace.reports_readBody _ ofRest).of_ok closed
      apply (ih (by simp [ofBefore, ofBlank, ofAfter])).map
      intro parts ofParts
      exact ⟨ofParts.1, List.forall_mem_cons.mpr ⟨⟨ofName, ofBody⟩, ofParts.2⟩⟩

theorem reports_constant (space : Good ' ') {block : NamedBlock}
    (ofName : Text.MadeOf Good block.name) (ofBody : Text.MadeOf Good block.body) :
    Reports (Error.Says Good) (fun constant => Text.MadeOf Good constant.name ∧
      ∀ statement ∈ constant.statements, Text.MadeOf Good statement) (constant block) := by
  unfold constant
  split
  · simp [ofName.quoted]
  · split
    · simp [ofName.quoted]
    · exact (reports_statements space ofBody).map fun statements ofStatements =>
        ⟨ofName, ofStatements⟩

theorem mem_of_readClassHeader? (found : readClassHeader? text = some header) :
    ∀ c, c ∈ header.name ∨ c ∈ header.rest → c ∈ text := by
  obtain ⟨isText, ⟨gap, _, isWritten⟩, _⟩ := readClassHeader?_eq_some found
  rw [isText, isWritten]
  rintro c (inName | inRest)
  · simp [inName]
  · simp [inRest]

theorem reports_readClasses (line : Nat) (seen : List Text) (madeOf : Text.MadeOf Good text) :
    Reports (Error.Says Good)
      (fun classes => ∀ block ∈ classes, Text.MadeOf Good block.name ∧ Text.MadeOf Good block.body)
      (readClasses line seen text) := by
  have ofStart : ∀ {text : Text}, Text.MadeOf Good text →
      Text.MadeOf Good (text.dropWhile isBlank) :=
    fun ofText => ofText.of_subset fun c => (List.dropWhile_sublist _).mem
  have ofHeader : ∀ {text : Text} {header : Header}, Text.MadeOf Good text →
      readClassHeader? (text.dropWhile isBlank) = some header →
      Text.MadeOf Good header.name ∧ Text.MadeOf Good header.rest := by
    intro text header ofText found
    have inStart := mem_of_readClassHeader? found
    exact ⟨(ofStart ofText).of_subset fun c isChar => inStart c (Or.inl isChar),
      (ofStart ofText).of_subset fun c isChar => inStart c (Or.inr isChar)⟩
  fun_induction readClasses line seen text with
  | case1 => exact Reports.ok (by simp)
  | case2 line seen text start _ _ _ excerpt =>
      have ofLine : Text.MadeOf Good ((Text.lines start).headD []) := by
        cases isLines : Text.lines start with
        | nil => exact Text.madeOf_nil
        | cons first rest =>
            have isLine : first ∈ Text.lines start := isLines ▸ List.mem_cons_self
            exact (ofStart madeOf).of_subset fun c isChar => Text.mem_of_mem_lines isLine isChar
      have ofExcerpt : Text.MadeOf Good excerpt := ofLine.trim
      simp [ofExcerpt.quoted]
  | case3 line seen text start _ _ header found isSeen =>
      simp [(ofHeader madeOf found).1.quoted]
  | case4 line seen text start _ _ header found notSeen _ error refused =>
      exact Brace.says_of_readBody refused
  | case5 line seen text start _ _ header found notSeen _ body after closed ih =>
      obtain ⟨ofName, ofRest⟩ := ofHeader madeOf found
      obtain ⟨ofBody, ofAfter⟩ := (Brace.reports_readBody _ ofRest).of_ok closed
      exact (ih ofAfter).map fun classes ofClasses =>
        List.forall_mem_cons.mpr ⟨⟨ofName, ofBody⟩, ofClasses⟩

end Source

namespace Directive

/-- The name and the value of the directive are made of some characters. -/
def MadeOf (Good : CodePoint → Prop) (directive : Directive) : Prop :=
  Text.MadeOf Good directive.name ∧ Text.MadeOf Good directive.value

variable {Good : CodePoint → Prop}

theorem madeOf_of_read? {line : Text} (ofLine : Text.MadeOf Good line) {directive : Directive}
    (found : read? line = some directive) : directive.MadeOf Good := by
  unfold read? at found
  split at found
  · next written isDirective =>
    have ofWritten : Text.MadeOf Good written := by
      apply ofLine.of_subset
      intro c isChar
      apply (List.dropWhile_sublist fun (c : CodePoint) => c == ' ' || c == '\t').mem
      rw [isDirective]
      exact List.mem_cons_of_mem _ isChar
    have ofName : Text.MadeOf Good (written.takeWhile isNameChar) :=
      ofWritten.of_subset fun c => (List.takeWhile_sublist _).mem
    simp only at found
    split at found
    · simp at found
    · split at found
      · cases found
        exact ⟨ofName, Text.madeOf_nil⟩
      · next first rest afterName =>
        split at found
        · cases found
          refine ⟨ofName, Text.MadeOf.trim (ofWritten.of_subset fun c isChar => ?_)⟩
          apply (List.dropWhile_sublist isNameChar).mem
          rw [afterName]
          exact List.mem_cons_of_mem _ isChar
        · simp at found
  · simp at found

theorem reports_takeFrom (depth : Int) (number : Nat) {lines : List Text}
    (ofLines : ∀ line ∈ lines, Text.MadeOf Good line) :
    Reports (Error.Says Good)
      (fun taken => Text.MadeOf Good taken.1 ∧ ∀ directive ∈ taken.2, directive.MadeOf Good)
      (takeFrom depth number lines) := by
  induction lines generalizing depth number with
  | nil => exact Reports.ok (by simp)
  | cons line rest ih =>
      rw [List.forall_mem_cons] at ofLines
      obtain ⟨ofLine, ofRest⟩ := ofLines
      have taken := ih (depth + braceBalance line) (number + Text.lineFeeds line) ofRest
      have ofContent : Text.MadeOf Good (splitLineEnd line).1 := by
        apply ofLine.of_subset
        intro c isChar
        exact List.mem_reverse.mp ((List.dropWhile_sublist _).mem (List.mem_reverse.mp isChar))
      have ofEnding : Text.MadeOf Good (splitLineEnd line).2 := by
        apply ofLine.of_subset
        intro c isChar
        exact List.mem_reverse.mp ((List.takeWhile_sublist _).mem (List.mem_reverse.mp isChar))
      rw [takeFrom]
      split
      · next refused => exact taken.of_error refused
      · next remaining directives takenRest =>
        obtain ⟨ofRemaining, ofDirectives⟩ := taken.of_ok takenRest
        simp only
        split
        · exact Reports.ok ⟨Text.madeOf_append.mpr ⟨ofLine, ofRemaining⟩, ofDirectives⟩
        · next directive reads =>
          have ofDirective : directive.MadeOf Good := by
            split at reads
            · exact madeOf_of_read? ofContent reads
            · simp at reads
          split
          · simp [ofDirective.2.quoted]
          · exact Reports.ok ⟨Text.madeOf_append.mpr ⟨ofEnding, ofRemaining⟩,
              List.forall_mem_cons.mpr ⟨ofDirective, ofDirectives⟩⟩

theorem reports_takeAll {text : Text} (madeOf : Text.MadeOf Good text) :
    Reports (Error.Says Good)
      (fun taken => Text.MadeOf Good taken.1 ∧ ∀ directive ∈ taken.2, directive.MadeOf Good)
      (takeAll text) := by
  have taken := reports_takeFrom 0 1 fun line isLine =>
    madeOf.of_subset fun c isChar => Text.mem_of_mem_linesWithBreaks isLine isChar
  unfold takeAll
  split
  · next refused => exact taken.of_error refused
  · next takenAll =>
    split
    · simp
    · exact taken.of_ok takenAll

theorem madeOf_scope (ofNone : Text.MadeOf Good Naming.noScope) {directives : List Directive}
    (ofDirectives : ∀ directive ∈ directives, directive.MadeOf Good) :
    Text.MadeOf Good (scope directives) := by
  unfold scope
  split
  · next directive found =>
    split
    · exact ofNone
    · exact (ofDirectives directive (List.mem_of_find?_eq_some found)).2
  · exact ofNone

end Directive

namespace Source

/-- The names and bodies of the parts of the source are made of some characters. -/
structure MadeOf (Good : CodePoint → Prop) (source : Source) : Prop where
  constants : ∀ block ∈ source.constants, Text.MadeOf Good block.name ∧
    ∀ statement ∈ block.statements, Text.MadeOf Good statement
  keyframes : ∀ block ∈ source.keyframes, Text.MadeOf Good block.name ∧ Text.MadeOf Good block.body
  directives : ∀ directive ∈ source.directives, directive.MadeOf Good
  classes : ∀ block ∈ source.classes, Text.MadeOf Good block.name ∧ Text.MadeOf Good block.body

theorem reports_parse {Good : CodePoint → Prop} (lineFeed : Good '\n') (space : Good ' ')
    {text : Text} (madeOf : Text.MadeOf Good text) :
    Reports (Error.Says Good) (MadeOf Good) (parse text) := by
  rw [parse]
  split
  · have reserved : ({ cause := .reservedInSource } : Error).Says Good := by simp
    exact reserved
  · apply (reports_cutBlocks lineFeed (by simp) [] madeOf).bind
    intro afterConstants ofConstants
    have constants := Reports.mapM fun block isBlock =>
      reports_constant space (ofConstants.2 block isBlock).1 (ofConstants.2 block isBlock).2
    apply constants.bind
    intro constants constantsMadeOf
    apply (reports_cutBlocks lineFeed (by simp) [] ofConstants.1).bind
    intro afterKeyframes ofKeyframes
    apply (Directive.reports_takeAll ofKeyframes.1).bind
    intro afterDirectives ofDirectives
    apply (reports_readClasses 1 [] ofDirectives.1).bind
    intro classes ofClasses
    refine ⟨constantsMadeOf, ?_, ofDirectives.2, ofClasses⟩
    intro block isBlock
    obtain ⟨written, isWritten, rfl⟩ := List.mem_map.mp isBlock
    exact ofKeyframes.2 written isWritten

/-- A source without reserved characters. -/
abbrev MarkerFree : Source → Prop :=
  MadeOf fun c => c ≠ Reference.opening ∧ c ≠ Reference.closing

variable {source : Source}

theorem MarkerFree.scope (markerFree : source.MarkerFree) : Unmarked source.scope :=
  Directive.madeOf_scope (by decide) markerFree.directives

theorem markerFree_of_parse {text : Text} (parsed : parse text = .ok source) :
    source.MarkerFree := by
  have noMarker : Reference.hasMarker text = false := by
    rw [parse] at parsed
    split at parsed
    · simp [throw, throwThe, MonadExceptOf.throw, bind, Except.bind] at parsed
    · next noMarker => exact Bool.not_eq_true _ ▸ noMarker
  exact (reports_parse (by decide) (by decide)
    (Reference.hasMarker_eq_false_iff.mp noMarker)).of_ok parsed

end Source

end TerseStyle

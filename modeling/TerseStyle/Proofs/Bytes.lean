import TerseStyle.Proofs.Declaration
import TerseStyle.Proofs.Encoding
import TerseStyle.Proofs.OrderedMap
import TerseStyle.Proofs.Outcome
import TerseStyle.Proofs.Value
import TerseStyle.Scan.Statement
import TerseStyle.Statement.Target

/-!
# Results and messages that have bytes

Half of a pair cannot be written to a file. No source that is read from one holds such a half, but
the escapes of a theme may. `Reports` speaks of the result of a computation and of its error at
once, so that one proof for each function shows where the characters of both come from. Here are
styles, values and the reading of statements.
-/

namespace TerseStyle

open Text (HasBytes IsCharacter MadeOf)

/-- The message of the error is made of some characters. -/
def Error.MadeOf (Good : CodePoint → Prop) (error : Error) : Prop :=
  Text.MadeOf Good error.cause.describe

/-- What the message of the error quotes is good; the rest of it are characters. -/
abbrev Error.Says (Good : CodePoint → Prop) : Error → Prop :=
  Error.MadeOf fun c => Good c ∨ IsCharacter c

/-- The message of the error has bytes. -/
abbrev Error.HasBytes (error : Error) : Prop :=
  error.Says IsCharacter

theorem Error.HasBytes.describe {error : Error} (hasBytes : error.HasBytes) :
    Text.HasBytes error.cause.describe :=
  fun c isChar => (hasBytes c isChar).elim id id

theorem Text.MadeOf.quoted {Good : CodePoint → Prop} {text : Text} (madeOf : MadeOf Good text) :
    MadeOf (fun c => Good c ∨ IsCharacter c) text :=
  fun c isChar => Or.inl (madeOf c isChar)

@[simp]
theorem Cause.madeOf_marked {Good : CodePoint → Prop} (everyChar : ∀ char : Char, Good (.char char))
    {text : Text} : MadeOf Good (marked text) ↔ MadeOf Good text := by
  simp [marked, everyChar]

variable {κ α β : Type} {Tells : Error → Prop} {Good : α → Prop} {Other : β → Prop}

/-- The outcome is a result with one property, or an error with another. -/
def Reports (Tells : Error → Prop) (Good : α → Prop) : Except Error α → Prop
  | .ok result => Good result
  | .error error => Tells error

/-- The outcome is a result with a property, or an error whose message has bytes. -/
abbrev Yields (Good : α → Prop) : Except Error α → Prop :=
  Reports Error.HasBytes Good

namespace Reports

theorem ok {result : α} (good : Good result) : Reports Tells Good (.ok result) :=
  good

theorem of_ok {outcome : Except Error α} (reports : Reports Tells Good outcome) {result : α}
    (isResult : outcome = .ok result) : Good result := by
  rw [isResult] at reports
  exact reports

theorem of_error {outcome : Except Error α} (reports : Reports Tells Good outcome) {error : Error}
    (isError : outcome = .error error) : Tells error := by
  rw [isError] at reports
  exact reports

theorem map {first : Except Error α} {change : α → β} (ofFirst : Reports Tells Good first)
    (ofChange : ∀ value, Good value → Other (change value)) :
    Reports Tells Other (first.map change) := by
  cases first with
  | error reason => exact ofFirst
  | ok value => exact ofChange value ofFirst

theorem bind {first : Except Error α} {next : α → Except Error β}
    (ofFirst : Reports Tells Good first)
    (ofNext : ∀ value, Good value → Reports Tells Other (next value)) :
    Reports Tells Other (first >>= next) := by
  cases first with
  | error reason => exact ofFirst
  | ok value => exact ofNext value ofFirst

theorem mapM {make : α → Except Error β} {items : List α}
    (ofEach : ∀ item ∈ items, Reports Tells Other (make item)) :
    Reports Tells (fun results => ∀ result ∈ results, Other result) (items.mapM make) := by
  induction items with
  | nil => exact ok (by simp)
  | cons item rest ih =>
      rw [List.forall_mem_cons] at ofEach
      rw [List.mapM_cons]
      apply ofEach.1.bind
      intro result good
      apply (ih ofEach.2).bind
      intro more goodMore
      exact ok (List.forall_mem_cons.mpr ⟨good, goodMore⟩)

end Reports

/-! ## Maps -/

namespace OrderedMap

/-- Every key and every value of the map has a property. -/
def Every (Key : κ → Prop) (Value : α → Prop) (map : OrderedMap κ α) : Prop :=
  ∀ entry ∈ map.entries, Key entry.1 ∧ Value entry.2

variable {Key : κ → Prop} {Value : α → Prop} {source : OrderedMap κ α}

@[simp]
theorem every_empty : (∅ : OrderedMap κ α).Every Key Value := by
  simp [Every]

@[simp]
theorem every_single {key : κ} {value : α} :
    (single key value).Every Key Value ↔ Key key ∧ Value value := by
  simp [Every]

theorem Every.map {Image : β → Prop} {change : α → β} (every : source.Every Key Value)
    (ofChange : ∀ value, Value value → Image (change value)) :
    (source.map change).Every Key Image := by
  intro entry isEntry
  rcases List.mem_map.mp isEntry with ⟨old, isOld, rfl⟩
  exact ⟨(every old isOld).1, ofChange _ (every old isOld).2⟩

variable [DecidableEq κ]

theorem Every.of_get? (every : source.Every Key Value) {key : κ} {value : α}
    (found : source.get? key = some value) : Value value :=
  (every _ (get?_eq_some_iff.mp found)).2

theorem Every.mergeWith {combine : α → α → α} {left right : OrderedMap κ α}
    (ofLeft : left.Every Key Value) (ofRight : right.Every Key Value)
    (ofBoth : ∀ old new, Value old → Value new → Value (combine old new)) :
    (left.mergeWith combine right).Every Key Value := by
  intro entry isEntry
  rcases mem_entries_mergeWith isEntry with inLeft | inRight | ⟨old, new, isOld, isNew, same⟩
  · exact ofLeft entry inLeft
  · exact ofRight entry inRight
  · rw [same]
    exact ⟨(ofLeft _ isOld).1, ofBoth old new (ofLeft _ isOld).2 (ofRight _ isNew).2⟩

theorem Every.merge {left right : OrderedMap κ α} (ofLeft : left.Every Key Value)
    (ofRight : right.Every Key Value) : (left.merge right).Every Key Value :=
  ofLeft.mergeWith ofRight fun _ _ _ ofNew => ofNew

theorem every_ofList {entries : List (κ × α)}
    (ofEach : ∀ entry ∈ entries, Key entry.1 ∧ Value entry.2) :
    (ofList entries).Every Key Value :=
  fun entry isEntry => ofEach entry (mem_entries_ofList isEntry)

end OrderedMap

/-! ## Styles -/

/-- The names and values of the properties have bytes. -/
abbrev Properties.HasBytes (properties : Properties) : Prop :=
  properties.Every Text.HasBytes Text.HasBytes

/-- The names of the blocks and their properties have bytes. -/
abbrev Blocks.HasBytes (blocks : Blocks) : Prop :=
  blocks.Every Text.HasBytes Properties.HasBytes

/-- The names have bytes. -/
abbrev Names.HasBytes (names : Names) : Prop :=
  names.Every Text.HasBytes fun _ => True

/-- The condition and its properties have bytes. -/
def Conditional.HasBytes (block : Conditional) : Prop :=
  Text.HasBytes block.query ∧ Properties.HasBytes block.properties

/-- The selector of the state and its properties have bytes. -/
def PluginState.HasBytes (state : PluginState) : Prop :=
  Text.HasBytes state.selector ∧ Properties.HasBytes state.properties

theorem Blocks.HasBytes.append {left right : Blocks} (ofLeft : left.HasBytes)
    (ofRight : right.HasBytes) : (Blocks.append left right).HasBytes :=
  ofLeft.mergeWith ofRight fun _ _ ofOld ofNew => ofOld.merge ofNew

/-- The runtime variables and their defaults have bytes. -/
structure Pending.HasBytes (pending : Pending) : Prop where
  base : Properties.HasBytes pending.base
  states : Blocks.HasBytes pending.states
  elements : Blocks.HasBytes pending.elements
  containers : Blocks.HasBytes pending.containers

/-- Every text of the style has bytes. -/
structure Style.HasBytes (style : Style) : Prop where
  base : Properties.HasBytes style.base
  states : Blocks.HasBytes style.states
  pluginStates : style.pluginStates.Every (fun _ => True) PluginState.HasBytes
  screens : ∀ block ∈ style.screens, block.HasBytes
  containers : ∀ block ∈ style.containers, block.HasBytes
  pluginContainers : Blocks.HasBytes style.pluginContainers
  elements : Blocks.HasBytes style.elements
  rootVariables : Properties.HasBytes style.rootVariables
  localVariables : Properties.HasBytes style.localVariables
  usedLocals : Names.HasBytes style.usedLocals
  pending : style.pending.HasBytes

/-- Every text of the body has bytes. -/
structure Body.HasBytes (body : Body) : Prop where
  properties : Properties.HasBytes body.properties
  defaults : Properties.HasBytes body.defaults
  usedLocals : Names.HasBytes body.usedLocals

theorem Pending.hasBytes_empty : ({} : Pending).HasBytes := by
  constructor <;> simp

theorem Pending.HasBytes.append {left right : Pending} (ofLeft : left.HasBytes)
    (ofRight : right.HasBytes) : (left.append right).HasBytes where
  base := ofLeft.base.merge ofRight.base
  states := ofLeft.states.append ofRight.states
  elements := ofLeft.elements.append ofRight.elements
  containers := ofLeft.containers.append ofRight.containers

theorem Style.hasBytes_empty : (∅ : Style).HasBytes := by
  constructor
  case pending => exact Pending.hasBytes_empty
  case screens => exact fun _ isBlock => absurd isBlock List.not_mem_nil
  case containers => exact fun _ isBlock => absurd isBlock List.not_mem_nil
  all_goals exact OrderedMap.every_empty

theorem Style.HasBytes.append {left right : Style} (ofLeft : left.HasBytes)
    (ofRight : right.HasBytes) : (left ++ right).HasBytes where
  base := ofLeft.base.merge ofRight.base
  states := ofLeft.states.append ofRight.states
  pluginStates := ofLeft.pluginStates.mergeWith ofRight.pluginStates
    fun _ _ ofOld ofNew => ⟨ofOld.1, ofOld.2.merge ofNew.2⟩
  screens := List.forall_mem_append.mpr ⟨ofLeft.screens, ofRight.screens⟩
  containers := List.forall_mem_append.mpr ⟨ofLeft.containers, ofRight.containers⟩
  pluginContainers := ofLeft.pluginContainers.append ofRight.pluginContainers
  elements := ofLeft.elements.append ofRight.elements
  rootVariables := ofLeft.rootVariables.merge ofRight.rootVariables
  localVariables := ofLeft.localVariables.merge ofRight.localVariables
  usedLocals := ofLeft.usedLocals.merge ofRight.usedLocals
  pending := ofLeft.pending.append ofRight.pending

theorem Style.HasBytes.shared {fragment : Style} (hasBytes : fragment.HasBytes) :
    fragment.shared.HasBytes :=
  { Style.hasBytes_empty with
    base := hasBytes.base
    states := hasBytes.states
    pluginStates := hasBytes.pluginStates
    screens := hasBytes.screens
    containers := hasBytes.containers
    pluginContainers := hasBytes.pluginContainers
    elements := hasBytes.elements
    usedLocals := hasBytes.usedLocals }

theorem Body.hasBytes_empty : (∅ : Body).HasBytes :=
  ⟨OrderedMap.every_empty, OrderedMap.every_empty, OrderedMap.every_empty⟩

theorem Body.HasBytes.append {left right : Body} (ofLeft : left.HasBytes)
    (ofRight : right.HasBytes) : (left ++ right).HasBytes where
  properties := ofLeft.properties.merge ofRight.properties
  defaults := ofLeft.defaults.merge ofRight.defaults
  usedLocals := ofLeft.usedLocals.merge ofRight.usedLocals

theorem Body.HasBytes.ofBody {body : Body} (hasBytes : body.HasBytes) :
    (Style.ofBody body).HasBytes :=
  { Style.hasBytes_empty with
    base := hasBytes.properties
    usedLocals := hasBytes.usedLocals
    pending := { Pending.hasBytes_empty with base := hasBytes.defaults } }

/-! ## Values -/

namespace Text

variable {text : Text} {recognise : Recogniser α}

namespace MadeOf

variable {Of : CodePoint → Prop}

/-- If what a recogniser finds in a text is `Good`, so is every item of the text. -/
theorem of_mem_items (madeOf : MadeOf Of text)
    (ofItem : ∀ {suffix item width}, MadeOf Of suffix → recognise suffix = some (item, width) →
      Good item) : ∀ item ∈ items recognise text, Good item := by
  intro item isItem
  rcases List.mem_filterMap.mp isItem with ⟨piece, isPiece, isFound⟩
  rcases mem_pieces isPiece with ⟨c, _, rfl⟩ | ⟨suffix, width, found, isSuffix, recognised, rfl⟩
  · simp [Piece.item?] at isFound
  · simp only [Piece.item?, Option.some.injEq] at isFound
    rw [← isFound]
    exact ofItem (madeOf.of_subset fun c isChar => isSuffix.subset isChar) recognised

theorem replaceItemsM {write : α → Except Error Text} (madeOf : MadeOf Of text)
    (ofItem : ∀ {suffix item width}, MadeOf Of suffix → recognise suffix = some (item, width) →
      Reports Tells (MadeOf Of) (write item)) :
    Reports Tells (MadeOf Of) (Text.replaceItemsM recognise write text) := by
  have ofPieces : Reports Tells (fun parts => ∀ part ∈ parts, MadeOf Of part)
      ((pieces recognise text).mapM (Piece.renderM write)) := by
    apply Reports.mapM
    intro piece isPiece
    rcases mem_pieces isPiece with ⟨c, inText, rfl⟩ | ⟨suffix, width, item, isSuffix, found, rfl⟩
    · exact Reports.ok (madeOf.of_subset fun d isChar => List.mem_singleton.mp isChar ▸ inText)
    · exact ofItem (madeOf.of_subset fun c isChar => isSuffix.subset isChar) found
  apply ofPieces.map
  intro parts ofParts c isChar
  rcases List.mem_flatten.mp isChar with ⟨part, isPart, inPart⟩
  exact ofParts part isPart c inPart

end MadeOf

end Text

namespace Reference

/-- The names of the reference have bytes. -/
def HasBytes : Reference → Prop
  | runtime abbreviation block => Text.HasBytes abbreviation ∧ Text.HasBytes block
  | localVariable name => Text.HasBytes name
  | scope name => Text.HasBytes name

theorem hasBytes_render_iff {reference : Reference} :
    Text.HasBytes reference.render ↔ reference.HasBytes := by
  cases reference with
  | runtime abbreviation block => simp [render, HasBytes, opening, closing]
  | localVariable name => simp [render, HasBytes, opening, closing]
  | scope name => simp [render, HasBytes, opening, closing]

theorem hasBytes_of_read? {text : Text} (hasBytes : Text.HasBytes text) {reference : Reference}
    (found : read? text = some reference) : reference.HasBytes := by
  rcases (read?_eq_some found).2 with ⟨rest, rfl⟩
  exact hasBytes_render_iff.mp (Text.madeOf_append.mp hasBytes).1

theorem hasBytes_of_recognise {text : Text} (hasBytes : Text.HasBytes text) {reference : Reference}
    {width : Nat} (found : recognise text = some (reference, width)) : reference.HasBytes := by
  rcases Option.map_eq_some_iff.mp found with ⟨other, isRead, same⟩
  rw [← (Prod.mk.inj same).1]
  exact hasBytes_of_read? hasBytes isRead

end Reference

namespace Value

variable {value : Text}

theorem hasBytes_of_recogniseLocal {text name : Text} {width : Nat} (hasBytes : HasBytes text)
    (found : recogniseLocal text = some (name, width)) : HasBytes name := by
  unfold recogniseLocal at found
  split at found
  · simp only at found
    split at found
    · simp at found
    · simp only [Option.some.injEq, Prod.mk.injEq] at found
      rw [← found.1]
      simp only [Text.madeOf_cons] at hasBytes
      exact hasBytes.2.2.2.of_subset fun c => (List.takeWhile_sublist _).mem
  · simp at found

theorem hasBytes_localNames (hasBytes : HasBytes value) :
    ∀ name ∈ localNames value, HasBytes name :=
  hasBytes.of_mem_items hasBytes_of_recogniseLocal

theorem hasBytes_referLocals (hasBytes : HasBytes value) : HasBytes (referLocals value) := by
  apply hasBytes.replaceItems
  intro suffix name width ofSuffix found
  have ofName : (Reference.localVariable name).HasBytes :=
    hasBytes_of_recogniseLocal ofSuffix found
  exact Reference.hasBytes_render_iff.mpr ofName

theorem hasBytes_withImportance (important : Bool) (hasBytes : HasBytes value) :
    HasBytes (withImportance important value) := by
  cases important <;> simp [withImportance, hasBytes]

theorem hasBytes_quoted (hasBytes : HasBytes value) : HasBytes (quoted value) := by
  have escaped : HasBytes (Text.replaceChar '"' ['\\', '"'] value) :=
    MadeOf.replaceChar (by simp) hasBytes
  have cases : quoted value = value ∨
      quoted value = "\"" ++ Text.replaceChar '"' ['\\', '"'] value ++ "\"" :=
    ite_eq_or_eq ..
  rcases cases with same | same
  · rw [same]
    exact hasBytes
  · simp [same, escaped]

end Value

/-! ## Scanning -/

namespace Scan

variable {scan : Scan} {c : CodePoint} {Of : CodePoint → Prop}
  (everyChar : ∀ char : Char, Of (.char char))

include everyChar

theorem madeOf_excerpt (ofSeen : MadeOf Of scan.seen) (ofNext : Of c) :
    MadeOf Of (scan.excerpt c) := by
  apply MadeOf.collapse _ (everyChar ' ')
  simp only [Text.madeOf_append, Text.madeOf_cons, Text.madeOf_nil, and_true]
  exact ⟨ofSeen.of_subset fun d isChar => List.mem_of_mem_take (List.mem_reverse.mp isChar), ofNext⟩

theorem madeOf_of_groupsAfter (ofSeen : MadeOf Of scan.seen) (ofNext : Of c) {cause : Cause}
    (refused : scan.groupsAfter c = .error cause) : MadeOf Of cause.describe := by
  have ofExcerpt := madeOf_excerpt everyChar ofSeen ofNext
  unfold groupsAfter at refused
  split at refused
  case h_5 | h_10 =>
    split at refused
    · cases refused <;> simp [Cause.describe, everyChar, ofExcerpt, ofNext]
    · cases refused <;> simp [Cause.describe, everyChar, ofExcerpt]
  all_goals cases refused <;> simp [Cause.describe, everyChar, ofExcerpt]

theorem madeOf_of_finish (ofSeen : MadeOf Of scan.seen) {error : Error}
    (refused : scan.finish = .error error) : error.MadeOf Of := by
  have ofRead : MadeOf Of (Text.collapse scan.seen.reverse) :=
    (ofSeen.of_subset fun d isChar => List.mem_reverse.mp isChar).collapse (everyChar ' ')
  unfold finish at refused
  split at refused
  · simp at refused
  · next innermost _ _ =>
    cases refused
    cases innermost <;> simp [Error.MadeOf, errorAt, Cause.describe, everyChar, ofRead]

theorem reports_step (ofSeen : MadeOf Of scan.seen) (ofNext : Of c) :
    Reports (Error.MadeOf Of) (fun next => MadeOf Of next.seen) (scan.step c) := by
  unfold step
  split
  · exact Text.madeOf_cons.mpr ⟨ofNext, ofSeen⟩
  · next refused => exact madeOf_of_groupsAfter everyChar ofSeen ofNext refused

theorem madeOf_of_statementsAfter {part text : Text} (ofSeen : MadeOf Of scan.seen)
    (ofText : MadeOf Of text) {error : Error}
    (refused : scan.statementsAfter part text = .error error) : error.MadeOf Of := by
  fun_induction statementsAfter scan part text with
  | case1 scan part reason notClosed =>
      cases refused
      exact madeOf_of_finish everyChar ofSeen notClosed
  | case2 => simp at refused
  | case3 scan part c rest reason notRead =>
      cases refused
      exact (reports_step everyChar ofSeen (Text.madeOf_cons.mp ofText).1).of_error notRead
  | case4 scan part c rest next reads _ _ ih =>
      rcases Text.madeOf_cons.mp ofText with ⟨ofNext, ofRest⟩
      exact ih ((reports_step everyChar ofSeen ofNext).of_ok reads) ofRest refused
  | case5 scan part c rest next reads _ _ ih =>
      rcases Text.madeOf_cons.mp ofText with ⟨ofNext, ofRest⟩
      exact ih ((reports_step everyChar ofSeen ofNext).of_ok reads) ofRest
        (map_eq_error_iff.mp refused)
  | case6 scan part c rest next reads _ ih =>
      rcases Text.madeOf_cons.mp ofText with ⟨ofNext, ofRest⟩
      exact ih ((reports_step everyChar ofSeen ofNext).of_ok reads) ofRest refused

theorem madeOf_of_splitTopLevelAfter {isSeparator : CodePoint → Bool} {text : Text}
    (ofSeen : MadeOf Of scan.seen) (ofText : MadeOf Of text) {error : Error}
    (refused : scan.splitTopLevelAfter isSeparator text = .error error) : error.MadeOf Of := by
  fun_induction splitTopLevelAfter isSeparator scan text with
  | case1 => simp at refused
  | case2 scan c rest reason notRead =>
      cases refused
      exact (reports_step everyChar ofSeen (Text.madeOf_cons.mp ofText).1).of_error notRead
  | case3 => simp at refused
  | case4 scan c rest next reads _ ih =>
      rcases Text.madeOf_cons.mp ofText with ⟨ofNext, ofRest⟩
      exact ih ((reports_step everyChar ofSeen ofNext).of_ok reads) ofRest refused

end Scan

theorem Brace.says_of_readBody {Of : CodePoint → Prop} {line : Nat} {text : Text} {error : Error}
    (refused : readBody line text = .error error) : error.Says Of := by
  unfold readBody at refused
  split at refused
  · simp at refused
  · cases refused
    simp [Error.MadeOf, Cause.describe]

theorem Brace.reports_readBody {Of : CodePoint → Prop} (line : Nat) {text : Text}
    (madeOf : MadeOf Of text) :
    Reports (Error.Says Of) (fun parts => MadeOf Of parts.1 ∧ MadeOf Of parts.2)
      (readBody line text) := by
  cases reads : readBody line text with
  | error error => exact says_of_readBody reads
  | ok parts =>
      rw [readBody_eq_ok reads] at madeOf
      simp only [Text.madeOf_append, Text.madeOf_cons] at madeOf
      exact ⟨madeOf.1, madeOf.2.2⟩

theorem reports_statements {Of : CodePoint → Prop} (space : Of ' ') {text : Text}
    (madeOf : MadeOf Of text) :
    Reports (Error.Says Of) (fun found => ∀ statement ∈ found, MadeOf Of statement)
      (statements text) := by
  cases scanned : statements text with
  | error error =>
      exact Scan.madeOf_of_statementsAfter (fun char => Or.inr ⟨char, rfl⟩) Text.madeOf_nil
        madeOf.quoted scanned
  | ok found =>
      intro statement isStatement c isChar
      rcases mem_of_mem_statements scanned isStatement isChar with inText | rfl
      · exact madeOf c inText
      · exact space

theorem yields_splitTopLevel {isSeparator : CodePoint → Bool} {text : Text}
    (hasBytes : HasBytes text) :
    Yields (fun found => ∀ parts ∈ found, HasBytes parts.1 ∧ HasBytes parts.2)
      (splitTopLevel isSeparator text) := by
  cases splits : splitTopLevel isSeparator text with
  | error error =>
      exact Scan.madeOf_of_splitTopLevelAfter (fun char => Or.inr ⟨char, rfl⟩) Text.madeOf_nil
        hasBytes.quoted splits
  | ok found =>
      rintro ⟨before, after⟩ isFound
      rw [Option.mem_def.mp isFound] at splits
      exact ⟨hasBytes.of_subset fun c isChar => mem_of_mem_splitTopLevel splits (Or.inl isChar),
        hasBytes.of_subset fun c isChar => mem_of_mem_splitTopLevel splits (Or.inr isChar)⟩

theorem Declaration.hasBytes_of_read? {statement : Text} (hasBytes : HasBytes statement)
    {declaration : Declaration} (found : read? statement = some declaration) :
    HasBytes declaration.name ∧ HasBytes declaration.value := by
  rw [eq_render_of_read? found, render] at hasBytes
  simp only [Text.madeOf_append] at hasBytes
  exact ⟨hasBytes.1.1.1.1.2, hasBytes.1.1.2⟩

theorem Declaration.yields_parse {statement : Text} (hasBytes : HasBytes statement) :
    Yields (fun declaration => HasBytes declaration.name ∧ HasBytes declaration.value)
      (parse statement) := by
  unfold parse
  split
  · next found => exact hasBytes_of_read? hasBytes found
  · simp [Reports, Error.MadeOf, Cause.describe, hasBytes]

end TerseStyle

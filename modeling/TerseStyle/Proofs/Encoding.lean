import Mathlib
import TerseStyle.Proofs.Scan
import TerseStyle.Text.Encoding

/-!
# Texts made of some characters

Whatever is cut out of texts that are made of some characters, or joined from them, is made of such
characters too. So all that is to be shown of a function of texts is where its characters come from.
A text can be written to a file, or printed, exactly if no half of a pair stands in it.
-/

namespace TerseStyle

namespace Text

/-- Every character of the text satisfies a predicate. -/
def MadeOf (Good : CodePoint → Prop) (text : Text) : Prop :=
  ∀ c ∈ text, Good c

variable {Good : CodePoint → Prop} {text other : Text}

instance [DecidablePred Good] (text : Text) : Decidable (MadeOf Good text) :=
  inferInstanceAs (Decidable (∀ c ∈ text, Good c))

@[simp] theorem madeOf_nil : MadeOf Good [] := by
  simp [MadeOf]

@[simp] theorem madeOf_cons {c : CodePoint} : MadeOf Good (c :: text) ↔ Good c ∧ MadeOf Good text :=
  List.forall_mem_cons

@[simp] theorem madeOf_append :
    MadeOf Good (text ++ other) ↔ MadeOf Good text ∧ MadeOf Good other :=
  List.forall_mem_append

namespace MadeOf

theorem of_subset (madeOf : MadeOf Good text) (within : ∀ c ∈ other, c ∈ text) :
    MadeOf Good other :=
  fun c isChar => madeOf c (within c isChar)

theorem flatMap {α : Type} {items : List α} {part : α → Text}
    (ofParts : ∀ item ∈ items, MadeOf Good (part item)) : MadeOf Good (items.flatMap part) := by
  intro c isChar
  rcases List.mem_flatMap.mp isChar with ⟨item, isItem, inPart⟩
  exact ofParts item isItem c inPart

theorem trim (madeOf : MadeOf Good text) : MadeOf Good (Text.trim text) :=
  madeOf.of_subset fun _ isChar => mem_of_mem_trim isChar

theorem of_mem_words {word : Text} (madeOf : MadeOf Good text) (isWord : word ∈ words text) :
    MadeOf Good word :=
  madeOf.of_subset fun _ isChar => mem_of_mem_words isWord isChar

theorem joinWith {separator : Text} {texts : List Text} (separated : MadeOf Good separator)
    (madeOf : ∀ text ∈ texts, MadeOf Good text) : MadeOf Good (Text.joinWith separator texts) := by
  intro c isChar
  rcases mem_joinWith isChar with inSeparator | ⟨text, isText, inText⟩
  · exact separated c inSeparator
  · exact madeOf text isText c inText

theorem collapse (madeOf : MadeOf Good text) (space : Good ' ') :
    MadeOf Good (Text.collapse text) := by
  apply MadeOf.joinWith
  · simpa using space
  · exact fun _ isWord => madeOf.of_mem_words isWord

theorem replaceChar {old : CodePoint} {new : Text} (ofNew : MadeOf Good new)
    (madeOf : MadeOf Good text) : MadeOf Good (Text.replaceChar old new text) := by
  apply flatMap
  intro d inText
  split
  · exact ofNew
  · simpa using madeOf d inText

end MadeOf

/-! ## Bytes -/

/-- The code point is no half of a pair. -/
abbrev IsCharacter (c : CodePoint) : Prop :=
  ∃ char : Char, c = .char char

/-- The text consists of characters. -/
abbrev HasBytes (text : Text) : Prop :=
  MadeOf IsCharacter text

@[simp] theorem madeOf_ofChars (everyChar : ∀ char : Char, Good (.char char)) (chars : List Char) :
    MadeOf Good (ofChars chars) := by
  intro c isChar
  rcases List.mem_map.mp isChar with ⟨char, _, rfl⟩
  exact everyChar char

@[simp] theorem madeOf_ofString (everyChar : ∀ char : Char, Good (.char char)) (string : String) :
    MadeOf Good (ofString string) :=
  madeOf_ofChars everyChar _

@[simp] theorem madeOf_ofNat (everyChar : ∀ char : Char, Good (.char char)) (number : Nat) :
    MadeOf Good (ofNat number) :=
  madeOf_ofChars everyChar _

theorem length_ofString (string : String) : (ofString string).length = string.length := by
  rw [ofString, ofChars, List.length_map, String.length_toList]

theorem hasBytes_ofString (string : String) : HasBytes (ofString string) := by
  simp

/-! ## Reading and writing -/

theorem exists_eq_ofChars (hasBytes : HasBytes text) : ∃ chars, text = ofChars chars := by
  induction text with
  | nil => exact ⟨[], rfl⟩
  | cons c rest ih =>
      rcases madeOf_cons.mp hasBytes with ⟨⟨char, rfl⟩, restHasBytes⟩
      rcases ih restHasBytes with ⟨chars, rfl⟩
      exact ⟨char :: chars, rfl⟩

theorem mapM_char?_eq_some_iff {chars : List Char} :
    text.mapM CodePoint.char? = some chars ↔ text = ofChars chars := by
  induction text generalizing chars with
  | nil => cases chars <;> simp [ofChars]
  | cons c rest ih =>
      cases c with
      | half index => cases chars <;> simp [CodePoint.char?, ofChars]
      | char c =>
          cases chars <;> simp [CodePoint.char?, Option.bind_eq_some_iff, ih, ofChars, and_comm]

theorem string?_eq_some_iff {string : String} :
    string? text = some string ↔ text = ofString string := by
  simp only [string?, Option.map_eq_some_iff, mapM_char?_eq_some_iff, ofString]
  constructor
  · rintro ⟨chars, rfl, rfl⟩
    rw [String.toList_ofList]
  · intro isText
    exact ⟨string.toList, isText, String.ofList_toList⟩

/-- The contents of a file that holds a text. -/
theorem encode?_eq_some_iff {contents : ByteArray} :
    encode? text = some contents ↔ ∃ string, text = ofString string ∧ contents = string.toUTF8 := by
  simp only [encode?, Option.map_eq_some_iff, string?_eq_some_iff, @eq_comm _ contents]

theorem isEncodable_iff : isEncodable text = true ↔ HasBytes text := by
  simp only [isEncodable, Option.isSome_iff_exists, encode?_eq_some_iff]
  constructor
  · rintro ⟨_, string, rfl, _⟩
    exact hasBytes_ofString string
  · intro hasBytes
    rcases exists_eq_ofChars hasBytes with ⟨chars, rfl⟩
    exact ⟨_, String.ofList chars, by rw [ofString, String.toList_ofList], rfl⟩

/-- How a text is read: a carriage return and a line feed after it are one line end. -/
inductive ReadsAs : Text → Text → Prop where
  | nil : ReadsAs [] []
  | pair {rest text : Text} (reads : ReadsAs rest text) :
      ReadsAs (.char '\r' :: .char '\n' :: rest) (.char '\n' :: text)
  | single {rest text : Text} (alone : rest.head? ≠ some (.char '\n')) (reads : ReadsAs rest text) :
      ReadsAs (.char '\r' :: rest) (.char '\n' :: text)
  | other {c : CodePoint} {rest text : Text} (differs : c ≠ .char '\r')
      (reads : ReadsAs rest text) : ReadsAs (c :: rest) (c :: text)

theorem readsAs_iff {written : Text} : ReadsAs written text ↔ unifyLineEnds written = text := by
  constructor
  · intro reads
    induction reads with
    | nil => rfl
    | pair reads ih => rw [unifyLineEnds, ih]
    | single alone reads ih =>
        rw [unifyLineEnds, ih, if_pos rfl]
        rintro rest _ rfl
        exact alone rfl
    | other differs reads ih =>
        rw [unifyLineEnds, ih, if_neg differs]
        exact fun _ isReturn _ => differs isReturn
  · rintro rfl
    induction written using unifyLineEnds.induct with
    | case1 => exact .nil
    | case2 rest ih => exact .pair ih
    | case3 c rest notPair ih =>
        rw [unifyLineEnds]
        · split
          · next isReturn =>
            subst isReturn
            refine .single ?_ ih
            intro isFeed
            rcases List.head?_eq_some_iff.mp isFeed with ⟨more, rfl⟩
            exact notPair more rfl rfl
          · next differs => exact .other differs ih
        · exact notPair

/-- The contents of a file spell a text. -/
def Decodes (contents : ByteArray) (text : Text) : Prop :=
  ∃ string : String, contents = string.toUTF8 ∧ ReadsAs (ofString string) text

theorem decode?_eq_some_iff {contents : ByteArray} :
    decode? contents = some text ↔ Decodes contents text := by
  have isString : ∀ string, String.fromUTF8? contents = some string ↔ contents = string.toUTF8 := by
    intro string
    unfold String.fromUTF8?
    constructor
    · intro found
      split at found
      · cases found
        rfl
      · simp at found
    · rintro rfl
      exact dif_pos string.isValidUTF8
  simp only [decode?, Option.map_eq_some_iff, isString, Decodes, readsAs_iff]

theorem Decodes.hasBytes {contents : ByteArray} (decodes : Decodes contents text) :
    HasBytes text := by
  rcases decodes with ⟨string, _, reads⟩
  have ofWritten := hasBytes_ofString string
  generalize ofString string = written at reads ofWritten
  induction reads with
  | nil => exact ofWritten
  | pair reads ih =>
      simp only [madeOf_cons] at ofWritten ⊢
      exact ⟨ofWritten.2.1, ih ofWritten.2.2⟩
  | single alone reads ih =>
      simp only [madeOf_cons] at ofWritten ⊢
      exact ⟨⟨'\n', rfl⟩, ih ofWritten.2⟩
  | other differs reads ih =>
      simp only [madeOf_cons] at ofWritten ⊢
      exact ⟨ofWritten.1, ih ofWritten.2⟩

end Text

end TerseStyle

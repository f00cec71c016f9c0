import TerseStyle.Proofs.Reference
import TerseStyle.Proofs.Scan
import TerseStyle.Statement.Target
import TerseStyle.Vocabulary.Abbreviation

/-!
# Names with a fixed meaning

Every name of the vocabulary, be it an abbreviation, a property or the head of a block, is made of
lower case letters and hyphens, and those that stand for something written elsewhere are free of
reserved characters. The final names that the compiler makes up contain an underscore, so they
never coincide with a name of the vocabulary.
-/

namespace TerseStyle

open Reference (Unmarked IsName)

namespace Vocabulary

theorem mem_of_lookup {α : Type} {table : List (Text × α)} {name : Text} {found : α}
    (isFound : table.lookup name = some found) : (name, found) ∈ table := by
  rw [List.lookup_eq_some_iff] at isFound
  obtain ⟨before, after, isTable, _⟩ := isFound
  rw [isTable]
  simp

/-- A word of the vocabulary: lower case letters and hyphens. -/
def isWord (text : Text) : Bool :=
  !text.isEmpty && text.all fun c => Nat.beq c.toNat 45 ||
    (Nat.ble 97 c.toNat && Nat.ble c.toNat 122)

theorem isNameChar_of_isWord {word : Text} (isOne : isWord word = true) :
    ∀ c ∈ word, isNameChar c = true ∧ c ≠ .char '_' := by
  intro c isChar
  simp only [isWord, Bool.and_eq_true, List.all_eq_true, Bool.or_eq_true, Nat.beq_eq,
    Nat.ble_eq] at isOne
  rcases isOne.2 c isChar with isHyphen | ⟨fromA, toZ⟩
  · have same : c = .char '-' := by
      cases c with
      | char c => simpa [CodePoint.toNat, Char.ext_iff, UInt32.ext_iff] using isHyphen
      | half index => simp [CodePoint.toNat, CodePoint.firstHalf] at isHyphen; omega
    rw [same]
    decide
  · constructor
    · have isSmall : c.toNat < 128 := by omega
      simp [isNameChar, isWordChar, isAlphanumeric, isSmall, isLetter, fromA, toZ]
    · rintro rfl
      exact absurd fromA (by decide)

theorem isName_of_isWord {word : Text} (isOne : isWord word = true) : IsName word := by
  refine ⟨?_, fun c isChar => (isNameChar_of_isWord isOne c isChar).1⟩
  rintro rfl
  simp [isWord] at isOne

end Vocabulary

namespace Abbreviation

theorem isWord_of_mem_table : ∀ row ∈ table,
    Vocabulary.isWord row.1 = true ∧ ∀ property ∈ row.2, Vocabulary.isWord property = true := by
  rw [table, List.forall_mem_flatten]
  simp only [List.forall_mem_cons, List.not_mem_nil, IsEmpty.forall_iff, implies_true, and_true]
  and_intros
  all_goals
    simp only [twofold, alignment, animation, background, border, box, color, container, column,
      flexAndGrid, placement, typeface, filter, dimension, position, object, overflow, transform,
      mask, appearance, miscellany, inset, containment, scrollSnap, accent, List.forall_mem_cons,
      List.not_mem_nil, IsEmpty.forall_iff, implies_true, and_true]
    and_intros
    all_goals
      rw [Text.ofString_ofList]
      rfl

variable {name : Text} {properties : List Text}

theorem mem_table_of_expand? (expands : expand? name = some properties) :
    (name, properties) ∈ table :=
  Vocabulary.mem_of_lookup expands

theorem isWord_of_expand? (expands : expand? name = some properties) :
    Vocabulary.isWord name = true :=
  (isWord_of_mem_table _ (mem_table_of_expand? expands)).1

theorem unmarked_of_expand? (expands : expand? name = some properties) :
    ∀ property ∈ properties, Unmarked property := by
  intro property isProperty
  apply Reference.unmarked_of_isNameChar
  exact (Vocabulary.isName_of_isWord
    ((isWord_of_mem_table _ (mem_table_of_expand? expands)).2 property isProperty)).2

end Abbreviation

namespace Vocabulary

/-- The characters of a text that may stand in the block of a reference. None is an underscore. -/
def AreBlockChars (text : Text) : Prop :=
  ∀ c ∈ text, isNameChar c = true ∧ c ≠ .char '_'

instance (text : Text) : Decidable (AreBlockChars text) :=
  inferInstanceAs (Decidable (∀ c ∈ text, isNameChar c = true ∧ c ≠ .char '_'))

theorem areBlockChars_of_mem_pseudo {head : Text}
    (isHead : head ∈ pseudoClasses ∨ head ∈ pseudoElements) : AreBlockChars head := by
  have allWords : ∀ head ∈ pseudoClasses ++ pseudoElements, isWord head = true := by
    unfold pseudoClasses pseudoElements
    repeat rw [Text.ofString_ofList]
    decide +kernel
  exact isNameChar_of_isWord (allWords head (List.mem_append.mpr isHead))

theorem exists_of_pluginStateSelector? {name selector : Text}
    (found : pluginStateSelector? name = some selector) :
    ∃ plugin states state, (plugin, states) ∈ pluginStates ∧ (state, selector) ∈ states ∧
      name = plugin ++ CodePoint.char '-' :: state := by
  unfold pluginStateSelector? at found
  split at found
  · simp at found
  · next plugin state splits =>
    obtain ⟨states, isPlugin, isState⟩ := Option.bind_eq_some_iff.mp found
    exact ⟨plugin, states, state, mem_of_lookup isPlugin, mem_of_lookup isState,
      Text.splitAtChar?_eq_some splits⟩

/-- The text is part of one compound selector. -/
def IsCompound (text : Text) : Prop :=
  CodePoint.char ',' ∉ text ∧ CodePoint.char ' ' ∉ text

instance (text : Text) : Decidable (IsCompound text) :=
  inferInstanceAs (Decidable (_ ∧ _))

theorem AreBlockChars.isCompound {text : Text} (areBlockChars : AreBlockChars text) :
    IsCompound text :=
  ⟨fun isChar => absurd (areBlockChars _ isChar).1 (by decide),
    fun isChar => absurd (areBlockChars _ isChar).1 (by decide)⟩

theorem of_pluginStateSelector? {name selector : Text}
    (found : pluginStateSelector? name = some selector) :
    AreBlockChars name ∧ Unmarked selector ∧ IsCompound selector := by
  have allWellFormed : ∀ plugin ∈ pluginStates, AreBlockChars plugin.1 ∧
      ∀ state ∈ plugin.2, AreBlockChars state.1 ∧ Unmarked state.2 ∧ IsCompound state.2 := by
    unfold pluginStates
    repeat rw [Text.ofString_ofList]
    decide +kernel
  obtain ⟨plugin, states, state, isPlugin, isState, rfl⟩ := exists_of_pluginStateSelector? found
  obtain ⟨pluginChars, ofStates⟩ := allWellFormed _ isPlugin
  obtain ⟨stateChars, ofSelector⟩ := ofStates _ isState
  refine ⟨?_, ofSelector⟩
  intro c isChar
  rcases List.mem_append.mp isChar with inPlugin | inRest
  · exact pluginChars c inPlugin
  · rcases List.mem_cons.mp inRest with rfl | inState
    · decide
    · exact stateChars c inState

end Vocabulary

/-- The texts that a block brings with it: its name can be part of a reference, and its selector is
unmarked and part of one compound selector. -/
structure Slot.WellFormed (slot : Slot) : Prop where
  areBlockChars : Vocabulary.AreBlockChars slot.target.block
  selector : ∀ name selector, slot = .pluginState name selector →
    Unmarked selector ∧ Vocabulary.IsCompound selector

theorem Slot.wellFormed_of_ofHead? {head : Text} {slot : Slot} (isSlot : ofHead? head = some slot) :
    slot.WellFormed := by
  unfold ofHead? at isSlot
  split at isSlot
  · next isHead =>
    rw [Option.some.injEq] at isSlot
    rw [← isSlot]
    exact ⟨Vocabulary.areBlockChars_of_mem_pseudo (Or.inl isHead), by simp⟩
  · split at isSlot
    · next isHead =>
      rw [Option.some.injEq] at isSlot
      rw [← isSlot]
      exact ⟨Vocabulary.areBlockChars_of_mem_pseudo (Or.inr isHead), by simp⟩
    · split at isSlot
      · next selector found =>
        rw [Option.some.injEq] at isSlot
        obtain ⟨areBlockChars, ofSelector⟩ := Vocabulary.of_pluginStateSelector? found
        rw [← isSlot]
        refine ⟨areBlockChars, ?_⟩
        rintro name other same
        rw [pluginState.injEq] at same
        rw [← same.2]
        exact ofSelector
      · obtain ⟨containerClass, found, same⟩ := Option.map_eq_some_iff.mp isSlot
        have allNames : ∀ container ∈ Vocabulary.pluginContainers,
            Vocabulary.AreBlockChars container.2 := by
          decide +kernel
        rw [← same]
        exact ⟨allNames _ (Vocabulary.mem_of_lookup found), by simp⟩

end TerseStyle

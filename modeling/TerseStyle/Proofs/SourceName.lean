import TerseStyle.Proofs.Block
import TerseStyle.Proofs.ClassText

/-!
# Names that a source declares

The names of constants, keyframes and classes are made of name characters, and so is the scope of a
source. What becomes of such a name in the style sheet is a name again.
-/

namespace TerseStyle

open Reference (IsName)

theorem isNameChar_of_isAsciiNameChar {c : CodePoint} (isAscii : isAsciiNameChar c = true) :
    isNameChar c = true := by
  simp only [isAsciiNameChar, Bool.or_eq_true] at isAscii
  rcases isAscii with ((isLetterChar | isDigit) | isUnderscore) | isHyphen
  · exact Source.isNameChar_of_isIdentifierStart (by simp [isIdentifierStart, isLetterChar])
  · have small : c.toNat < 128 := by
      simp only [isAsciiDigit, Bool.and_eq_true, decide_eq_true_eq] at isDigit
      omega
    simp [isNameChar, isWordChar, isAlphanumeric, small, isDigit]
  · simp [isNameChar, isWordChar, isUnderscore]
  · simp [isNameChar, isHyphen]

theorem Directive.isNameChar_of_mem_scope {text remaining : Text} {directives : List Directive}
    (taken : takeAll text = .ok (remaining, directives)) :
    ∀ c ∈ scope directives, isNameChar c = true := by
  have ofNone : ∀ c ∈ Naming.noScope, isNameChar c = true := by decide
  rw [takeAll] at taken
  split at taken
  · simp at taken
  · next left found takenFrom =>
    split at taken
    · simp at taken
    · simp only [Except.ok.injEq, Prod.mk.injEq] at taken
      rw [taken.2] at takenFrom
      have legal := (takeFrom_zero_eq_ok_iff.mp takenFrom).1
      rw [scope]
      split
      · next directive isFirst =>
        split
        · exact ofNone
        · have isScopeDirective : directive.isScope = true := List.find?_some isFirst
          have isLegalOne := legal directive (List.mem_of_find?_eq_some isFirst)
          have isValue : isScopeValue directive.value = true := by
            simpa [isLegal, isScopeDirective] using isLegalOne
          intro c isChar
          exact (isNameChar_of_isScopeValue isValue c isChar).elim id isNameChar_of_isAsciiNameChar
      · exact ofNone

namespace Source

variable {source : Source} {text : Text}

theorem isName_of_findHeader? {kind : Text} {atLineStart : Bool} {before : Text} {header : Header}
    (found : findHeader? (.char '@' :: kind) atLineStart text = some (before, header)) :
    IsName header.name := by
  induction text generalizing atLineStart before with
  | nil => simp [findHeader?] at found
  | cons c rest ih =>
      have later : ∀ {onwards : Option (Text × Header)},
          onwards = findHeader? (.char '@' :: kind) (c == '\n') rest →
          (onwards.map fun found => (c :: found.1, found.2)) = some (before, header) →
          IsName header.name := by
        rintro _ rfl mapped
        rcases Option.map_eq_some_iff.mp mapped with ⟨⟨inner, innerHeader⟩, innerFound, same⟩
        simp only [Prod.mk.injEq] at same
        rw [same.2] at innerFound
        exact ih innerFound
      simp only [findHeader?] at found
      split at found
      · split at found
        · next headerAt =>
          simp only [Option.some.injEq, Prod.mk.injEq] at found
          rcases (readHeader?_eq_some_iff.mp headerAt).1 with ⟨_, _, _, _, _, isName, _, _⟩
          exact found.2 ▸ isName
        · exact later rfl found
      · exact later rfl found

theorem isName_of_cutBlocks {kind : Text} {seen : List Text} {remaining : Text}
    {blocks : List NamedBlock} (cut : cutBlocks kind seen text = .ok (remaining, blocks)) :
    ∀ block ∈ blocks, IsName block.name := by
  fun_induction cutBlocks kind seen text generalizing remaining blocks with
  | case1 =>
      simp only [Except.ok.injEq, Prod.mk.injEq] at cut
      simp [← cut.2]
  | case2 => simp at cut
  | case3 => simp at cut
  | case4 =>
      rename_i before header found line _ body after closed ih
      rw [map_eq_ok] at cut
      rcases cut with ⟨⟨left, more⟩, cutMore, same⟩
      rw [Prod.mk.injEq] at same
      rw [← same.2, List.forall_mem_cons]
      exact ⟨isName_of_findHeader? found, ih cutMore⟩

theorem isNameChar_of_readClasses {line : Nat} {seen : List Text} {classes : List ClassBlock}
    (reads : readClasses line seen text = .ok classes) :
    ∀ block ∈ classes, ∀ c ∈ block.name, isNameChar c = true := by
  fun_induction readClasses line seen text generalizing classes with
  | case1 =>
      simp only [Except.ok.injEq] at reads
      simp [← reads]
  | case2 => simp at reads
  | case3 => simp at reads
  | case4 => simp at reads
  | case5 =>
      rename_i header found _ _ _ _ _ ih
      rw [map_eq_ok] at reads
      rcases reads with ⟨more, readsMore, rfl⟩
      rw [List.forall_mem_cons]
      exact ⟨isNameChar_of_isClassName (isClassName_of_readClassHeader? found), ih readsMore⟩

theorem isNameChar_final_of_parse (parsed : parse text = .ok source) {block : ClassBlock}
    (isClass : block ∈ source.classes) :
    ∀ c ∈ Naming.final source.scope block.name, isNameChar c = true := by
  rw [parse] at parsed
  split at parsed
  · simp [throw, throwThe, MonadExceptOf.throw, bind, Except.bind] at parsed
  · simp only [bind_eq_ok, Prod.exists, pure, Except.pure, Except.ok.injEq] at parsed
    rcases parsed with ⟨_, _, _, _, _, _, _, _, _, directives, taken, classes, reads, rfl⟩
    have areNames := isNameChar_of_readClasses reads block isClass
    have ofScope := Directive.isNameChar_of_mem_scope taken
    rw [Naming.final]
    split
    · exact areNames
    · simp only [List.forall_mem_append]
      exact ⟨⟨ofScope, by decide⟩, areNames⟩

end Source

end TerseStyle

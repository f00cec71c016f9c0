import Mathlib
import TerseStyle.File.Tree
import TerseStyle.Proofs.OrderedMap
import TerseStyle.Proofs.Outcome

/-!
# Writing into file trees

Writing a file goes through a temporary file, so there are trees between the one before and the one
after. All of them are the first tree with one more file in it. That file has a new name in a
directory that is there already. Therefore it changes nothing for other locations: they are the same
kinds of places (`kindAt_put`), a path leads where it led before (`locate_put`), and taking the file
away gives back the first tree (`delete_put`). Whichever step fails, the tree is then as it was, and
if none does, only the target is another (`writeAtomic_cases`).
-/

namespace TerseStyle

namespace Location

variable {location other third : Location} {name : Text}

theorem isAbove_iff : location.isAbove other = true ↔
    location.anchor = other.anchor ∧ location.names <+: other.names ∧
      location.names.length < other.names.length := by
  simp [isAbove, and_assoc]

theorem isAbove_trans (first : location.isAbove other = true)
    (second : other.isAbove third = true) :
    location.isAbove third = true := by
  rw [isAbove_iff] at first second ⊢
  exact ⟨first.1.trans second.1, first.2.1.trans second.2.1, first.2.2.trans second.2.2⟩

theorem isAbove_enter (above : location.isAbove (other.enter name) = true) :
    location = other ∨ location.isAbove other = true := by
  rw [isAbove_iff, enter] at above
  rcases above with ⟨sameAnchor, isPrefix, shorter⟩
  rcases List.prefix_concat_iff.mp isPrefix with same | isPrefix
  · simp [same] at shorter
  · rcases Nat.lt_or_ge location.names.length other.names.length with shorter | longer
    · exact Or.inr (isAbove_iff.mpr ⟨sameAnchor, isPrefix, shorter⟩)
    · have sameNames := isPrefix.eq_of_length_le longer
      cases location
      cases other
      simp_all

theorem mem_of_mem_leave (isName : name ∈ location.leave.names) : name ∈ location.names := by
  unfold leave at isName
  split at isName
  · exact List.mem_of_mem_dropLast isName
  · exact isName
  · exact List.mem_of_mem_dropLast isName

end Location

namespace FileSystem

variable {σ : Type} {files : FileSystem (StateM σ)} {before created filled : σ} {target : Path}
  {text : Text} {temporary : files.Temporary} {error : FileError}

theorem writeAtomic_of_refused
    (refused : (files.createTemporary target).run before = (.error error, created)) :
    (files.writeAtomic target text).run before = (.error error, created) := by
  rw [writeAtomic, StateT.run_bind, refused]
  rfl

theorem writeAtomic_of_failed
    (creates : (files.createTemporary target).run before = (.ok temporary, created))
    (fails : (files.fill temporary target text).run created = (.error error, filled)) :
    (files.writeAtomic target text).run before =
      (.error error, ((files.remove temporary).run filled).2) := by
  rw [writeAtomic, StateT.run_bind, creates]
  change StateT.run (_ >>= _) created = _
  rw [StateT.run_bind, fails]
  rfl

theorem writeAtomic_of_filled
    (creates : (files.createTemporary target).run before = (.ok temporary, created))
    (fills : (files.fill temporary target text).run created = (.ok (), filled)) :
    (files.writeAtomic target text).run before = (.ok (), filled) := by
  rw [writeAtomic, StateT.run_bind, creates]
  change StateT.run (_ >>= _) created = _
  rw [StateT.run_bind, fills]
  rfl

end FileSystem

namespace FileTree

variable {tree : FileTree} {location temporary directory : Location} {name : Text}

@[simp] theorem get?_put (tree : FileTree) (location other : Location) (contents : ByteArray) :
    (tree.put location contents).get? other =
      if other = location then some contents else tree.get? other :=
  OrderedMap.get?_insert location other contents tree.files

theorem mem_keys_put {contents : ByteArray} {other : Location} :
    other ∈ (tree.put location contents).files.keys ↔
      other ∈ tree.files.keys ∨ other = location := by
  rw [← OrderedMap.get?_isSome_iff, ← OrderedMap.get?_isSome_iff]
  change ((tree.put location contents).get? other).isSome = true ↔ _
  rw [get?_put]
  split
  · next same => simp [same]
  · next differs => simp [differs, get?]

theorem put_put (tree : FileTree) (location : Location) (first second : ByteArray) :
    (tree.put location first).put location second = tree.put location second :=
  congrArg FileTree.mk (OrderedMap.insert_insert location first second tree.files)

theorem delete_put (absent : tree.get? location = none) (contents : ByteArray) :
    (tree.put location contents).delete location = tree :=
  congrArg FileTree.mk (OrderedMap.erase_insert (OrderedMap.get?_eq_none_iff.mp absent) contents)

/-! ## One more file -/

theorem kindAt_eq_directory :
    tree.kindAt location = .ok .directory ↔
      tree.get? location = none ∧ tree.isDirectory location = true := by
  unfold kindAt
  split
  · next isFile => simp [Option.isSome_iff_ne_none.mp isFile]
  · next noFile =>
    rw [Option.not_isSome_iff_eq_none] at noFile
    split <;> simp_all

theorem isDirectory_of_isAbove {below : Location} (above : location.isAbove below = true)
    (isDirectory : tree.isDirectory below = true) : tree.isDirectory location = true := by
  simp only [FileTree.isDirectory, Bool.or_eq_true, List.any_eq_true] at isDirectory ⊢
  rcases isDirectory with isAnchor | ⟨key, isKey, onTheWay⟩
  · rw [Location.isAbove_iff, List.isEmpty_iff.mp isAnchor] at above
    simp at above
  · exact Or.inr ⟨key, isKey, Location.isAbove_trans above onTheWay⟩

/-- A location for one more file: in a directory that is there, under a name that no file has. -/
structure IsNew (tree : FileTree) (directory : Location) (name : Text) : Prop where
  isDirectory : tree.kindAt directory = .ok .directory
  unused : ∀ key ∈ tree.files.keys, name ∉ key.names

namespace IsNew

variable (isNew : tree.IsNew directory name)
include isNew

theorem notMem_of_isDirectory (isPlace : tree.isDirectory location = true) :
    name ∉ location.names := by
  simp only [FileTree.isDirectory, Bool.or_eq_true, List.any_eq_true] at isPlace
  rcases isPlace with isAnchor | ⟨key, isKey, above⟩
  · simp [List.isEmpty_iff.mp isAnchor]
  · intro isName
    exact isNew.unused key isKey ((Location.isAbove_iff.mp above).2.1.subset isName)

theorem get?_eq_none : tree.get? (directory.enter name) = none := by
  apply OrderedMap.get?_eq_none_iff.mpr
  intro isKey
  apply isNew.unused _ isKey
  simp [Location.enter]

theorem isDirectory_put (contents : ByteArray) (location : Location) :
    (tree.put (directory.enter name) contents).isDirectory location =
      tree.isDirectory location := by
  have present := (kindAt_eq_directory.mp isNew.isDirectory).2
  rw [Bool.eq_iff_iff]
  simp only [FileTree.isDirectory, Bool.or_eq_true, List.any_eq_true, mem_keys_put]
  constructor
  · rintro (isAnchor | ⟨key, isKey | rfl, above⟩)
    · exact Or.inl isAnchor
    · exact Or.inr ⟨key, isKey, above⟩
    · -- The directory of the new file was there, so what lies above it was there too.
      have isPlace : tree.isDirectory location = true := by
        rcases Location.isAbove_enter above with rfl | above
        · exact present
        · exact isDirectory_of_isAbove above present
      simpa only [FileTree.isDirectory, Bool.or_eq_true, List.any_eq_true] using isPlace
  · rintro (isAnchor | ⟨key, isKey, above⟩)
    · exact Or.inl isAnchor
    · exact Or.inr ⟨key, Or.inl isKey, above⟩

theorem kindAt_put (contents : ByteArray) (notMem : name ∉ location.names) :
    (tree.put (directory.enter name) contents).kindAt location = tree.kindAt location := by
  have differs : location ≠ directory.enter name := by
    rintro rfl
    simp [Location.enter] at notMem
  rw [kindAt, kindAt, get?_put, if_neg differs, isNew.isDirectory_put]

theorem walk_put (contents : ByteArray) {start : Location} {parts : List Text}
    (walks : tree.walk start parts = .ok location) :
    (tree.put (directory.enter name) contents).walk start parts = .ok location := by
  induction parts generalizing start with
  | nil => exact walks
  | cons part rest ih =>
      rcases bind_eq_ok.mp walks with ⟨kind, isKind, goesOn⟩
      cases kind with
      | file => simp at goesOn
      | directory =>
          have notMem := isNew.notMem_of_isDirectory (kindAt_eq_directory.mp isKind).2
          rw [walk, isNew.kindAt_put contents notMem, isKind]
          simp only at goesOn
          simp only [ok_bind]
          split_ifs at goesOn ⊢
          · exact ih goesOn
          · exact ih goesOn
          · exact ih goesOn

end IsNew

theorem walk_concat {start : Location} {parts : List Text} {part : Text}
    (walks : tree.walk start parts = .ok directory) :
    tree.walk start (parts ++ [part]) = tree.walk directory [part] := by
  induction parts generalizing start with
  | nil =>
      rw [walk, Except.ok.injEq] at walks
      rw [List.nil_append, walks]
  | cons first rest ih =>
      rcases bind_eq_ok.mp walks with ⟨kind, isKind, goesOn⟩
      rw [List.cons_append, walk, isKind]
      cases kind with
      | file => simp at goesOn
      | directory =>
          simp only at goesOn
          simp only [ok_bind]
          split_ifs at goesOn ⊢
          · exact ih goesOn
          · exact ih goesOn
          · exact ih goesOn

theorem walk_singleton (isDirectory : tree.kindAt directory = .ok .directory) (part : Text) :
    ∃ location, tree.walk directory [part] = .ok location ∧
      ∀ name ∈ location.names, name ∈ directory.names ∨ name = Text.fileName part := by
  rw [walk, isDirectory]
  by_cases isNothing : part.isEmpty = true ∨ part = "."
  · exact ⟨directory, if_pos isNothing, fun name isName => Or.inl isName⟩
  · by_cases isUp : part = ".."
    · refine ⟨directory.leave, (if_neg isNothing).trans (if_pos isUp), ?_⟩
      exact fun name isName => Or.inl (Location.mem_of_mem_leave isName)
    · refine ⟨directory.enter (Text.fileName part), (if_neg isNothing).trans (if_neg isUp), ?_⟩
      intro name isName
      simpa [Location.enter] using isName

theorem length_le_longestName {key : Location} (isKey : key ∈ tree.files.keys)
    (isName : name ∈ key.names) : name.length ≤ tree.longestName := by
  rw [longestName, List.foldl_eq_foldr]
  apply List.le_max_of_le _ le_rfl
  apply List.mem_map_of_mem
  exact List.mem_flatMap.mpr ⟨key, isKey, isName⟩

theorem length_freshName (tree : FileTree) (name : Text) :
    tree.longestName + name.length < (tree.freshName name).length := by
  simp only [freshName, List.length_append, List.length_replicate]
  omega

/-- A temporary file stands in the directory of its target. -/
theorem isNew_of_temporaryLocation {target : Path}
    (found : tree.temporaryLocation target = .ok temporary) :
    ∃ directory, tree.locate target.parent = .ok directory ∧
      temporary = directory.enter (tree.freshName (Text.fileName (target.name?.getD []))) ∧
      tree.IsNew directory (tree.freshName (Text.fileName (target.name?.getD []))) := by
  rcases bind_eq_ok.mp found with ⟨directory, located, found⟩
  rcases bind_eq_ok.mp found with ⟨kind, isKind, found⟩
  cases kind with
  | file => simp at found
  | directory =>
      simp only at found
      split at found
      · simp at found
      · refine ⟨directory, located, (Except.ok.inj found).symm, isKind, ?_⟩
        intro key isKey isName
        have short := length_le_longestName isKey isName
        have long := tree.length_freshName (Text.fileName (target.name?.getD []))
        omega

/-- One more file in the directory of a target, of another name, does not change where the target
stands. -/
theorem IsNew.locate_put {target : Path} (isNew : tree.IsNew directory name)
    (located : tree.locate target.parent = .ok directory)
    (differs : ∀ last ∈ target.name?, Text.fileName last ≠ name)
    (contents : ByteArray) :
    ∃ location, tree.locate target = .ok location ∧ name ∉ location.names ∧
      (tree.put (directory.enter name) contents).locate target = .ok location := by
  have notMem := isNew.notMem_of_isDirectory (kindAt_eq_directory.mp isNew.isDirectory).2
  rcases List.eq_nil_or_concat' target.parts with noParts | ⟨parts, part, isParts⟩
  · refine ⟨directory, ?_, notMem, ?_⟩
    all_goals
      rw [locate, Path.parent, noParts] at located
      rw [locate, noParts]
    · exact located
    · exact isNew.walk_put contents located
  · have isParent : target.parts.dropLast = parts := by rw [isParts, List.dropLast_concat]
    simp only [locate, Path.parent, isParent] at located
    rcases walk_singleton isNew.isDirectory part with ⟨location, walks, names⟩
    refine ⟨location, ?_, ?_, ?_⟩
    · rw [locate, isParts, walk_concat located, walks]
    · intro isName
      rcases names name isName with isAbove | rfl
      · exact notMem isAbove
      · refine differs part ?_ rfl
        rw [Path.name?, isParts, List.getLast?_concat]
        exact rfl
    · rw [locate, isParts, walk_concat (isNew.walk_put contents located), walk,
        isNew.kindAt_put contents notMem]
      exact walks

theorem IsNew.targetLocation_put {target : Path} (isNew : tree.IsNew directory name)
    (located : tree.locate target.parent = .ok directory)
    (differs : ∀ last ∈ target.name?, Text.fileName last ≠ name)
    (contents : ByteArray) :
    (tree.put (directory.enter name) contents).targetLocation target =
      tree.targetLocation target := by
  rcases isNew.locate_put located differs contents with ⟨location, before, notMem, after⟩
  have elsewhere : location ≠ directory.enter name := by
    rintro rfl
    simp [Location.enter] at notMem
  rw [targetLocation, targetLocation, before, after]
  change (if _ then _ else _) = (if _ then _ else _)
  rw [get?_put, if_neg elsewhere, isNew.isDirectory_put]

/-! ## Writing -/

theorem fileName_ne_freshName (tree : FileTree) (target : Path) :
    ∀ last ∈ target.name?, Text.fileName last ≠
      tree.freshName (Text.fileName (target.name?.getD [])) := by
  intro last isLast same
  rw [Option.mem_def.mp isLast, Option.getD_some] at same
  have long := tree.length_freshName (Text.fileName last)
  rw [← same] at long
  omega

section Writing

variable {faults : Faults} {target : Path} {text : Text}

theorem createTemporary_cases (tree : FileTree) (target : Path) :
    (∃ error, ((fileSystem faults).createTemporary target).run tree = (.error error, tree)) ∨
      ∃ temporary, tree.temporaryLocation target = .ok temporary ∧
        ((fileSystem faults).createTemporary target).run tree =
          (.ok temporary, tree.put temporary .empty) := by
  simp only [fileSystem, StateT.run_bind, StateT.run_get, pure_bind]
  split
  · next error _ => exact Or.inl ⟨error, rfl⟩
  · next error _ _ => exact Or.inl ⟨error, rfl⟩
  · next location _ found => exact Or.inr ⟨location, found, rfl⟩

theorem write_cases (tree : FileTree) (temporary : Location) (contents : ByteArray) :
    (∃ error remains, ((fileSystem faults).write temporary contents).run tree =
      (.error error, tree.put temporary remains)) ∨
    ((fileSystem faults).write temporary contents).run tree =
      (.ok (), tree.put temporary contents) := by
  simp only [fileSystem]
  split
  · next error remains _ => exact Or.inl ⟨error, remains, rfl⟩
  · exact Or.inr rfl

theorem replace_cases (isNew : tree.IsNew directory name)
    (located : tree.locate target.parent = .ok directory)
    (differs : ∀ last ∈ target.name?, Text.fileName last ≠ name)
    (contents : ByteArray) :
    (∃ error, ((fileSystem faults).replace (directory.enter name) target).run
        (tree.put (directory.enter name) contents) =
      (.error error, tree.put (directory.enter name) contents)) ∨
    ∃ destination, tree.targetLocation target = .ok destination ∧
      ((fileSystem faults).replace (directory.enter name) target).run
        (tree.put (directory.enter name) contents) = (.ok (), tree.put destination contents) := by
  simp only [fileSystem, StateT.run_bind, StateT.run_get, pure_bind]
  rw [isNew.targetLocation_put located differs contents, get?_put, if_pos rfl]
  split
  · next error _ => exact Or.inl ⟨error, rfl⟩
  · next error _ _ => exact Or.inl ⟨error, rfl⟩
  · next noContents => simp at noContents
  · next destination _ _ found isContents =>
    rw [Option.some.injEq] at isContents
    refine Or.inr ⟨destination, found, ?_⟩
    rw [← isContents, delete_put isNew.get?_eq_none]
    rfl

theorem fill_cases (isNew : tree.IsNew directory name)
    (located : tree.locate target.parent = .ok directory)
    (differs : ∀ last ∈ target.name?, Text.fileName last ≠ name)
    (text : Text) :
    (∃ error remains, ((fileSystem faults).fill (directory.enter name) target text).run
        (tree.put (directory.enter name) .empty) =
      (.error error, tree.put (directory.enter name) remains)) ∨
    ∃ contents destination, Text.encode? text = some contents ∧
      tree.targetLocation target = .ok destination ∧
      ((fileSystem faults).fill (directory.enter name) target text).run
        (tree.put (directory.enter name) .empty) = (.ok (), tree.put destination contents) := by
  unfold FileSystem.fill
  cases isContents : Text.encode? text with
  | none => exact Or.inl ⟨_, _, rfl⟩
  | some contents =>
      simp only [StateT.run_bind]
      rcases write_cases (tree.put (directory.enter name) .empty) (directory.enter name) contents
        with ⟨error, remains, fails⟩ | writes
      · rw [fails, put_put]
        exact Or.inl ⟨error, remains, rfl⟩
      · rw [writes, put_put]
        rcases replace_cases isNew located differs contents with ⟨error, fails⟩ |
          ⟨destination, found, replaces⟩
        · exact Or.inl ⟨error, contents, fails⟩
        · exact Or.inr ⟨contents, destination, rfl, found, replaces⟩

/-- A file is written as a whole or not at all, and no other file is changed. -/
theorem writeAtomic_cases (faults : Faults) (tree : FileTree) (target : Path) (text : Text) :
    (∃ error, ((fileSystem faults).writeAtomic target text).run tree = (.error error, tree)) ∨
      ∃ contents destination, Text.encode? text = some contents ∧
        tree.targetLocation target = .ok destination ∧
        ((fileSystem faults).writeAtomic target text).run tree =
          (.ok (), tree.put destination contents) := by
  rcases createTemporary_cases tree target with ⟨error, refused⟩ | ⟨temporary, found, creates⟩
  · exact Or.inl ⟨error, FileSystem.writeAtomic_of_refused refused⟩
  · rcases isNew_of_temporaryLocation found with ⟨directory, located, rfl, isNew⟩
    have differs := fileName_ne_freshName tree target
    rcases fill_cases isNew located differs text with ⟨error, remains, fails⟩ |
      ⟨contents, destination, isContents, isDestination, fills⟩
    · refine Or.inl ⟨error, ?_⟩
      rw [FileSystem.writeAtomic_of_failed creates fails]
      exact congrArg _ (delete_put isNew.get?_eq_none remains)
    · refine Or.inr ⟨contents, destination, isContents, isDestination, ?_⟩
      exact FileSystem.writeAtomic_of_filled creates fills

end Writing

end FileTree

end TerseStyle

import TerseStyle.Proofs.StatementBytes
import TerseStyle.Theme.File

/-!
# Theme files that have bytes

The text of a theme file has bytes, but its escapes may spell halves of pairs. If they spell none,
the theme has bytes: tables hold what the document holds, and a fragment is compiled from a text or
from a value that is written out.
-/

namespace TerseStyle

open Text (HasBytes)

theorem Text.hasBytes_replicate (count : Nat) (char : Char) :
    HasBytes (List.replicate count (CodePoint.char char)) :=
  fun _ isChar => ⟨char, List.eq_of_mem_replicate isChar⟩

theorem Text.hasBytes_quote {text : Text} (hasBytes : HasBytes text) : HasBytes (quote text) := by
  have ofNumber : ∀ width number, HasBytes (hexadecimal width number) := by
    intro width number
    simp [hexadecimal, hasBytes_replicate]
  have ofEscape : ∀ mark c : CodePoint, (∃ char : Char, c = .char char) →
      HasBytes (escape mark c) := by
    rintro mark c ⟨char, rfl⟩
    unfold escape
    split_ifs <;> simp [ofNumber]
  have ofEscapes : ∀ mark : CodePoint, HasBytes (text.flatMap (escape mark)) := by
    intro mark c isChar
    rcases List.mem_flatMap.mp isChar with ⟨d, inText, inEscape⟩
    exact ofEscape mark d (hasBytes d inText) c inEscape
  simp only [quote, Text.madeOf_append, Text.madeOf_cons, Text.madeOf_nil, and_true]
  have isMark : ∃ char : Char, (if CodePoint.char '\'' ∈ text ∧ CodePoint.char '"' ∉ text then
      CodePoint.char '"' else CodePoint.char '\'') = .char char := by
    split
    · exact ⟨'"', rfl⟩
    · exact ⟨'\'', rfl⟩
  exact ⟨⟨isMark, ofEscapes _⟩, isMark⟩

theorem Binary64.hasBytes_renderDecimal (digits : Nat) (power : Int) :
    HasBytes (renderDecimal digits power) := by
  have ofNumber : ∀ number, HasBytes (Text.ofNat number) := by simp
  have ofShown : HasBytes (trimZeros (Text.ofNat digits)) := by
    apply (ofNumber digits).of_subset
    intro c isChar
    exact List.mem_reverse.mp ((List.dropWhile_sublist _).mem (List.mem_reverse.mp isChar))
  have ofTake : ∀ {text : Text} count, HasBytes text → HasBytes (text.take count) :=
    fun count ofText => ofText.of_subset fun c isChar => List.mem_of_mem_take isChar
  have ofDrop : ∀ {text : Text} count, HasBytes text → HasBytes (text.drop count) :=
    fun count ofText => ofText.of_subset fun c isChar => List.mem_of_mem_drop isChar
  have ofPadded : ∀ count, HasBytes (trimZeros (Text.ofNat digits) ++
      List.replicate count (CodePoint.char '0')) :=
    fun count => Text.madeOf_append.mpr ⟨ofShown, Text.hasBytes_replicate _ _⟩
  unfold renderDecimal
  simp only
  split
  · simp only [Text.madeOf_append, ofNumber, Text.hasBytes_replicate, and_true]
    refine ⟨⟨ofTake _ ofShown, ?_⟩, ?_⟩
    · split
      · simp
      · exact Text.madeOf_cons.mpr ⟨⟨'.', rfl⟩, ofDrop _ ofShown⟩
    · split <;> simp
  · split
    · simp [Text.hasBytes_replicate, ofShown]
    · simp only [Text.madeOf_append, Text.hasBytes_ofString, and_true]
      refine ⟨ofTake _ (ofPadded _), ?_⟩
      split
      · simp
      · exact ofDrop _ (ofPadded _)

theorem JsonScalar.hasBytes_written {value : JsonScalar}
    (hasBytes : (JsonValue.scalar value).HasBytes) : HasBytes value.written := by
  cases value with
  | null => simp [written]
  | bool value => cases value <;> simp [written]
  | integer value =>
      simp only [written, Text.ofInt]
      split <;> simp
  | string text => exact Text.hasBytes_quote hasBytes
  | real value =>
      cases value with
      | notANumber => simp [written, Binary64.render]
      | infinite negative => cases negative <;> simp [written, Binary64.render]
      | finite negative significand power =>
          simp only [written, Binary64.render]
          split
          · cases negative <;> simp
          · cases negative <;> simp [Binary64.hasBytes_renderDecimal]

namespace JsonValue

mutual

theorem hasBytes_written : ∀ value : JsonValue, value.HasBytes → Text.HasBytes value.written
  | scalar value => fun hasBytes => JsonScalar.hasBytes_written hasBytes
  | array items => by
      intro hasBytes
      have ofItems := (Text.hasBytes_ofString ", ").joinWith (hasBytes_writtenItems items hasBytes)
      simp [written, ofItems]
  | object members => by
      intro hasBytes
      have ofMembers :=
        (Text.hasBytes_ofString ", ").joinWith (hasBytes_writtenMembers members hasBytes)
      simp [written, ofMembers]

theorem hasBytes_writtenItems : ∀ items : List JsonValue, ItemsHaveBytes items →
    ∀ text ∈ writtenItems items, Text.HasBytes text
  | [] => by simp [writtenItems]
  | item :: rest => by
      intro hasBytes
      rw [writtenItems, List.forall_mem_cons]
      exact ⟨hasBytes_written item hasBytes.1, hasBytes_writtenItems rest hasBytes.2⟩

theorem hasBytes_writtenMembers : ∀ members : List (Text × JsonValue), MembersHaveBytes members →
    ∀ text ∈ writtenMembers members, Text.HasBytes text
  | [] => by simp [writtenMembers]
  | (name, value) :: rest => by
      intro hasBytes
      have ofName := Text.hasBytes_quote hasBytes.1
      have ofValue := hasBytes_written value hasBytes.2.1
      rw [writtenMembers, List.forall_mem_cons]
      exact ⟨by simp [ofName, ofValue], hasBytes_writtenMembers rest hasBytes.2.2⟩

end

theorem hasBytes_toText {value : JsonValue} (hasBytes : value.HasBytes) :
    Text.HasBytes value.toText := by
  unfold toText
  split
  · exact hasBytes
  · exact hasBytes_written value hasBytes

end JsonValue

namespace Theme

/-- The values of the table have bytes. -/
def Table.HasBytes (table : Table) : Prop :=
  table.Every (fun _ => True) JsonValue.HasBytes

variable {table : Table} {name : Text} {value : JsonValue} {theme : Theme}

theorem Table.HasBytes.of_value? (hasBytes : table.HasBytes)
    (found : table.value? name = some value) : value.HasBytes :=
  hasBytes.of_get? (Option.filter_eq_some_iff.mp found).1

theorem Table.hasBytes_ofEntries {entries : List (JsonScalar × JsonValue)}
    (ofEntries : ∀ entry ∈ entries, entry.2.HasBytes) : (Table.ofEntries entries).HasBytes := by
  apply List.foldlRecOn _ _ OrderedMap.every_empty
  intro table ofTable entry isEntry other isOther
  rcases OrderedMap.mem_entries_insert isOther with isOld | rfl
  · exact ofTable other isOld
  · exact ⟨trivial, ofEntries entry isEntry⟩

variable {members : List (Text × JsonValue)}

theorem hasBytes_of_entryOf {item : JsonValue} (hasBytes : item.HasBytes)
    {entry : JsonScalar × JsonValue} (isEntry : entryOf item = .ok entry) : entry.2.HasBytes := by
  unfold entryOf at isEntry
  split at isEntry
  · rcases bind_eq_ok.mp isEntry with ⟨key, _, same⟩
    cases same
    exact hasBytes.2.1
  · cases isEntry
    exact (Text.madeOf_cons.mp hasBytes).2
  · cases isEntry
    exact hasBytes.2.2.1
  all_goals simp at isEntry

theorem hasBytes_of_tableOf (hasBytes : value.HasBytes) (isTable : tableOf value = .ok table) :
    table.HasBytes := by
  unfold tableOf at isTable
  split at isTable
  · cases isTable
    apply Table.hasBytes_ofEntries
    intro entry isEntry
    rcases List.mem_map.mp isEntry with ⟨member, isMember, rfl⟩
    exact (JsonValue.membersHaveBytes_iff.mp hasBytes member isMember).2
  · rcases bind_eq_ok.mp isTable with ⟨entries, read, same⟩
    cases same
    apply Table.hasBytes_ofEntries
    intro entry isEntry
    rcases exists_of_mem_mapM read isEntry with ⟨item, isItem, isEntryOf⟩
    exact hasBytes_of_entryOf (JsonValue.itemsHaveBytes_iff.mp hasBytes item isItem) isEntryOf
  all_goals simp at isTable

theorem hasBytes_of_present? (hasBytes : JsonValue.MembersHaveBytes members)
    (found : present? members name = some value) : value.HasBytes := by
  have isMember := Vocabulary.mem_of_lookup (Option.filter_eq_some_iff.mp found).1
  exact (JsonValue.membersHaveBytes_iff.mp hasBytes _ isMember).2

theorem hasBytes_of_tableAt (hasBytes : JsonValue.MembersHaveBytes members)
    (isTable : tableAt members name = .ok table) : table.HasBytes := by
  unfold tableAt at isTable
  split at isTable
  · cases isTable
    exact OrderedMap.every_empty
  · next found => exact hasBytes_of_tableOf (hasBytes_of_present? hasBytes found) isTable

theorem hasBytes_of_finalKeyframes {items : List JsonValue}
    (hasBytes : JsonValue.ItemsHaveBytes items) (isTable : finalKeyframes items = .ok table) :
    table.HasBytes := by
  rcases bind_eq_ok.mp isTable with ⟨names, read, same⟩
  cases same
  apply Table.hasBytes_ofEntries
  intro entry isEntry
  rcases List.mem_map.mp isEntry with ⟨name, isName, rfl⟩
  rcases exists_of_mem_mapM read isName with ⟨item, isItem, isKey⟩
  have ofItem := JsonValue.itemsHaveBytes_iff.mp hasBytes item isItem
  cases item with
  | scalar key =>
      cases isKey
      exact ofItem
  | array items => simp [entryKey] at isKey
  | object members => simp [entryKey] at isKey

theorem yields_compileText (ofTheme : theme.HasBytes) {text : Text} (ofText : Text.HasBytes text) :
    Yields Style.HasBytes (Fragment.compileText theme text) := by
  have environmentHasBytes : ({ context := .theme, theme } : Environment).HasBytes :=
    ⟨ofTheme, OrderedMap.every_empty⟩
  exact (Style.yields_dispatchBody environmentHasBytes ofText Style.hasBytes_empty).toExcept

theorem hasBytes_of_groupOf (ofTheme : theme.HasBytes) (ofValue : value.HasBytes)
    {group : OrderedMap Text Style} (isGroup : groupOf theme name value = .ok group)
    {variant : Text} {fragment : Style} (isFragment : group.get? variant = some fragment) :
    fragment.HasBytes := by
  unfold groupOf at isGroup
  split at isGroup
  · next members =>
    unfold compileGroup at isGroup
    split at isGroup
    · simp [throw, throwThe, MonadExceptOf.throw, bind, Except.bind] at isGroup
    · rcases bind_eq_ok.mp isGroup with ⟨compiled, compiles, same⟩
      cases same
      have isEntry := OrderedMap.mem_entries_ofList (OrderedMap.get?_eq_some_iff.mp isFragment)
      rcases exists_of_mem_mapM compiles isEntry with ⟨written, isWritten, compilesOne⟩
      rcases List.mem_map.mp isWritten with ⟨member, isMember, rfl⟩
      rcases bind_eq_ok.mp compilesOne with ⟨style, compilesText, same⟩
      cases same
      have ofMember := (JsonValue.membersHaveBytes_iff.mp ofValue member isMember).2
      exact (yields_compileText ofTheme (JsonValue.hasBytes_toText ofMember)).of_ok compilesText
  · split at isGroup <;> simp at isGroup

theorem hasBytes_of_tablesOf (hasBytes : JsonValue.MembersHaveBytes members)
    (isTheme : tablesOf members = .ok theme) : theme.HasBytes := by
  simp only [tablesOf, bind_eq_ok] at isTheme
  rcases isTheme with ⟨listed?, isListed, breakpoints, areBreakpoints, typography, isTypography,
    keyframes, areKeyframes, same⟩
  cases same
  have ofKeyframes : keyframes.HasBytes := by
    cases listed? with
    | none => exact hasBytes_of_tableAt hasBytes areKeyframes
    | some listed =>
        cases areKeyframes
        unfold listedKeyframes? at isListed
        split at isListed
        · next items found =>
          rcases map_eq_ok.mp isListed with ⟨table, isTable, same⟩
          cases same
          exact hasBytes_of_finalKeyframes (hasBytes_of_present? hasBytes found) isTable
        · simp at isListed
  exact ⟨(hasBytes_of_tableAt hasBytes areBreakpoints).of_value?,
    (hasBytes_of_tableAt hasBytes isTypography).of_value?, ofKeyframes.of_value?,
    fun isFragment => by simp [fragment?] at isFragment⟩

/-- The theme of a document whose texts have bytes has bytes. -/
theorem hasBytes_of_ofMembers (hasBytes : JsonValue.MembersHaveBytes members)
    (isTheme : ofMembers members = .ok theme) : theme.HasBytes := by
  simp only [ofMembers, bind_eq_ok] at isTheme
  rcases isTheme with ⟨tables, areTables, groups, areGroups, same⟩
  cases same
  have ofTables := hasBytes_of_tablesOf hasBytes areTables
  refine ⟨ofTables.breakpoints, ofTables.typography, ofTables.keyframes, ?_⟩
  intro group variant fragment isFragment
  rcases Option.bind_eq_some_iff.mp isFragment with ⟨compiled, isGroup, isVariant⟩
  have isEntry := OrderedMap.mem_entries_ofList (OrderedMap.get?_eq_some_iff.mp isGroup)
  unfold groupsOf at areGroups
  split at areGroups
  · cases areGroups
    simp at isEntry
  · next written found =>
    rcases exists_of_mem_mapM areGroups isEntry with ⟨member, isMember, compiles⟩
    rcases map_eq_ok.mp compiles with ⟨styles, isGroupOf, same⟩
    cases same
    have ofGroups := hasBytes_of_present? hasBytes found
    have ofMember := (JsonValue.membersHaveBytes_iff.mp ofGroups member isMember).2
    exact hasBytes_of_groupOf ofTables ofMember isGroupOf isVariant
  · simp at areGroups

theorem hasBytes_of_ofFile {path text : Text}
    (hasBytes : ∀ document, Json.read text = .ok document → document.HasBytes)
    (isTheme : ofFile path text = .ok theme) : theme.HasBytes := by
  unfold ofFile at isTheme
  split at isTheme
  case h_4 members isObject => exact hasBytes_of_ofMembers (hasBytes _ isObject) isTheme
  all_goals simp at isTheme

end Theme

end TerseStyle

import TerseStyle.Proofs.Bytes
import TerseStyle.Proofs.Vocabulary
import TerseStyle.Query.Body

/-!
# Statements that have bytes

If the texts of a theme have bytes, then everything that statements contribute has bytes, and so has
the message of the error that ends them. The proofs follow the reading of statements function by
function. A theme may still hold halves of pairs in entries that nothing refers to: only what can be
looked up counts.
-/

namespace TerseStyle

open Text (HasBytes)

attribute [local simp] Reports Error.MadeOf Cause.describe

variable {ω σ α β : Type} {Good : α → Prop} {Other : β → Prop}

/-! ## Drafts -/

/-- A property of contributions that sums of them have too. -/
class Accumulates [EmptyCollection ω] [Append ω] (Kept : ω → Prop) : Prop where
  empty : Kept ∅
  append : ∀ {left right}, Kept left → Kept right → Kept (left ++ right)

instance Style.accumulates_hasBytes : Accumulates Style.HasBytes :=
  ⟨Style.hasBytes_empty, Style.HasBytes.append⟩

instance Body.accumulates_hasBytes : Accumulates Body.HasBytes :=
  ⟨Body.hasBytes_empty, Body.HasBytes.append⟩

/-- What was written has a property, and so has the outcome. -/
structure Draft.Yields (Kept : ω → Prop) (Good : α → Prop) (draft : Draft ω α) : Prop where
  written : Kept draft.written
  result : TerseStyle.Yields Good draft.result

namespace Draft.Yields

variable {Kept : ω → Prop}

theorem write {contribution : ω} (kept : Kept contribution) :
    (write contribution).Yields Kept fun _ => True :=
  ⟨kept, trivial⟩

variable [EmptyCollection ω] [Append ω] [Accumulates Kept]

theorem done {a : α} (good : Good a) : (done a : Draft ω α).Yields Kept Good :=
  ⟨Accumulates.empty, good⟩

theorem fail {error : Error} (hasBytes : error.HasBytes) :
    (fail error : Draft ω α).Yields Kept Good :=
  ⟨Accumulates.empty, hasBytes⟩

theorem lift {outcome : Except Error α} (yields : TerseStyle.Yields Good outcome) :
    (lift outcome : Draft ω α).Yields Kept Good := by
  cases outcome with
  | error error => exact fail yields
  | ok a => exact done yields

theorem andThen {first : Draft ω α} {next : α → Draft ω β}
    (ofFirst : first.Yields Kept Good) (ofNext : ∀ a, Good a → (next a).Yields Kept Other) :
    (first.andThen next).Yields Kept Other := by
  unfold Draft.andThen
  split
  · next failed => exact ⟨ofFirst.written, ofFirst.result.of_error failed⟩
  · next a succeeded =>
    have yields := ofNext a (ofFirst.result.of_ok succeeded)
    exact ⟨Accumulates.append ofFirst.written yields.written, yields.result⟩

theorem forEach {item : α → Draft ω Unit} {items : List α}
    (ofEach : ∀ a ∈ items, (item a).Yields Kept fun _ => True) :
    (forEach item items).Yields Kept fun _ => True := by
  induction items with
  | nil => exact done trivial
  | cons a rest ih =>
      rw [List.forall_mem_cons] at ofEach
      exact andThen ofEach.1 fun _ _ => ih ofEach.2

end Draft.Yields

/-! ## Themes -/

mutual

/-- Every text of the value has bytes. -/
def JsonValue.HasBytes : JsonValue → Prop
  | .scalar (.string text) => Text.HasBytes text
  | .scalar _ => True
  | .array items => JsonValue.ItemsHaveBytes items
  | .object members => JsonValue.MembersHaveBytes members

/-- Every text of the items has bytes. -/
def JsonValue.ItemsHaveBytes : List JsonValue → Prop
  | [] => True
  | item :: rest => item.HasBytes ∧ JsonValue.ItemsHaveBytes rest

/-- Every name and every text of the members has bytes. -/
def JsonValue.MembersHaveBytes : List (Text × JsonValue) → Prop
  | [] => True
  | (name, value) :: rest =>
    Text.HasBytes name ∧ value.HasBytes ∧ JsonValue.MembersHaveBytes rest

end

/-- Every text of the theme has bytes. -/
structure Theme.HasBytes (theme : Theme) : Prop where
  breakpoints : ∀ {name value}, theme.breakpoints.value? name = some value → value.HasBytes
  typography : ∀ {name value}, theme.typography.value? name = some value → value.HasBytes
  keyframes : ∀ {name value}, theme.keyframes.value? name = some value → value.HasBytes
  defines : ∀ {group variant fragment}, theme.fragment? group variant = some fragment →
    fragment.HasBytes

/-- The theme and the final names of the keyframes have bytes. -/
structure Environment.HasBytes (environment : Environment) : Prop where
  theme : environment.theme.HasBytes
  keyframes : Properties.HasBytes environment.keyframes

theorem JsonValue.itemsHaveBytes_iff {items : List JsonValue} :
    ItemsHaveBytes items ↔ ∀ item ∈ items, item.HasBytes := by
  induction items with
  | nil => simp [ItemsHaveBytes]
  | cons item rest ih => simp [ItemsHaveBytes, ih]

theorem JsonValue.membersHaveBytes_iff {members : List (Text × JsonValue)} :
    MembersHaveBytes members ↔
      ∀ member ∈ members, Text.HasBytes member.1 ∧ member.2.HasBytes := by
  induction members with
  | nil => simp [MembersHaveBytes]
  | cons member rest ih =>
      rw [MembersHaveBytes, ih, List.forall_mem_cons, and_assoc]

namespace Preset

theorem hasBytes_of_partStatements {groups : List Group} {read : List Text}
    {parts : List JsonValue} (ofRead : ∀ part ∈ read, HasBytes part)
    (ofParts : ∀ part ∈ parts, part.HasBytes) {found : List Text}
    (reads : partStatements groups read parts = .ok found) :
    ∀ statement ∈ found, HasBytes statement := by
  have ofFlatten : ∀ {read : List Text}, (∀ part ∈ read, HasBytes part) →
      HasBytes read.reverse.flatten := by
    intro read ofRead c isChar
    rcases List.mem_flatten.mp isChar with ⟨part, isPart, inPart⟩
    exact ofRead part (List.mem_reverse.mp isPart) c inPart
  fun_induction partStatements groups read parts generalizing found with
  | case1 => simp at reads
  | case2 groups read _ =>
      rw [Except.ok.injEq] at reads
      rw [← reads]
      split
      · simp
      · simpa using ofFlatten ofRead
  | case3 => simp at reads
  | case4 groups read part rest after _ _ _ ih =>
      rw [List.forall_mem_cons] at ofParts
      exact ih (by simp) ofParts.2 reads
  | case5 groups read part rest after _ _ _ ih =>
      rw [List.forall_mem_cons] at ofParts
      rcases map_eq_ok.mp reads with ⟨more, readsMore, rfl⟩
      rw [List.forall_mem_cons]
      exact ⟨ofFlatten ofRead, ih (by simp) ofParts.2 readsMore⟩
  | case6 groups read part rest after _ _ ih =>
      rw [List.forall_mem_cons] at ofParts
      apply ih _ ofParts.2 reads
      rw [List.forall_mem_cons]
      refine ⟨?_, ofRead⟩
      split
      · simp
      · exact ofParts.1
  | case7 => simp at reads

theorem yields_statements {preset : JsonValue} (hasBytes : preset.HasBytes) :
    Yields (fun found => ∀ statement ∈ found, HasBytes statement) (statements preset) := by
  have defective : ∀ defect, ({ cause := .defectiveTheme defect } : Error).HasBytes := by
    simp
  unfold statements
  split
  · exact TerseStyle.reports_statements (by simp) hasBytes
  · exact defective _
  · next parts =>
    cases reads : partStatements [] [] parts with
    | error defect => exact defective defect
    | ok found =>
        exact hasBytes_of_partStatements (by simp) (JsonValue.itemsHaveBytes_iff.mp hasBytes) reads
  · exact Reports.ok (by simp)
  · exact defective _

end Preset

/-! ## Declarations -/

/-- What is declared at the place has a property as long as it has bytes. -/
structure Target.Keeps [EmptyCollection ω] [Append ω] (Kept : ω → Prop) (target : Target ω) :
    Prop where
  label : HasBytes target.label
  block : HasBytes target.block
  contribute : ∀ {body : Body}, body.HasBytes → Kept (target.contribute body)
  define : ∀ {fragment : Style} (important : Bool), fragment.HasBytes →
    Kept (target.define fragment important)
  declare : ∀ {locals name value}, target.locals? = some locals → HasBytes name →
    HasBytes value → Kept (locals.declare name value)

theorem Style.HasBytes.importantBase {fragment : Style} (hasBytes : fragment.HasBytes)
    (important : Bool) : Properties.HasBytes (fragment.importantBase important) :=
  hasBytes.base.map fun _ => Value.hasBytes_withImportance important

theorem Target.keeps_topLevel (isDeclared : Text → Bool) :
    (Target.topLevel isDeclared).Keeps Style.HasBytes where
  label := by simp [topLevel]
  block := by simp [topLevel]
  contribute := Body.HasBytes.ofBody
  define := by
    intro fragment important hasBytes
    have marked : ({ base := fragment.importantBase true } : Style).HasBytes :=
      { Style.hasBytes_empty with base := hasBytes.importantBase true }
    simp only [topLevel]
    split
    · exact hasBytes.shared.append marked
    · exact hasBytes.shared
  declare := by
    rintro locals name value ⟨⟩ ofName ofValue
    exact { Style.hasBytes_empty with
      localVariables := OrderedMap.every_single.mpr ⟨ofName, ofValue⟩ }

theorem Target.keeps_insideBlock {label name : Text} (ofLabel : HasBytes label)
    (ofName : HasBytes name) (isElement takesRuntime : Bool) :
    (Target.insideBlock label name isElement takesRuntime).Keeps Body.HasBytes where
  label := ofLabel
  block := ofName
  contribute := id
  define := fun important hasBytes =>
    { Body.hasBytes_empty with properties := hasBytes.importantBase important }
  declare := by
    rintro locals name value ⟨⟩

theorem Vocabulary.hasBytes_of_isWord {word : Text} (isOne : isWord word = true) :
    HasBytes word := by
  intro c isChar
  simp only [isWord, Bool.and_eq_true, List.all_eq_true, Bool.or_eq_true, Nat.beq_eq,
    Nat.ble_eq] at isOne
  have isSmall : c.toNat ≤ 122 := by
    rcases isOne.2 c isChar with isHyphen | ⟨_, toZ⟩
    · omega
    · exact toZ
  cases c with
  | char char => exact ⟨char, rfl⟩
  | half index =>
      simp only [CodePoint.toNat, CodePoint.firstHalf] at isSmall
      omega

theorem Abbreviation.hasBytes_of_expand? {name : Text} {properties : List Text}
    (expands : expand? name = some properties) : ∀ property ∈ properties, HasBytes property :=
  fun property isProperty => Vocabulary.hasBytes_of_isWord
    ((isWord_of_mem_table _ (mem_table_of_expand? expands)).2 property isProperty)

theorem Body.hasBytes_ofProperties {names : List Text} {value : Text}
    (ofNames : ∀ name ∈ names, Text.HasBytes name) (ofValue : Text.HasBytes value) :
    (Body.ofProperties names value).HasBytes := by
  refine { Body.hasBytes_empty with properties := OrderedMap.every_ofList ?_ }
  intro entry isEntry
  rcases List.mem_map.mp isEntry with ⟨name, isName, rfl⟩
  exact ⟨ofNames name isName, ofValue⟩

namespace Environment

variable [EmptyCollection ω] [Append ω] {Kept : ω → Prop} [Accumulates Kept]
  {environment : Environment}
  {target : Target ω} {statement : Text} {declaration : Declaration}

theorem yields_resolveValue (keeps : target.Keeps Kept) (ofStatement : Text.HasBytes statement)
    {value : Text} (ofValue : Text.HasBytes value) :
    (environment.resolveValue target statement value).Yields Kept Text.HasBytes := by
  have wrapped := Value.madeOf_wrapVariables (by simp) ofValue
  unfold resolveValue
  split
  · exact .fail (by simp [ofStatement])
  · simp only
    split
    · exact .done wrapped
    · split
      · exact .fail (by simp [ofStatement])
      · have used : ({ usedLocals := .ofList (Value.localNames (Value.wrapVariables value)) } :
            Body).HasBytes := by
          refine { Body.hasBytes_empty with usedLocals := OrderedMap.every_ofList ?_ }
          intro entry isEntry
          rcases List.mem_map.mp isEntry with ⟨name, isName, rfl⟩
          exact ⟨Value.hasBytes_localNames wrapped name isName, trivial⟩
        exact (Draft.Yields.write (keeps.contribute used)).andThen fun _ _ =>
          .done (Value.hasBytes_referLocals wrapped)

omit [EmptyCollection ω] [Append ω] in
theorem yields_renameKeyframe (hasBytes : environment.HasBytes) {value : Text}
    (ofValue : Text.HasBytes value) : Yields Text.HasBytes (environment.renameKeyframe value) := by
  unfold renameKeyframe
  split
  · exact ofValue
  · next first rest isWords =>
    split
    · exact ofValue.trim
    · next renamed isKeyframe =>
      have ofRenamed : Text.HasBytes renamed := by
        rcases Option.or_eq_some_iff.mp isKeyframe with isOwn | ⟨_, isOfTheme⟩
        · rcases Option.map_eq_some_iff.mp isOwn with ⟨final, found, same⟩
          cases same
          exact hasBytes.keyframes.of_get? found
        · exact hasBytes.theme.keyframes isOfTheme
      refine Text.MadeOf.joinWith (by simp) ?_
      rw [List.forall_mem_cons]
      refine ⟨ofRenamed, fun word isWord => ofValue.of_mem_words ?_⟩
      rw [isWords]
      exact List.mem_cons_of_mem _ isWord
    · simp

theorem yields_setProperties (hasBytes : environment.HasBytes) (keeps : target.Keeps Kept)
    (ofStatement : Text.HasBytes statement) (ofValue : Text.HasBytes declaration.value)
    {properties : List Text} (ofNames : ∀ name ∈ properties, Text.HasBytes name) :
    (environment.setProperties target statement declaration properties).Yields Kept
      fun _ => True := by
  unfold setProperties
  have renamed : Yields Text.HasBytes (if declaration.name = "am" ∨ declaration.name = "am-n" then
      environment.renameKeyframe declaration.value else .ok declaration.value) := by
    split
    · exact yields_renameKeyframe hasBytes ofValue
    · exact ofValue
  apply (Draft.Yields.lift renamed).andThen
  intro value ofRenamed
  apply (yields_resolveValue keeps ofStatement ofRenamed).andThen
  intro value ofResolved
  apply Draft.Yields.write
  apply keeps.contribute
  apply Body.hasBytes_ofProperties ofNames
  apply Value.hasBytes_withImportance
  split
  · exact Value.hasBytes_quoted ofResolved
  · exact ofResolved

section

variable (hasBytes : environment.HasBytes) (keeps : target.Keeps Kept)
  (ofStatement : Text.HasBytes statement) (ofName : Text.HasBytes declaration.name)
  (ofValue : Text.HasBytes declaration.value)

include keeps ofStatement ofName ofValue

theorem yields_custom :
    (environment.custom target statement declaration).Yields Kept fun _ => True := by
  apply (yields_resolveValue keeps ofStatement ofValue).andThen
  intro value ofResolved
  apply Draft.Yields.write
  apply keeps.contribute
  apply Body.hasBytes_ofProperties
  · simpa using ofName
  · exact Value.hasBytes_withImportance _ ofResolved

theorem yields_declareLocal :
    (environment.declareLocal target statement declaration).Yields Kept fun _ => True := by
  unfold declareLocal
  split
  · exact .fail (by simp [ofStatement])
  · split
    · exact .fail (by simp [keeps.label, ofStatement])
    · next locals takesLocals =>
      split
      · exact .fail (by simp [ofStatement])
      · split
        · exact .fail (by simp [ofName])
        · split
          · exact .fail (by simp [ofName])
          · apply (yields_resolveValue keeps ofStatement ofValue).andThen
            intro value ofResolved
            exact .write (keeps.declare takesLocals ofName ofResolved)

theorem yields_declareRuntime :
    (environment.declareRuntime target statement declaration).Yields Kept fun _ => True := by
  unfold declareRuntime
  simp only
  split
  · exact .fail (by simp [ofName, ofStatement])
  · split
    · exact .fail (by simp [ofName, keeps.label, ofStatement])
    · split
      · exact .fail (by simp [ofStatement])
      · split
        · exact .fail (by simp [ofStatement])
        · split
          · exact .fail (by simp [ofName, ofStatement])
          · next properties expands =>
            apply (yields_resolveValue keeps ofStatement ofValue).andThen
            intro value ofResolved
            have ofReference : (Reference.runtime declaration.name target.block).HasBytes :=
              ⟨ofName, keeps.block⟩
            have ofProperties := Body.hasBytes_ofProperties
              (Abbreviation.hasBytes_of_expand? expands)
              (Value.hasBytes_withImportance declaration.important
                (Reference.hasBytes_render_iff.mpr ofReference))
            exact .write (keeps.contribute { ofProperties with
              defaults := OrderedMap.every_single.mpr ⟨ofName, ofResolved⟩ })

include hasBytes

theorem yields_useFragment :
    (environment.useFragment target statement declaration).Yields Kept fun _ => True := by
  unfold useFragment
  split
  · next variant isVariant =>
    split
    · have ofVariant : Text.HasBytes variant := ofValue.of_mem_words (by simp [isVariant])
      exact .fail (by simp [ofName, ofVariant])
    · next isFragment => exact .write (keeps.define _ (hasBytes.theme.defines isFragment))
  · exact .fail (by simp [ofName, ofStatement])

theorem yields_basic :
    (environment.basic target statement declaration).Yields Kept fun _ => True := by
  unfold basic
  split
  · exact yields_custom keeps ofStatement ofName ofValue
  · split
    · next expands =>
      exact yields_setProperties hasBytes keeps ofStatement ofValue
        (Abbreviation.hasBytes_of_expand? expands)
    · split
      · exact yields_useFragment hasBytes keeps ofStatement ofName ofValue
      · exact .fail (by simp [ofName, ofStatement])

end

theorem yields_presetToken (hasBytes : environment.HasBytes) (keeps : target.Keeps Kept)
    {key token : Text} (ofKey : Text.HasBytes key) (ofToken : Text.HasBytes token)
    (important : Bool) :
    (environment.presetToken target key important token).Yields Kept fun _ => True := by
  apply (Draft.Yields.lift (Declaration.yields_parse ofToken)).andThen
  intro declaration ofDeclaration
  split
  · exact .fail (by simp [ofKey, ofToken])
  · simp only
    split
    · exact .fail (by simp [ofToken])
    · exact yields_basic hasBytes keeps ofToken ofDeclaration.1 ofDeclaration.2

theorem yields_usePreset (hasBytes : environment.HasBytes) (keeps : target.Keeps Kept)
    (ofStatement : Text.HasBytes statement) (ofValue : Text.HasBytes declaration.value) :
    (environment.usePreset target statement declaration).Yields Kept fun _ => True := by
  unfold usePreset
  simp only
  split
  · exact .fail (by simp [ofValue.trim, ofStatement])
  · next preset isPreset =>
    have ofPreset := Preset.yields_statements (hasBytes.theme.typography isPreset)
    apply (Draft.Yields.lift ofPreset).andThen
    intro tokens ofTokens
    exact .forEach fun token isToken =>
      yields_presetToken hasBytes keeps ofValue.trim (ofTokens token isToken) _

theorem yields_declare (hasBytes : environment.HasBytes) (keeps : target.Keeps Kept)
    (ofStatement : Text.HasBytes statement) (ofName : Text.HasBytes declaration.name)
    (ofValue : Text.HasBytes declaration.value) :
    (environment.declare target statement declaration).Yields Kept fun _ => True := by
  unfold declare
  split
  · exact .fail (by simp [ofStatement])
  · split
    · exact yields_declareLocal keeps ofStatement ofName ofValue
    · exact yields_declareRuntime keeps ofStatement ofName ofValue
    · exact yields_basic hasBytes keeps ofStatement ofName ofValue
    · split
      · exact yields_usePreset hasBytes keeps ofStatement ofValue
      · exact yields_basic hasBytes keeps ofStatement ofName ofValue

end Environment

/-! ## Blocks -/

theorem hasBytes_of_blockParts? {statement head inside : Text} (hasBytes : HasBytes statement)
    (isBlock : blockParts? statement = some (head, inside)) :
    HasBytes head ∧ HasBytes inside := by
  unfold blockParts? at isBlock
  split at isBlock
  · simp at isBlock
  · split at isBlock
    · next first more rest splits =>
      simp only [Option.some.injEq, Prod.mk.injEq] at isBlock
      rw [Text.splitAtChar?_eq_some splits] at hasBytes
      simp only [Text.madeOf_append] at hasBytes
      rw [← isBlock.1, ← isBlock.2]
      refine ⟨hasBytes.1, (Text.madeOf_cons.mp hasBytes.2).2.of_subset ?_⟩
      exact fun c isChar => List.mem_of_mem_dropLast isChar
    · simp at isBlock

/-- The names and the selector of the block have bytes. -/
def Slot.HasBytes : Slot → Prop
  | state name | element name => Text.HasBytes name
  | pluginState name selector => Text.HasBytes name ∧ Text.HasBytes selector
  | pluginContainer name containerClass => Text.HasBytes name ∧ Text.HasBytes containerClass

theorem Vocabulary.hasBytes_of_pluginStateSelector? {name selector : Text}
    (found : pluginStateSelector? name = some selector) : HasBytes selector := by
  have ofTable : ∀ plugin ∈ pluginStates, ∀ state ∈ plugin.2, HasBytes state.2 := by
    simp only [pluginStates, List.forall_mem_cons, Text.hasBytes_ofString, List.not_mem_nil,
      IsEmpty.forall_iff, implies_true, and_self]
  rcases exists_of_pluginStateSelector? found with ⟨_, _, _, isPlugin, isState, _⟩
  exact ofTable _ isPlugin _ isState

theorem Slot.hasBytes_of_ofHead? {head : Text} (ofHead : Text.HasBytes head) {slot : Slot}
    (isSlot : ofHead? head = some slot) : slot.HasBytes := by
  unfold ofHead? at isSlot
  split at isSlot
  · cases isSlot
    exact ofHead
  · split at isSlot
    · cases isSlot
      exact ofHead
    · split at isSlot
      · next selector found =>
        cases isSlot
        exact ⟨ofHead, Vocabulary.hasBytes_of_pluginStateSelector? found⟩
      · have ofTable : ∀ container ∈ Vocabulary.pluginContainers, Text.HasBytes container.2 := by
          simp [Vocabulary.pluginContainers]
        rcases Option.map_eq_some_iff.mp isSlot with ⟨containerClass, found, rfl⟩
        exact ⟨ofHead, ofTable _ (Vocabulary.mem_of_lookup found)⟩

theorem Slot.keeps_target {slot : Slot} (hasBytes : slot.HasBytes) :
    slot.target.Keeps Body.HasBytes := by
  cases slot with
  | state name => exact Target.keeps_insideBlock hasBytes hasBytes _ _
  | element name => exact Target.keeps_insideBlock hasBytes hasBytes _ _
  | pluginState name selector => exact Target.keeps_insideBlock hasBytes.1 hasBytes.1 _ _
  | pluginContainer name containerClass =>
      exact Target.keeps_insideBlock hasBytes.1 hasBytes.2 _ _

theorem Slot.hasBytes_place {slot : Slot} (hasBytes : slot.HasBytes) {body : Body}
    (ofBody : body.HasBytes) : (slot.place body).HasBytes := by
  have ofBlock : ∀ {name : Text} {properties : Properties}, Text.HasBytes name →
      properties.HasBytes → Blocks.HasBytes (.single name properties) :=
    fun ofName ofProperties => OrderedMap.every_single.mpr ⟨ofName, ofProperties⟩
  cases slot with
  | state name =>
      exact { Style.hasBytes_empty with
        states := ofBlock hasBytes ofBody.properties
        usedLocals := ofBody.usedLocals
        pending := { Pending.hasBytes_empty with states := ofBlock hasBytes ofBody.defaults } }
  | element name =>
      exact { Style.hasBytes_empty with
        elements := ofBlock hasBytes ofBody.properties
        usedLocals := ofBody.usedLocals
        pending := { Pending.hasBytes_empty with elements := ofBlock hasBytes ofBody.defaults } }
  | pluginState name selector =>
      exact { Style.hasBytes_empty with
        pluginStates := OrderedMap.every_single.mpr ⟨trivial, hasBytes.2, ofBody.properties⟩
        usedLocals := ofBody.usedLocals
        pending := { Pending.hasBytes_empty with states := ofBlock hasBytes.1 ofBody.defaults } }
  | pluginContainer name containerClass =>
      exact { Style.hasBytes_empty with
        pluginContainers := ofBlock hasBytes.2 ofBody.properties
        usedLocals := ofBody.usedLocals
        pending := { Pending.hasBytes_empty with containers := ofBlock hasBytes.2 ofBody.defaults } }

theorem Condition.hasBytes_head (kind : Condition) : HasBytes kind.head := by
  cases kind <;> simp [head]

theorem Condition.hasBytes_place {kind : Condition} {query : Text} {properties : Properties}
    (ofQuery : HasBytes query) (ofProperties : properties.HasBytes) :
    (kind.place query properties).HasBytes := by
  have ofBlocks : ∀ block ∈ [({ query, properties } : Conditional)], block.HasBytes := by
    rw [List.forall_mem_singleton]
    exact ⟨ofQuery, ofProperties⟩
  cases kind with
  | screen => exact { Style.hasBytes_empty with screens := ofBlocks }
  | container => exact { Style.hasBytes_empty with containers := ofBlocks }

namespace Environment

variable {environment : Environment} {statement : Text}

theorem yields_blockBody (hasBytes : environment.HasBytes) {target : Target Body}
    (keeps : target.Keeps Body.HasBytes) {inside : Text} (ofInside : Text.HasBytes inside) :
    (environment.blockBody target inside).Yields Body.HasBytes fun _ => True := by
  apply (Draft.Yields.lift (reports_statements (by simp) ofInside)).andThen
  intro tokens ofTokens
  apply Draft.Yields.forEach
  intro token isToken
  have ofToken := ofTokens token isToken
  unfold blockToken
  split
  · exact .fail (by simp [ofToken])
  · apply (Draft.Yields.lift (Declaration.yields_parse ofToken)).andThen
    intro declaration ofDeclaration
    exact yields_declare hasBytes keeps ofToken ofDeclaration.1 ofDeclaration.2

theorem yields_conditionQuery (hasBytes : environment.HasBytes) (kind : Condition)
    (ofStatement : Text.HasBytes statement) {written : Text} (ofWritten : Text.HasBytes written) :
    Yields Text.HasBytes (environment.conditionQuery kind statement written) := by
  have ofHead := kind.hasBytes_head
  unfold conditionQuery
  simp only
  split
  · simp [ofWritten.trim, ofHead]
  · next condition isCondition =>
    have ofCondition : Text.HasBytes condition := by
      split at isCondition
      · cases isCondition
        exact ofWritten.trim
      · exact hasBytes.theme.breakpoints isCondition
    split
    · simp [ofCondition, ofHead]
    · next declaration found =>
      rcases Declaration.hasBytes_of_read? ofCondition found with ⟨ofName, ofValue⟩
      split
      · next property more expands _ =>
        have ofProperty := Abbreviation.hasBytes_of_expand? expands property List.mem_cons_self
        apply Reports.ok
        simp [ofProperty, ofValue.trim]
      · simp [ofName, ofHead, ofStatement]
  · simp

theorem yields_conditional (hasBytes : environment.HasBytes) (kind : Condition)
    (ofStatement : Text.HasBytes statement) {inside : Text} (ofInside : Text.HasBytes inside) :
    (environment.conditional kind statement inside).Yields Style.HasBytes fun _ => True := by
  have ofHead := kind.hasBytes_head
  apply (Draft.Yields.lift (yields_splitTopLevel ofInside)).andThen
  intro found ofFound
  split
  · exact .fail (by simp [ofHead, ofStatement])
  · next condition body =>
    rcases ofFound _ rfl with ⟨ofCondition, ofBody⟩
    have ofQuery := yields_conditionQuery hasBytes kind ofStatement ofCondition
    apply (Draft.Yields.lift ofQuery).andThen
    intro query queryHasBytes
    have keeps : kind.target.Keeps Body.HasBytes :=
      Target.keeps_insideBlock ofHead Text.madeOf_nil _ _
    have ofDraft := yields_blockBody hasBytes keeps ofBody
    have used : ({ usedLocals := (environment.blockBody kind.target body).written.usedLocals } :
        Style).HasBytes := { Style.hasBytes_empty with usedLocals := ofDraft.written.usedLocals }
    simp only
    split
    · next error failed => exact ⟨used, ofDraft.result.of_error failed⟩
    · exact ⟨used.append (Condition.hasBytes_place queryHasBytes ofDraft.written.properties),
        trivial⟩

theorem yields_flat (hasBytes : environment.HasBytes) (isDeclared : Text → Bool)
    (ofStatement : Text.HasBytes statement) :
    (environment.flat isDeclared statement).Yields Style.HasBytes fun _ => True := by
  apply (Draft.Yields.lift (Declaration.yields_parse ofStatement)).andThen
  intro declaration ofDeclaration
  exact yields_declare hasBytes (Target.keeps_topLevel isDeclared) ofStatement ofDeclaration.1
    ofDeclaration.2

theorem yields_contribution (hasBytes : environment.HasBytes) (isDeclared : Text → Bool)
    (ofStatement : Text.HasBytes statement) :
    (environment.contribution isDeclared statement).Yields Style.HasBytes fun _ => True := by
  have trimmed := ofStatement.trim
  unfold contribution
  split
  · exact .done trivial
  · next rest same =>
    rw [same] at trimmed
    exact .fail (by simp_all)
  · split
    · exact yields_flat hasBytes isDeclared trimmed
    · next head inside isBlock =>
      rcases hasBytes_of_blockParts? trimmed isBlock with ⟨ofHead, ofInside⟩
      split
      · exact .fail (by simp [ofHead, trimmed])
      · unfold block?
        split
        · next slot isSlot =>
          have ofSlot := Slot.hasBytes_of_ofHead? ofHead isSlot
          have ofDraft := yields_blockBody hasBytes (Slot.keeps_target ofSlot) ofInside
          exact ⟨Slot.hasBytes_place ofSlot ofDraft.written, ofDraft.result⟩
        · cases Condition.ofHead? head with
          | none => exact yields_flat hasBytes isDeclared trimmed
          | some kind => exact yields_conditional hasBytes kind trimmed ofInside

end Environment

/-! ## Bodies -/

/-- The state has a property, and the message of the failure has bytes. -/
structure Attempt.Yields (Good : σ → Prop) (attempt : Attempt σ) : Prop where
  state : Good attempt.state
  failure : ∀ error, attempt.failure = some error → error.HasBytes

namespace Attempt.Yields

variable {τ : Type} {Kept : σ → Prop} {Image : τ → Prop}

theorem done {state : σ} (kept : Kept state) : Attempt.Yields Kept { state } :=
  ⟨kept, nofun⟩

theorem failed {state : σ} {error : Error} (kept : Kept state) (hasBytes : error.HasBytes) :
    Attempt.Yields Kept { state, failure := some error } := by
  refine ⟨kept, ?_⟩
  rintro _ ⟨⟩
  exact hasBytes

theorem toExcept {attempt : Attempt σ} (yields : attempt.Yields Kept) :
    TerseStyle.Yields Kept attempt.toExcept := by
  unfold Attempt.toExcept
  split
  · next error isFailure => exact yields.failure error isFailure
  · exact yields.state

theorem map {attempt : Attempt σ} {embed : σ → τ} (yields : attempt.Yields Kept)
    (ofState : Kept attempt.state → Image (embed attempt.state)) :
    (attempt.map embed).Yields Image :=
  ⟨ofState yields.state, yields.failure⟩

theorem andThen {first : Attempt σ} {change : σ → Attempt σ} (ofFirst : first.Yields Kept)
    (ofChange : ∀ state, Kept state → (change state).Yields Kept) :
    (first.andThen change).Yields Kept := by
  unfold Attempt.andThen
  split
  · exact ofFirst
  · exact ofChange _ ofFirst.state

theorem forEach {change : α → σ → Attempt σ} {items : List α}
    (ofEach : ∀ item ∈ items, ∀ state, Kept state → (change item state).Yields Kept) {state : σ}
    (kept : Kept state) : (forEach change items state).Yields Kept := by
  induction items generalizing state with
  | nil => exact done kept
  | cons item rest ih =>
      rw [List.forall_mem_cons] at ofEach
      exact (ofEach.1 state kept).andThen fun _ kept => ih ofEach.2 kept

end Attempt.Yields

/-- Every style of the constants has bytes. -/
def Constants.HaveBytes (constants : Constants) : Prop :=
  ∀ {name fragment}, constants.get? name = some fragment → fragment.HasBytes

namespace Style

variable {environment : Environment} {style : Style}

theorem yields_dispatchAll (hasBytes : environment.HasBytes) {statements : List Text}
    (ofStatements : ∀ statement ∈ statements, Text.HasBytes statement) (ofStyle : style.HasBytes) :
    (style.dispatchAll environment statements).Yields HasBytes := by
  apply Attempt.Yields.forEach _ ofStyle
  intro statement isStatement style ofStyle
  have ofDraft := environment.yields_contribution hasBytes style.localVariables.contains
    (ofStatements statement isStatement)
  refine ⟨ofStyle.append ofDraft.written, ?_⟩
  intro error failed
  exact ofDraft.result.of_error (Draft.failure?_eq_some.mp failed)

theorem yields_dispatchBody (hasBytes : environment.HasBytes) {body : Text}
    (ofBody : Text.HasBytes body) (ofStyle : style.HasBytes) :
    (style.dispatchBody environment body).Yields HasBytes := by
  have ofStatements : Yields (fun found => ∀ statement ∈ found, Text.HasBytes statement)
      (statements body) := reports_statements (by simp) ofBody
  unfold dispatchBody
  split
  · next refused => exact .failed ofStyle (ofStatements.of_error refused)
  · next scanned => exact yields_dispatchAll hasBytes (ofStatements.of_ok scanned) ofStyle

theorem yields_dispatchLines (hasBytes : environment.HasBytes) {constants : Constants}
    (ofConstants : constants.HaveBytes) (nested : Bool) {lines : List Text}
    (ofLines : ∀ line ∈ lines, Text.HasBytes line) (ofStyle : style.HasBytes) :
    (style.dispatchLines environment constants nested lines).Yields HasBytes := by
  have ofNames : ∀ name ∈ Query.usedConstants lines, Text.HasBytes name := by
    intro name isName
    rcases List.mem_flatten.mp isName with ⟨names, areNames, inNames⟩
    rcases List.mem_filterMap.mp areNames with ⟨line, isLine, uses⟩
    unfold Query.usedConstants? at uses
    split at uses
    · cases uses
      simp at inNames
    · next written begins =>
      cases uses
      have ofLine := ofLines line isLine
      rw [Text.dropBeginning?_eq_some begins] at ofLine
      simp only [Text.madeOf_append, Text.madeOf_cons] at ofLine
      exact ofLine.2.2.of_mem_words inNames
    · simp at uses
  have afterConstants : (style.useConstants constants nested
      (Query.usedConstants lines)).Yields HasBytes := by
    apply Attempt.Yields.forEach _ ofStyle
    intro name isName style ofStyle
    have ofName := ofNames name isName
    unfold useConstant
    split
    · next isConstant => exact .done (ofStyle.append (ofConstants isConstant).shared)
    · apply Attempt.Yields.failed ofStyle
      cases nested <;> simp [ofName]
  apply afterConstants.andThen
  intro style ofStyle
  apply yields_dispatchBody hasBytes _ ofStyle
  refine Text.MadeOf.joinWith (by simp) ?_
  exact fun line isLine => ofLines line (List.mem_of_mem_filter isLine)

end Style

end TerseStyle

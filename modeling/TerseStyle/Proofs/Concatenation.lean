import TerseStyle.Proofs.ClassText
import TerseStyle.Proofs.Resolved

/-!
# Sources one after the other

Classes do not depend on the classes around them. A class is compiled on its own, and it needs of
the others only the names that its queries refer to; these are found as well among more classes. So
the style sheet of two texts of classes is that of the first followed by that of the second
(`compile_append`). The exception is what the conditions of a theme can bring about: a reserved
character that opens a reference in the first style sheet and one that closes it in the second are
harmless apart, but together they look like a reference that was left.
-/

namespace TerseStyle

/-! ## Rules among more classes -/

/-- Every class of the first table is one of the second, under the same final name. -/
def Extends (small large : OrderedMap Text Text) : Prop :=
  ∀ name display, small.get? name = some display → large.get? name = some display

section

variable {small large : OrderedMap Text Text}

theorem Selector.nest_of_extends (isPart : Extends small large) {parent written selector : Text}
    (nests : nest small parent written = .ok selector) :
    nest large parent written = .ok selector := by
  rw [nest, map_eq_ok] at nests ⊢
  obtain ⟨resolved, resolves, same⟩ := nests
  refine ⟨resolved, ?_, same⟩
  rw [Reference.resolveScope, Text.replaceItemsM, map_eq_ok] at resolves ⊢
  obtain ⟨pieces, rewrites, isText⟩ := resolves
  refine ⟨pieces, mapM_eq_ok_of_imp ?_ rewrites, isText⟩
  rintro (_ | reference) _ result written
  · exact written
  · cases reference with
    | runtime name block => exact written
    | localVariable name => exact written
    | scope name =>
        simp only [Piece.renderM, ofClass] at written ⊢
        split at written
        · next display found =>
          rw [isPart name display found]
          exact written
        · simp at written

theorem QueryTree.rules_of_extends (isPart : Extends small large) {owner : Text}
    {queries : List (Text × QueryTree)} {made : List Rule}
    (makes : rules small owner queries = .ok made) : rules large owner queries = .ok made := by
  induction queries using rules.induct generalizing made with
  | case1 =>
      rw [rules] at makes ⊢
      exact makes
  | case2 parent written lines style children rest ih =>
      rw [rules] at makes ⊢
      simp only [bind_eq_ok] at makes ⊢
      obtain ⟨selector, nests, more, walks, same⟩ := makes
      exact ⟨selector, Selector.nest_of_extends isPart nests, more,
        ih selector walks, same⟩

theorem classRules_of_extends (isPart : Extends small large) {display : Text} {style : Style}
    {queries : List QueryTree} {made : List Rule}
    (makes : classRules small display style queries = .ok made) :
    classRules large display style queries = .ok made := by
  rw [classRules, map_eq_ok] at makes ⊢
  obtain ⟨nested, walks, same⟩ := makes
  exact ⟨nested, QueryTree.rules_of_extends isPart walks, same⟩

end

namespace Source

/-! ## Style sheets of classes -/

/-- The names of compiled classes. -/
def namesOf (classes : List CompiledClass) : OrderedMap Text Text :=
  .ofList (classes.map fun item => (item.name, item.display))

theorem extends_namesOf {part whole : List CompiledClass} (isPart : part.Sublist whole)
    (distinct : (whole.map CompiledClass.name).Nodup) : Extends (namesOf part) (namesOf whole) := by
  have areKeys : ∀ classes : List CompiledClass,
      (classes.map fun item => (item.name, item.display)).map Prod.fst =
        classes.map CompiledClass.name := fun classes => List.map_map
  have distinctPart := distinct.sublist (isPart.map CompiledClass.name)
  rw [← areKeys] at distinct distinctPart
  intro name display found
  rw [namesOf, OrderedMap.get?_eq_some_iff, OrderedMap.entries_ofList distinctPart] at found
  rw [namesOf, OrderedMap.get?_eq_some_iff, OrderedMap.entries_ofList distinct]
  exact (isPart.map _).mem found

/-- The style sheet of classes that are alone in a source. -/
def classesCss (theme : Theme) (scope : Text) (classes : List ClassBlock) : Except Error Text := do
  let compiled ← classes.mapM (compileClass { context := .rule, theme } scope ∅)
  let sections ← compiled.mapM fun item =>
    classRules (namesOf compiled) item.display item.style item.queries
  return sections.flatMap renderRules

theorem map_name_of_mapM {environment : Environment} {scope : Text} {constants : Constants}
    {classes : List ClassBlock} {compiled : List CompiledClass}
    (compiles : classes.mapM (compileClass environment scope constants) = .ok compiled) :
    compiled.map CompiledClass.name = classes.map ClassBlock.name := by
  have related := forall₂_of_mapM_eq_ok compiles
  clear compiles
  induction related with
  | nil => rfl
  | cons compilesFirst _ ih =>
      rw [compileClass] at compilesFirst
      simp only [bind_eq_ok, Prod.exists, pure, Except.pure, Except.ok.injEq] at compilesFirst
      obtain ⟨_, _, _, _, _, rfl⟩ := compilesFirst
      rw [List.map_cons, List.map_cons, ih]

theorem classesCss_append {theme : Theme} {scope : Text} {first second : List ClassBlock}
    {firstCss secondCss : Text} (distinct : ((first ++ second).map ClassBlock.name).Nodup)
    (isFirst : classesCss theme scope first = .ok firstCss)
    (isSecond : classesCss theme scope second = .ok secondCss) :
    classesCss theme scope (first ++ second) = .ok (firstCss ++ secondCss) := by
  simp only [classesCss, bind_eq_ok, pure, Except.pure, Except.ok.injEq] at isFirst isSecond ⊢
  obtain ⟨firstCompiled, compilesFirst, firstSections, makesFirst, rfl⟩ := isFirst
  obtain ⟨secondCompiled, compilesSecond, secondSections, makesSecond, rfl⟩ := isSecond
  have sameNames : (firstCompiled ++ secondCompiled).map CompiledClass.name =
      (first ++ second).map ClassBlock.name := by
    rw [List.map_append, List.map_append, map_name_of_mapM compilesFirst,
      map_name_of_mapM compilesSecond]
  rw [← sameNames] at distinct
  have firstExtends := extends_namesOf (List.sublist_append_left _ secondCompiled) distinct
  have secondExtends := extends_namesOf (List.sublist_append_right firstCompiled _) distinct
  refine ⟨firstCompiled ++ secondCompiled, ?_, firstSections ++ secondSections, ?_, ?_⟩
  · exact mapM_append_eq_ok compilesFirst compilesSecond
  · apply mapM_append_eq_ok
    · exact mapM_eq_ok_of_imp (fun _ _ _ => classRules_of_extends firstExtends) makesFirst
    · exact mapM_eq_ok_of_imp (fun _ _ _ => classRules_of_extends secondExtends) makesSecond
  · rw [List.flatMap_append]

variable {directives : List Directive}

theorem checkDirectives_of_scope (areScopes : ∀ directive ∈ directives, directive.name = "scope") :
    checkDirectives directives = .ok () := by
  induction directives with
  | nil => rfl
  | cons directive rest ih =>
      rw [List.forall_mem_cons] at areScopes
      rw [checkDirectives, if_pos (Or.inl areScopes.1), ih areScopes.2]

theorem checkBindings_of_scope (areScopes : ∀ directive ∈ directives, directive.name = "scope")
    (names : OrderedMap Text Text) (keys : List Text) :
    checkBindings names keys directives = .ok () := by
  induction directives with
  | nil => rfl
  | cons directive rest ih =>
      rw [List.forall_mem_cons] at areScopes
      have notBind : directive.name ≠ "bind" := by
        rw [areScopes.1]
        decide
      rw [checkBindings, if_pos notBind, ih areScopes.2]

/-- A source of classes and of scopes assembles to the style sheet of its classes. -/
theorem map_css_assemble (areScopes : ∀ directive ∈ directives, directive.name = "scope")
    (theme : Theme) (classes : List ClassBlock) :
    (assemble theme { constants := [], keyframes := [], directives, classes }).map Compiled.css =
      classesCss theme (Directive.scope directives) classes := by
  have isEnvironment :
      environment theme { constants := [], keyframes := [], directives, classes } =
        .ok { context := .rule, theme } := by
    rw [environment, checkDirectives_of_scope areScopes]
    rfl
  have noConstants : compileConstants { context := .rule, theme } [] = .ok ∅ := rfl
  have noKeyframes : ([] : List KeyframeBlock).mapM
      (Keyframe.compile { context := .rule, theme } (Directive.scope directives)) = .ok [] := rfl
  rw [assemble, isEnvironment, classesCss]
  simp only [Source.scope, bind, Except.bind, noConstants, noKeyframes,
    checkBindings_of_scope areScopes, pure, Except.pure]
  cases classes.mapM (compileClass { context := .rule, theme } (Directive.scope directives) ∅) with
  | error error => rfl
  | ok compiled =>
      simp only
      rw [namesOf]
      cases compiled.mapM fun item => classRules (.ofList (compiled.map fun item =>
          (item.name, item.display))) item.display item.style item.queries with
      | error error => rfl
      | ok sections => rfl

/-- A source of classes alone, after a line that may declare the scope, compiles to the style sheet
of its classes if no reference is left in it. -/
theorem ClassText.compile_eq_ok_iff {header : Text} (isHeader : header = [] ∨ IsScopeLine header)
    (classText : ClassText) {theme : Theme} {css : Text} :
    TerseStyle.compile theme (header ++ classText.text) = .ok css ↔
      classesCss theme (Directive.scope (Directive.ofLine? header).toList) classText.classes =
        .ok css ∧ Reference.leftover? css = none := by
  have areScopes : ∀ directive ∈ (Directive.ofLine? header).toList, directive.name = "scope" := by
    rcases isHeader with rfl | isLine
    · simp [Directive.ofLine?, Directive.read?, Directive.splitLineEnd]
    · obtain ⟨value, spells, _⟩ := isLine.exists_ofLine?
      simp [spells]
  rw [compile_eq, classText.parse_header isHeader, ← map_css_assemble areScopes, bind_eq_ok,
    map_eq_ok]
  constructor
  · rintro ⟨compiled, assembles, checked⟩
    obtain ⟨_, passes, rfl⟩ := map_eq_ok.mp checked
    rcases checkResolved_eq compiled.css with ⟨nothing, _⟩ | ⟨reference, _, refused⟩
    · exact ⟨⟨compiled, assembles, rfl⟩, nothing⟩
    · simp [refused] at passes
  · rintro ⟨⟨compiled, assembles, rfl⟩, nothing⟩
    rcases checkResolved_eq compiled.css with ⟨_, passes⟩ | ⟨reference, found, _⟩
    · exact ⟨compiled, assembles, map_eq_ok.mpr ⟨(), passes, rfl⟩⟩
    · simp [nothing] at found

end Source

/-- What is left in a concatenation is left in one of the parts, or is opened in the first and
closed in the second. -/
theorem Reference.leftover?_append_eq_none_iff {left right : Text}
    (noneLeft : leftover? left = none) (noneRight : leftover? right = none) :
    leftover? (left ++ right) = none ↔ opening ∉ left ∨ closing ∉ right := by
  rw [leftover?_eq_none_iff] at noneLeft noneRight ⊢
  by_cases isOpened : opening ∈ left
  · have notPassed : (left.dropWhile (· ≠ opening)).isEmpty = false := by
      rw [List.isEmpty_eq_false_iff, ne_eq, List.dropWhile_eq_nil_iff]
      intro passes
      simpa using passes opening isOpened
    rw [List.dropWhile_append, notPassed, if_neg Bool.false_ne_true, List.mem_append]
    constructor
    · intro nothing
      exact Or.inr fun isClosed => nothing (Or.inr isClosed)
    · rintro (notOpened | notClosed) (inLeft | inRight)
      · exact notOpened isOpened
      · exact notOpened isOpened
      · exact noneLeft inLeft
      · exact notClosed inRight
  · have passes : (left ++ right).dropWhile (· ≠ opening) = right.dropWhile (· ≠ opening) := by
      apply List.dropWhile_append_of_pos
      intro c isChar
      simpa using fun isOpening : c = opening => isOpened (isOpening ▸ isChar)
    rw [passes]
    exact ⟨fun _ => Or.inl isOpened, fun _ => noneRight⟩

theorem unmarked_of_compile {texts : Theme.Texts} {theme : Theme}
    (built : Theme.ofTexts texts = .ok theme)
    (unmarkedBreakpoints : ∀ entry ∈ texts.breakpoints, Reference.Unmarked entry.2)
    (unmarkedDefines : ∀ group ∈ texts.defines, ∀ entry ∈ group.2, Reference.Unmarked entry.2)
    {text css : Text} (compiles : compile theme text = .ok css) : Reference.Unmarked css := by
  rw [compile_eq, bind_eq_ok] at compiles
  obtain ⟨compiled, assembled, checked⟩ := compiles
  obtain ⟨source, parsed, assembles⟩ := bind_eq_ok.mp assembled
  obtain ⟨_, _, rfl⟩ := map_eq_ok.mp checked
  have soundTheme : theme.Sound := Theme.sound_of_ofTexts built
  have plainTheme := Theme.hasPlainConditions_of_ofTexts built unmarkedBreakpoints unmarkedDefines
  have markerFree := Source.markerFree_of_parse parsed
  rw [← Reference.markers_eq_nil_iff, Source.markers_css soundTheme markerFree assembles,
    Reference.markers_eq_nil_iff]
  exact Source.unmarked_conditions soundTheme plainTheme markerFree assembles

/-- Two texts of classes, each after the same line that may declare the scope, compile together to
their style sheets one after the other, unless the first of these has a reserved character that
opens a reference and the second one that closes it. This is never so under a theme of texts without
reserved characters. -/
theorem compile_append {theme : Theme} {header first second firstCss secondCss : Text}
    {firstClasses secondClasses : List ClassBlock}
    (isHeader : header = [] ∨ Source.IsScopeLine header)
    (holdsFirst : Source.HoldsClasses first firstClasses)
    (holdsSecond : Source.HoldsClasses second secondClasses)
    (disjoint : ∀ block ∈ firstClasses, ∀ other ∈ secondClasses, block.name ≠ other.name)
    (compilesFirst : compile theme (header ++ first) = .ok firstCss)
    (compilesSecond : compile theme (header ++ second) = .ok secondCss) :
    (compile theme (header ++ first ++ "\n" ++ second) = .ok (firstCss ++ secondCss) ↔
      Reference.opening ∉ firstCss ∨ Reference.closing ∉ secondCss) ∧
    ∀ texts : Theme.Texts, Theme.ofTexts texts = .ok theme →
      (∀ entry ∈ texts.breakpoints, Reference.Unmarked entry.2) →
      (∀ group ∈ texts.defines, ∀ entry ∈ group.2, Reference.Unmarked entry.2) →
      compile theme (header ++ first ++ "\n" ++ second) = .ok (firstCss ++ secondCss) := by
  obtain ⟨firstText, rfl, rfl⟩ := holdsFirst.exists_classText
  obtain ⟨secondText, rfl, rfl⟩ := holdsSecond.exists_classText
  have joined : compile theme (header ++ firstText.text ++ "\n" ++ secondText.text) =
      .ok (firstCss ++ secondCss) ↔
        Reference.opening ∉ firstCss ∨ Reference.closing ∉ secondCss := by
    obtain ⟨isFirst, noneFirst⟩ := (firstText.compile_eq_ok_iff isHeader).mp compilesFirst
    obtain ⟨isSecond, noneSecond⟩ := (secondText.compile_eq_ok_iff isHeader).mp compilesSecond
    have distinct := (firstText.append secondText disjoint).distinct
    have together := Source.classesCss_append
      (by rwa [← Source.ClassText.classes, Source.ClassText.classes_append] at distinct)
      isFirst isSecond
    rw [List.append_assoc, List.append_assoc, ← List.append_assoc firstText.text,
      ← @Source.ClassText.text_append firstText secondText disjoint,
      Source.ClassText.compile_eq_ok_iff isHeader, Source.ClassText.classes_append,
      Reference.leftover?_append_eq_none_iff noneFirst noneSecond]
    exact ⟨fun compiles => compiles.2, fun apart => ⟨together, apart⟩⟩
  refine ⟨joined, ?_⟩
  intro texts built unmarkedBreakpoints unmarkedDefines
  apply joined.mpr
  left
  intro isOpened
  have unmarked := unmarked_of_compile built unmarkedBreakpoints unmarkedDefines compilesFirst
  exact (unmarked _ isOpened).1 rfl

set_option maxRecDepth 100000 in
/-- A class with a condition of the theme and a query that names the class after it, and a class
with a runtime variable. -/
theorem compile_append_query :
    let texts : Theme.Texts := { breakpoints := [("md", "min-w[9px]")] }
    let header : Text := "@scope s\n"
    let first : Text :=
      ".a \x7b\nscreen(md, w[1px])\n@query &>@scope.b \x7b c[red] \x7d\n\x7d\n.b \x7b c[blue] \x7d"
    let second : Text := ".c \x7b $bg[red] \x7d"
    let firstCss : Text := "@media only screen and (min-width:9px)\x7b.s_a\x7bwidth:1px;\x7d\x7d" ++
      ".s_a>.s_b\x7bcolor:red;\x7d.s_b\x7bcolor:blue;\x7d"
    let secondCss : Text := ":root\x7b--bg-s_c:red;\x7d.s_c\x7bbackground-color:var(--bg-s_c);\x7d"
    ∃ theme, Theme.ofTexts texts = .ok theme ∧
      compile theme (header ++ first) = .ok firstCss ∧
      compile theme (header ++ second) = .ok secondCss ∧
      compile theme (header ++ first ++ "\n" ++ second) = .ok (firstCss ++ secondCss) := by
  intro texts header first second firstCss secondCss
  have evaluates : (Theme.ofTexts texts >>= fun theme =>
      (pure (compile theme (header ++ first), compile theme (header ++ second)) :
        Except Error (Except Error Text × Except Error Text))) =
      .ok (.ok firstCss, .ok secondCss) := by
    unfold header first second firstCss secondCss
    repeat rw [Text.ofString_ofList]
    decide +kernel
  obtain ⟨theme, built, outcome⟩ := bind_eq_ok.mp evaluates
  obtain ⟨compilesFirst, compilesSecond⟩ := Prod.mk.inj (Except.ok.inj outcome)
  have isHeader : Source.IsScopeLine header :=
    ⟨"@scope s", "s", rfl, by decide, by decide +kernel, by decide +kernel⟩
  have holdsFirst : Source.HoldsClasses first
      [{ name := "a", body := "\nscreen(md, w[1px])\n@query &>@scope.b \x7b c[red] \x7d\n" },
        { name := "b", body := " c[blue] " }] :=
    ⟨by decide +kernel, by decide +kernel⟩
  have holdsSecond : Source.HoldsClasses second [{ name := "c", body := " $bg[red] " }] :=
    ⟨by decide +kernel, by decide +kernel⟩
  have joined := compile_append (Or.inr isHeader) holdsFirst holdsSecond (by decide) compilesFirst
    compilesSecond
  exact ⟨theme, built, compilesFirst, compilesSecond, joined.2 texts built (by decide) (by decide)⟩

set_option maxRecDepth 100000 in
/-- Two breakpoints that open and close a reference each leave no reference alone, but they do
together. -/
theorem compile_append_ne_breakpoints :
    let texts : Theme.Texts := { breakpoints := [("a", "min-w[⟦]"), ("b", "min-w[⟧]")] }
    let first : Text := ".x \x7b screen(a, w[1px]) \x7d"
    let second : Text := ".y \x7b screen(b, w[1px]) \x7d"
    Source.HoldsClasses first [{ name := "x", body := " screen(a, w[1px]) " }] ∧
    Source.HoldsClasses second [{ name := "y", body := " screen(b, w[1px]) " }] ∧
    ∃ theme firstCss secondCss, Theme.ofTexts texts = .ok theme ∧
      compile theme first = .ok firstCss ∧ compile theme second = .ok secondCss ∧
      compile theme (first ++ "\n" ++ second) ≠ .ok (firstCss ++ secondCss) := by
  intro texts first second
  refine ⟨⟨by decide +kernel, by decide +kernel⟩, ⟨by decide +kernel, by decide +kernel⟩, ?_⟩
  have evaluates : (Theme.ofTexts texts >>= fun theme =>
      (pure (compile theme first, compile theme second, compile theme (first ++ "\n" ++ second)) :
        Except Error (Except Error Text × Except Error Text × Except Error Text))) =
      .ok (.ok "@media only screen and (min-width:⟦)\x7b.x\x7bwidth:1px;\x7d\x7d",
        .ok "@media only screen and (min-width:⟧)\x7b.y\x7bwidth:1px;\x7d\x7d",
        .error (Cause.unresolvedReference
          "⟦)\x7b.x\x7bwidth:1px;\x7d\x7d@media only screen and (min-width:⟧" : Cause)) := by
    unfold first second
    repeat rw [Text.ofString_ofList]
    decide +kernel
  obtain ⟨theme, built, outcome⟩ := bind_eq_ok.mp evaluates
  obtain ⟨compilesFirst, outcomes⟩ := Prod.mk.inj (Except.ok.inj outcome)
  obtain ⟨compilesSecond, refused⟩ := Prod.mk.inj outcomes
  refine ⟨theme, _, _, built, compilesFirst, compilesSecond, ?_⟩
  rw [refused]
  simp

end TerseStyle

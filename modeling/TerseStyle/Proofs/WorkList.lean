import TerseStyle.Proofs.Outcome
import TerseStyle.Query.Body

/-!
# Work lists

Two loops over queries keep a list of what is left to do. `QueryTree.readWaiting` takes the body
that came last and fills a query that already stands in the tree; `QueryTree.preorder` takes the
first query and puts those inside it in front. This file shows that both are recursions.

For reading, the key is what becomes of one item of the list (`readWaiting_cons`): whatever waits
behind it, the list gets back to what was behind it once the whole tree below the item is in its
place. That is shown by induction on the length of the body, and inside it from the last query of
the body to the first, since this is the order in which their bodies are taken. The equations
`parse_of_error` and `parse_of_level` then describe reading level by level, without a list.

A recursive descent (`descend?`) differs in the order of work only: it reads the body of a query
before it looks for the next one. So it is refused for the same bodies, and if a body has several
mistakes the two may meet different ones first.

What holds of all forests is shown along their queries (`forest_induction`). For compiling, this
needs to know how a forest fails or succeeds from its first query on.
-/

namespace TerseStyle

namespace QueryTree

/-! ## Filling a tree -/

theorem fill_fill (path : List Nat) (position : Nat) (lines own : List Text)
    (children inside : List QueryTree) (tree : QueryTree) :
    (tree.fill path lines children).fill (path ++ [position]) own inside =
      tree.fill path lines (children.modify position (fill [] own inside)) := by
  induction path generalizing tree with
  | nil =>
      cases tree
      rfl
  | cons first path ih =>
      cases tree with
      | node selector above style siblings =>
          have below : fill (path ++ [position]) own inside ∘ fill path lines children =
              fill path lines (children.modify position (fill [] own inside)) :=
            funext ih
          rw [fill, List.cons_append, fill, List.modify_modify_eq, below, fill]

theorem modify_between (before after : List QueryTree) (tree : QueryTree)
    (change : QueryTree → QueryTree) :
    (before ++ tree :: after).modify before.length change = before ++ change tree :: after := by
  rw [List.modify_eq_take_drop, List.take_left, List.drop_left, List.modifyHead_cons]

/-! ## Reading bodies -/

theorem push_append (path : List Nat) (position : Nat) (queries : List (Text × Text))
    (query : Text × Text) (work : List Query.Waiting) :
    Query.push path position (queries ++ [query]) work =
      { path := path ++ [position + queries.length], body := query.2 } ::
        Query.push path position queries work := by
  induction queries generalizing position work with
  | nil => rfl
  | cons first rest ih =>
      rw [List.cons_append, Query.push, ih, Query.push, List.length_cons,
        Nat.add_assoc, Nat.add_comm 1]

/-- Reads a query in front of those after it. -/
def readQuery (query : Text × Text) (later : List QueryTree) : Except Error (List QueryTree) := do
  let (lines, children) ← parse query.2
  return node query.1 lines ∅ children :: later

/-- The body is read in one go: with anything waiting behind it, the list gets back there once all
of the tree below the body is in its place. -/
def ReadInOneGo (body : Text) : Prop :=
  ∀ path rest tree, readWaiting ({ path, body } :: rest) tree =
    parse body >>= fun read => readWaiting rest (tree.fill path read.1 read.2)

variable {text : Text} {delimited : Query.Level}

/-- The queries of a level are read from the last to the first. -/
theorem readWaiting_push {queries : List (Text × Text)}
    (inOneGo : ∀ query ∈ queries, ReadInOneGo query.2) (path : List Nat) (lines : List Text)
    (later : List QueryTree) (rest : List Query.Waiting) (tree : QueryTree) :
    readWaiting (Query.push path 0 queries rest)
        (tree.fill path lines (queries.map (fun query => unread query.1) ++ later)) =
      queries.foldrM readQuery later >>= fun forest =>
        readWaiting rest (tree.fill path lines forest) := by
  -- The queries that were read already are those in `later`, so the induction is from the end.
  induction queries using List.reverseRecOn generalizing later with
  | nil => rfl
  | append_singleton queries query ih =>
      rw [List.forall_mem_append, List.forall_mem_singleton] at inOneGo
      have place : 0 + queries.length = (queries.map fun query => unread query.1).length := by
        rw [Nat.zero_add, List.length_map]
      rw [push_append, inOneGo.2, List.foldrM_append, List.foldrM_cons, List.foldrM_nil, pure_bind,
        readQuery]
      cases parse query.2 with
      | error error => rfl
      | ok read =>
          rw [ok_bind, fill_fill, List.map_append, List.map_singleton, List.append_assoc,
            List.singleton_append, place, modify_between]
          exact ih inOneGo.1 _

theorem readWaiting_of_error {error : Error} {path : List Nat} {rest : List Query.Waiting}
    {tree : QueryTree} (fails : Query.level 1 text = .error error) :
    readWaiting ({ path, body := text } :: rest) tree = .error error := by
  rw [readWaiting]
  split
  · next failsToo =>
    rw [fails, Except.error.injEq] at failsToo
    rw [failsToo]
  · next isLevel => simp [fails] at isLevel

theorem readWaiting_of_level (isLevel : Query.level 1 text = .ok delimited)
    (inOneGo : ∀ query ∈ delimited.queries, ReadInOneGo query.2) (path : List Nat)
    (rest : List Query.Waiting) (tree : QueryTree) :
    readWaiting ({ path, body := text } :: rest) tree =
      delimited.queries.foldrM readQuery [] >>= fun forest =>
        readWaiting rest (tree.fill path delimited.lines forest) := by
  rw [readWaiting]
  split
  · next fails => simp [isLevel] at fails
  · next isLevelToo =>
    rw [isLevel, Except.ok.injEq] at isLevelToo
    subst isLevelToo
    simpa using readWaiting_push inOneGo path delimited.lines [] rest tree

theorem parse_of_error {error : Error} (fails : Query.level 1 text = .error error) :
    parse text = .error error := by
  rw [parse, readWaiting_of_error fails]
  rfl

theorem parse_of_inOneGo (isLevel : Query.level 1 text = .ok delimited)
    (inOneGo : ∀ query ∈ delimited.queries, ReadInOneGo query.2) :
    parse text = (delimited.queries.foldrM readQuery []).map fun forest =>
      (delimited.lines, forest) := by
  rw [parse, readWaiting_of_level isLevel inOneGo]
  cases delimited.queries.foldrM readQuery [] with
  | error error => rfl
  | ok forest =>
      rw [ok_bind, readWaiting]
      rfl

theorem readWaiting_cons (body : Text) : ReadInOneGo body := by
  induction length : body.length using Nat.strong_induction_on generalizing body with
  | _ size ih =>
    intro path rest tree
    cases isLevel : Query.level 1 body with
    | error error => rw [readWaiting_of_error isLevel, parse_of_error isLevel]; rfl
    | ok delimited =>
        have inOneGo : ∀ query ∈ delimited.queries, ReadInOneGo query.2 := by
          intro query isQuery
          have shorter := Query.length_level isLevel query isQuery
          exact ih _ (length ▸ shorter) query.2 rfl
        rw [readWaiting_of_level isLevel inOneGo, parse_of_inOneGo isLevel inOneGo]
        cases delimited.queries.foldrM readQuery [] <;> rfl

theorem parse_of_level (isLevel : Query.level 1 text = .ok delimited) :
    parse text = (delimited.queries.foldrM readQuery []).map fun forest =>
      (delimited.lines, forest) :=
  parse_of_inOneGo isLevel fun query _ => readWaiting_cons query.2

/-! ## Recursive descent -/

/-- Reads a body by recursive descent: finds the first query, reads its selector up to the brace,
matches the brace, reads the body in between, and goes on after it. -/
def descend? (text : Text) : Option (List Text × List QueryTree) :=
  match _queryAt : Query.splitAtQuery? text with
  | none => some (Query.ownLines text, [])
  | some (before, after) =>
    match _braceAt : Text.splitAtChar? '{' after with
    | none => none
    | some (written, inside) =>
      if (Text.trim written).isEmpty then none
      else
        match _bodyAt : Brace.splitAtClosing 1 0 inside with
        | none => none
        | some (body, rest) => do
          let (lines, children) ← descend? body
          let (more, siblings) ← descend? rest
          return (Query.ownLines before ++ more,
            node (Selector.read (Text.trim written)) lines ∅ children :: siblings)
termination_by text.length
decreasing_by
  all_goals
    have shorter := Query.length_splitAtQuery? _queryAt
    have shorterInside := Text.length_splitAtChar? _braceAt
    have shorterBody := Brace.length_splitAtClosing _bodyAt
    omega

/-- A descent does one of three things, as the first query of the body is. -/
theorem descend?_cases (line : Nat) (text : Text) :
    (Query.first? line text = .ok none ∧ descend? text = some (Query.ownLines text, [])) ∨
    ((∃ error, Query.first? line text = .error error) ∧ descend? text = none) ∨
    ∃ query, Query.first? line text = .ok (some query) ∧
      descend? text = do
        let read ← descend? query.body
        let more ← descend? query.rest
        return (Query.ownLines query.before ++ more.1,
          node query.selector read.1 ∅ read.2 :: more.2) := by
  rw [descend?]
  split
  · next noQuery => exact Or.inl ⟨by simp [Query.first?, noQuery], rfl⟩
  · next before after queryAt =>
    right
    split
    · next noBrace => exact Or.inl ⟨by simp [Query.first?, queryAt, noBrace], rfl⟩
    · next written inside braceAt =>
      split
      · next unnamed => exact Or.inl ⟨by simp [Query.first?, queryAt, braceAt, unnamed], rfl⟩
      · next named =>
        split
        · next unclosed =>
          exact Or.inl
            ⟨by simp [Query.first?, queryAt, braceAt, named, Brace.readBody, unclosed], rfl⟩
        · next body rest bodyAt =>
          refine Or.inr ⟨{
            before, body, rest
            selector := Selector.read (Text.trim written)
            line := line + Text.lineFeeds before + Text.lineFeeds written + Text.lineFeeds body },
            ?_, rfl⟩
          simp only [Query.first?, queryAt, braceAt, if_neg named, Brace.readBody, bodyAt]

/-- Descends into a query in front of those after it. -/
def descendQuery? (query : Text × Text) (later : List QueryTree) : Option (List QueryTree) :=
  (descend? query.2).map fun read => node query.1 read.1 ∅ read.2 :: later

/-- A descent is refused where the level is, and else reads the queries of the level. -/
theorem descend?_eq_level (line : Nat) (text : Text) :
    descend? text = (Query.level line text).toOption.bind fun delimited =>
      (delimited.queries.foldrM descendQuery? []).map fun forest => (delimited.lines, forest) := by
  fun_induction Query.level line text with
  | case1 line text error refused =>
      rcases descend?_cases line text with ⟨isFirst, _⟩ | ⟨_, isNone⟩ | ⟨query, isFirst, _⟩
      · simp [refused] at isFirst
      · exact isNone
      · simp [refused] at isFirst
  | case2 line text noQuery =>
      rcases descend?_cases line text with ⟨_, isLeaf⟩ | ⟨⟨error, refused⟩, _⟩ | ⟨query, isFirst, _⟩
      · exact isLeaf
      · simp [noQuery] at refused
      · simp [noQuery] at isFirst
  | case3 line text query found ih =>
      rcases descend?_cases line text with ⟨isFirst, _⟩ | ⟨⟨error, refused⟩, _⟩ |
        ⟨_, isFirst, reads⟩
      · simp [found] at isFirst
      · simp [found] at refused
      · rw [found, Except.ok.injEq, Option.some.injEq] at isFirst
        subst isFirst
        rw [reads, ih]
        -- The descent reads the first query before the others, the level after them.
        cases Query.level query.line query.rest with
        | error error => cases descend? query.body <;> rfl
        | ok more =>
            simp only [Except.map, Except.toOption, Option.bind_some, List.foldrM_cons]
            cases more.queries.foldrM descendQuery? [] with
            | none => cases descend? query.body <;> rfl
            | some later =>
                simp only [Option.bind_eq_bind, Option.bind_some, descendQuery?]
                cases descend? query.body <;> rfl

theorem toOption_foldrM_readQuery {queries : List (Text × Text)}
    (same : ∀ query ∈ queries, (parse query.2).toOption = descend? query.2) :
    (queries.foldrM readQuery []).toOption = queries.foldrM descendQuery? [] := by
  induction queries with
  | nil => rfl
  | cons query rest ih =>
      rw [List.forall_mem_cons] at same
      rw [List.foldrM_cons, List.foldrM_cons, ← ih same.2]
      cases rest.foldrM readQuery [] with
      | error error => rfl
      | ok later =>
          simp only [ok_bind, Except.toOption, Option.bind_eq_bind, Option.bind_some, readQuery,
            descendQuery?, ← same.1]
          cases parse query.2 <;> rfl

/-- The work list and the descent accept the same bodies and read the same from them. -/
theorem toOption_parse (text : Text) : (parse text).toOption = descend? text := by
  induction length : text.length using Nat.strong_induction_on generalizing text with
  | _ size ih =>
    rw [descend?_eq_level 1]
    cases isLevel : Query.level 1 text with
    | error error =>
        rw [parse_of_error isLevel]
        rfl
    | ok delimited =>
        have same : ∀ query ∈ delimited.queries, (parse query.2).toOption = descend? query.2 := by
          intro query isQuery
          have shorter := Query.length_level isLevel query isQuery
          exact ih _ (length ▸ shorter) query.2 rfl
        rw [parse_of_level isLevel]
        simp only [Except.toOption, Option.bind_some, ← toOption_foldrM_readQuery same]
        cases delimited.queries.foldrM readQuery [] <;> rfl

/-! ## Walking a forest -/

/-- Forests are made of queries: each stands before the rest, and has a forest inside it. -/
theorem forest_induction {motive : List QueryTree → Prop} (nil : motive [])
    (cons : ∀ selector lines style children rest, motive children → motive rest →
      motive (node selector lines style children :: rest)) : ∀ forest, motive forest
  | [] => nil
  | node selector lines style children :: rest =>
      cons selector lines style children rest (forest_induction nil cons children)
        (forest_induction nil cons rest)

theorem preorder_append (left right : List QueryTree) :
    preorder (left ++ right) = preorder left ++ preorder right := by
  induction left using preorder.induct with
  | case1 => rw [preorder, List.nil_append, List.nil_append]
  | case2 selector lines style children rest ih =>
      rw [List.cons_append, preorder, preorder, List.cons_append, ← List.append_assoc,
        ih]

theorem preorder_cons (selector : Text) (lines : List Text) (style : Style)
    (children rest : List QueryTree) :
    preorder (node selector lines style children :: rest) =
      node selector lines style children :: (preorder children ++ preorder rest) := by
  rw [preorder, preorder_append]

theorem preorder_nil : preorder [] = [] := by
  rw [preorder]

mutual

/-- A query, and after it those inside it. -/
def walk : QueryTree → List QueryTree
  | node selector lines style children => node selector lines style children :: walkForest children

/-- The queries of a forest, one tree after the other. -/
def walkForest : List QueryTree → List QueryTree
  | [] => []
  | tree :: rest => walk tree ++ walkForest rest

end

theorem preorder_eq_walkForest (forest : List QueryTree) : preorder forest = walkForest forest := by
  induction forest using forest_induction with
  | nil => rw [preorder_nil, walkForest]
  | cons selector lines style children rest inner onwards =>
      rw [preorder_cons, inner, onwards, walkForest, walk, List.cons_append]

/-- The two work lists are recursions: a body is read to what a recursive descent reads from it, and
refused exactly if the descent is refused; and a forest is walked in its recursive preorder. -/
theorem workLists_eq_recursions :
    (∀ text read, parse text = .ok read ↔ descend? text = some read) ∧
      ∀ forest, preorder forest = walkForest forest := by
  refine ⟨?_, preorder_eq_walkForest⟩
  intro text read
  rw [← toOption_parse]
  cases parse text with
  | error error => simp [Except.toOption]
  | ok other => simp [Except.toOption]

/-! ## Compiling a forest -/

variable {environment : Environment} {constants : Constants} {selector : Text} {lines : List Text}
  {style : Style} {children rest : List QueryTree}

/-- A forest fails for its first query, inside that query, or after it. -/
theorem failure_compileForest_cons {error : Error}
    (failed : (compileForest environment constants
      (node selector lines style children :: rest)).failure = some error) :
    (style.dispatchLines { environment with context := .query } constants true lines).failure =
        some error ∨
      (compileForest environment constants children).failure = some error ∨
      (compileForest environment constants rest).failure = some error := by
  rw [compileForest, compile] at failed
  cases own : (style.dispatchLines { environment with context := .query } constants true
      lines).failure with
  | some reason => simpa [own] using Or.inl failed
  | none =>
      cases inner : (compileForest environment constants children).failure with
      | some reason => simpa [own, inner, Attempt.map] using Or.inl failed
      | none => simpa [own, inner, Attempt.map] using failed

theorem succeeded_compileForest_cons
    (succeeded : (compileForest environment constants
      (node selector lines style children :: rest)).failure = none) :
    let own := style.dispatchLines { environment with context := .query } constants true lines
    own.failure = none ∧
      (compileForest environment constants children).failure = none ∧
      (compileForest environment constants rest).failure = none ∧
      (compileForest environment constants (node selector lines style children :: rest)).state =
        node selector lines own.state (compileForest environment constants children).state ::
          (compileForest environment constants rest).state := by
  intro own
  rw [compileForest, compile] at succeeded ⊢
  cases ofOwn : own.failure with
  | some reason => simp [own, ofOwn] at succeeded
  | none =>
      cases inner : (compileForest environment constants children).failure with
      | some reason => simp [own, ofOwn, inner, Attempt.map] at succeeded
      | none => simpa [own, ofOwn, inner, Attempt.map] using succeeded

end QueryTree

end TerseStyle

import TerseStyle.Query.Selector
import TerseStyle.Scan.Brace
import TerseStyle.Style.Basic

/-!
# Trees of nested queries

The body of a class holds lines of its own and nested blocks `@query selector { ... }`, each with a
body of the same form. `QueryTree.parse` reads a body into its own lines and a forest of queries.
It keeps a work list: all queries of a body are delimited and put into the tree before the body of
any of them is read, and their bodies wait together with their places in the tree. The body that
came last is read first: this decides which error is reported if there are several.
-/

namespace TerseStyle

/-- A nested query. -/
inductive QueryTree where
  /-- A query with its selector, its own lines, what they contribute, and the queries inside it. -/
  | node (selector : Text) (lines : List Text) (style : Style) (children : List QueryTree)

namespace Query

/-- The text before the first `@query` and the text after it. -/
def splitAtQuery? : Text → Option (Text × Text)
  | [] => none
  | c :: rest =>
    match Text.dropBeginning? "@query" (c :: rest) with
    | some after =>
      if after.head?.any isWordChar then
        (splitAtQuery? rest).map fun (before, after) => (c :: before, after)
      else some ([], after)
    | none => (splitAtQuery? rest).map fun (before, after) => (c :: before, after)

/-- The lines of a text that are not blank, trimmed. -/
def ownLines (text : Text) : List Text :=
  ((Text.lines text).map Text.trim).filter fun line => !line.isEmpty

/-- A body with the queries in it delimited: its own lines, and selector and body of each query. -/
structure Level where
  lines : List Text
  queries : List (Text × Text)
  deriving Repr, DecidableEq

theorem splitAtQuery?_eq_some {text before after : Text}
    (found : splitAtQuery? text = some (before, after)) : text = before ++ ("@query" ++ after) := by
  induction text generalizing before with
  | nil => simp [splitAtQuery?] at found
  | cons c rest ih =>
      have later : ((splitAtQuery? rest).map fun parts => (c :: parts.1, parts.2)) =
          some (before, after) → c :: rest = before ++ ("@query" ++ after) := by
        intro mapped
        obtain ⟨⟨inner, innerAfter⟩, innerFound, same⟩ := Option.map_eq_some_iff.mp mapped
        simp only [Prod.mk.injEq] at same
        rw [same.2] at innerFound
        rw [← same.1, List.cons_append, ← ih innerFound]
      simp only [splitAtQuery?] at found
      split at found
      · next dropped =>
        split at found
        · exact later found
        · simp only [Option.some.injEq, Prod.mk.injEq] at found
          rw [← found.1, ← found.2, List.nil_append]
          exact Text.dropBeginning?_eq_some dropped
      · exact later found

theorem length_splitAtQuery? {text before after : Text}
    (found : splitAtQuery? text = some (before, after)) : after.length < text.length := by
  have six : ("@query" : Text).length = 6 := rfl
  rw [splitAtQuery?_eq_some found, List.length_append, List.length_append]
  omega

/-- The first query of a body. -/
structure First where
  /-- The text before the query. -/
  before : Text
  /-- The selector of the query. -/
  selector : Text
  /-- The body of the query. -/
  body : Text
  /-- The text after the query. -/
  rest : Text
  /-- The line on which the rest starts. -/
  line : Nat
  deriving Repr, DecidableEq

/-- Delimits the first query of a body that starts on the given line. -/
def first? (line : Nat) (text : Text) : Except Error (Option First) :=
  match splitAtQuery? text with
  | none => .ok none
  | some (before, after) =>
    let line := line + Text.lineFeeds before
    match Text.splitAtChar? '{' after with
    | none => .error { cause := .queryWithoutBrace, line := some line }
    | some (written, inside) =>
      if (Text.trim written).isEmpty then
        .error { cause := .queryWithoutSelector, line := some line }
      else
        let line := line + Text.lineFeeds written
        match Brace.readBody line inside with
        | .error error => .error error
        | .ok (body, rest) =>
          .ok (some
            { before, selector := Selector.read (Text.trim written), body, rest
              line := line + Text.lineFeeds body })

theorem length_first? {line : Nat} {text : Text} {query : First}
    (found : first? line text = .ok (some query)) :
    query.body.length + query.rest.length < text.length := by
  simp only [first?] at found
  split at found
  · simp at found
  · next before after queryAt =>
    have shorter := length_splitAtQuery? queryAt
    split at found
    · simp at found
    · next written inside braceAt =>
      have shorterInside := Text.length_splitAtChar? braceAt
      split at found
      · simp at found
      · split at found
        · simp at found
        · next body rest bodyAt =>
          have shorterBody := Brace.length_readBody bodyAt
          simp only [Except.ok.injEq, Option.some.injEq] at found
          rw [← found]
          simp only
          omega

/-- Delimits the queries of a body that starts on the given line. -/
def level (line : Nat) (text : Text) : Except Error Level :=
  match _found : first? line text with
  | .error error => .error error
  | .ok none => .ok { lines := ownLines text, queries := [] }
  | .ok (some query) =>
    (level query.line query.rest).map fun more =>
      { lines := ownLines query.before ++ more.lines
        queries := (query.selector, query.body) :: more.queries }
termination_by text.length
decreasing_by
  have := length_first? _found
  omega

theorem length_level {line : Nat} {text : Text} {delimited : Level}
    (isLevel : level line text = .ok delimited) :
    ∀ query ∈ delimited.queries, query.2.length < text.length := by
  fun_induction level line text generalizing delimited with
  | case1 => simp at isLevel
  | case2 =>
    simp only [Except.ok.injEq] at isLevel
    simp [← isLevel]
  | case3 line text query found ih =>
    have shorter := length_first? found
    cases moreAt : level query.line query.rest with
    | error error => simp [moreAt, Except.map] at isLevel
    | ok more =>
      simp only [moreAt, Except.map, Except.ok.injEq] at isLevel
      rw [← isLevel]
      intro other isQuery
      rcases List.mem_cons.mp isQuery with isFirst | isLater
      · rw [isFirst]
        simp only
        omega
      · have shorterLater := ih moreAt other isLater
        omega

/-- A body that waits to be read. -/
structure Waiting where
  /-- The place of its query in the tree: the positions of the queries around it among their
  siblings, from the outermost on, and its own position at the end. -/
  path : List Nat
  body : Text
  deriving Repr, DecidableEq

/-- The work list with the bodies of some queries in front, the last query first. The queries stand
side by side inside the query at the path, the first of them at the given position. -/
def push (path : List Nat) : Nat → List (Text × Text) → List Waiting → List Waiting
  | _, [], work => work
  | position, query :: rest, work =>
    push path (position + 1) rest ({ path := path ++ [position], body := query.2 } :: work)

/-- How much there is to read, each body counted as one more than its length. -/
def weight : List Waiting → Nat
  | [] => 0
  | item :: rest => item.body.length + 1 + weight rest

/-- The bodies inside a body weigh less than the body itself. -/
theorem weight_push_of_level {line : Nat} {text : Text} {delimited : Level}
    (isLevel : level line text = .ok delimited) (path : List Nat) (position : Nat)
    (work : List Waiting) :
    weight (push path position delimited.queries work) ≤ text.length + weight work := by
  fun_induction level line text generalizing delimited position work with
  | case1 => simp at isLevel
  | case2 =>
    simp only [Except.ok.injEq] at isLevel
    rw [← isLevel, push]
    omega
  | case3 line text query found ih =>
    have shorter := length_first? found
    cases moreAt : level query.line query.rest with
    | error error => simp [moreAt, Except.map] at isLevel
    | ok more =>
      simp only [moreAt, Except.map, Except.ok.injEq] at isLevel
      have ofRest := ih moreAt (position + 1)
        ({ path := path ++ [position], body := query.body } :: work)
      simp only [weight] at ofRest
      simp only [← isLevel, push]
      omega

end Query

namespace QueryTree

/-- The selector relative to the parent. -/
def selector : QueryTree → Text
  | node selector _ _ _ => selector

/-- The lines of the query itself. -/
def lines : QueryTree → List Text
  | node _ lines _ _ => lines

/-- What the lines of the query contribute. -/
def style : QueryTree → Style
  | node _ _ style _ => style

/-- The queries inside the query. -/
def children : QueryTree → List QueryTree
  | node _ _ _ children => children

/-- A query of which only the selector is known. -/
def unread (selector : Text) : QueryTree :=
  node selector [] ∅ []

/-- The tree in which the query at a path has the given lines and queries. -/
def fill : List Nat → List Text → List QueryTree → QueryTree → QueryTree
  | [], own, inside, node selector _ style _ => node selector own style inside
  | position :: path, own, inside, node selector lines style children =>
    node selector lines style (children.modify position (fill path own inside))

/-- Reads the waiting bodies into the tree that they belong to. -/
def readWaiting (work : List Query.Waiting) (tree : QueryTree) : Except Error QueryTree :=
  match work with
  | [] => .ok tree
  | item :: rest =>
    match _delimited : Query.level 1 item.body with
    | .error error => .error error
    | .ok level =>
      readWaiting (Query.push item.path 0 level.queries rest)
        (tree.fill item.path level.lines (level.queries.map fun query => unread query.1))
termination_by Query.weight work
decreasing_by
  have lighter := Query.weight_push_of_level _delimited item.path 0 rest
  rw [Query.weight]
  omega

/-- Reads a body into its own lines and its queries, which are those of the root of a tree. -/
def parse (text : Text) : Except Error (List Text × List QueryTree) :=
  (readWaiting [{ path := [], body := text }] (unread [])).map fun root =>
    (root.lines, root.children)

mutual

/-- The number of queries in a tree. -/
def size : QueryTree → Nat
  | node _ _ _ children => 1 + forestSize children

/-- The number of queries in a forest. -/
def forestSize : List QueryTree → Nat
  | [] => 0
  | tree :: rest => size tree + forestSize rest

end

@[simp]
theorem forestSize_append (left right : List QueryTree) :
    forestSize (left ++ right) = forestSize left + forestSize right := by
  induction left with
  | nil => simp [forestSize]
  | cons tree rest ih =>
    simp only [List.cons_append, forestSize, ih]
    omega

/-- The queries of a forest, each before those inside it, in source order. -/
def preorder : List QueryTree → List QueryTree
  | [] => []
  | node selector lines style children :: rest =>
    node selector lines style children :: preorder (children ++ rest)
termination_by forest => forestSize forest
decreasing_by
  simp only [forestSize_append, forestSize, size]
  omega

end QueryTree

end TerseStyle

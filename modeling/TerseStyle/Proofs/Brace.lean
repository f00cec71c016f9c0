import Mathlib.Order.Bounds.Basic
import TerseStyle.Proofs.Layout

/-!
# The brace that closes a block

Which brace closes a block can be said without a scan. A place is outside every bracket group if no
end of the text before it opens more square brackets than it closes, so that a closing bracket with
nothing to close is ignored. The depth of a text is the number of its opening braces outside bracket
groups less that of its closing ones. The position that is found for an opening brace is then the
least place outside every group whose closing brace brings the depth back to zero
(`Brace.closingPosition_isLeast`).

The scan counts the open brackets and the depth as it goes; `Brace.openBrackets_eq_zero_iff` and
`Brace.depth_concat` say that its two counters are those of the text read so far.
-/

namespace TerseStyle

namespace Brace

/-! ## Places outside bracket groups -/

/-- The place after the text is outside every bracket group: no end of the text opens more square
brackets than it closes. -/
def IsOutside (before : Text) : Prop :=
  ∀ ending, ending <:+ before → ending.count (.char '[') ≤ ending.count (.char ']')

instance (before : Text) : Decidable (IsOutside before) :=
  decidable_of_iff
    (∀ ending ∈ before.tails, ending.count (CodePoint.char '[') ≤ ending.count (.char ']'))
    (by simp only [List.mem_tails, IsOutside])

/-- The number of square brackets that are open after a text. -/
def openBrackets (text : Text) : Nat :=
  text.foldl nextBrackets 0

@[simp]
theorem openBrackets_nil : openBrackets [] = 0 := rfl

@[simp]
theorem openBrackets_concat (text : Text) (c : CodePoint) :
    openBrackets (text ++ [c]) = nextBrackets (openBrackets text) c := by
  simp [openBrackets]

/-- The open brackets are the largest excess of opening brackets in an end of the text. -/
theorem openBrackets_eq_excess (text : Text) :
    (∀ ending, ending <:+ text →
      ending.count (.char '[') ≤ ending.count (.char ']') + openBrackets text) ∧
    ∃ ending, ending <:+ text ∧
      ending.count (.char '[') = ending.count (.char ']') + openBrackets text := by
  induction text using List.reverseRecOn with
  | nil =>
      refine ⟨?_, [], List.nil_suffix, rfl⟩
      intro ending isEnding
      rw [List.suffix_nil.mp isEnding]
      simp
  | append_singleton text c ih =>
      obtain ⟨atMost, largest, isLargest, isExcess⟩ := ih
      rw [openBrackets_concat, nextBrackets]
      constructor
      · intro ending isEnding
        rcases List.suffix_concat_iff.mp isEnding with rfl | ⟨shorter, rfl, isShorter⟩
        · simp
        · have ofShorter := atMost shorter isShorter
          by_cases isOpen : c = '['
          · simp [isOpen]
            omega
          · by_cases isClose : c = ']'
            · simp [isClose]
              omega
            · simpa [isOpen, isClose] using ofShorter
      · by_cases isOpen : c = '['
        · refine ⟨largest ++ [c], List.suffix_concat_iff.mpr (.inr ⟨largest, rfl, isLargest⟩), ?_⟩
          simp [isOpen]
          omega
        · by_cases isClose : c = ']'
          · by_cases closesNothing : openBrackets text = 0
            · exact ⟨[], List.nil_suffix, by simp [isClose, closesNothing]⟩
            · refine ⟨largest ++ [c],
                List.suffix_concat_iff.mpr (.inr ⟨largest, rfl, isLargest⟩), ?_⟩
              simp [isClose]
              omega
          · refine ⟨largest ++ [c],
              List.suffix_concat_iff.mpr (.inr ⟨largest, rfl, isLargest⟩), ?_⟩
            simpa [isOpen, isClose] using isExcess

theorem openBrackets_eq_zero_iff {text : Text} : openBrackets text = 0 ↔ IsOutside text := by
  obtain ⟨atMost, largest, isLargest, isExcess⟩ := openBrackets_eq_excess text
  constructor
  · intro noneOpen ending isEnding
    simpa [noneOpen] using atMost ending isEnding
  · intro outside
    have noMore := outside largest isLargest
    omega

/-! ## The depth of a text -/

/-- How often a brace stands outside the bracket groups of a text. -/
def countOutside (brace : CodePoint) (text : Text) : Nat :=
  (List.range text.length).countP fun place =>
    text[place]? = some brace ∧ IsOutside (text.take place)

/-- How many more braces a text opens than it closes, outside its bracket groups. -/
def depth (text : Text) : Int :=
  (countOutside '{' text : Int) - countOutside '}' text

@[simp]
theorem depth_nil : depth [] = 0 := rfl

theorem countOutside_concat (brace : CodePoint) (text : Text) (c : CodePoint) :
    countOutside brace (text ++ [c]) =
      countOutside brace text + if c = brace ∧ IsOutside text then 1 else 0 := by
  have sameBefore : (List.range text.length).countP (fun place =>
        (text ++ [c])[place]? = some brace ∧ IsOutside ((text ++ [c]).take place)) =
      countOutside brace text := by
    apply List.countP_congr
    intro place isPlace
    rw [List.mem_range] at isPlace
    rw [List.getElem?_append_left isPlace, List.take_append_of_le_length isPlace.le]
  rw [countOutside, List.length_append, List.length_singleton, List.range_succ, List.countP_append,
    sameBefore, List.countP_singleton]
  simp

/-- A character changes the depth only outside bracket groups. -/
theorem depth_concat (text : Text) (c : CodePoint) :
    depth (text ++ [c]) = depth text + depthChange (openBrackets text) c := by
  simp only [depth, countOutside_concat, depthChange, openBrackets_eq_zero_iff,
    Directive.braceBalance, List.count_singleton]
  by_cases outside : IsOutside text
  · by_cases isOpening : c = '{'
    · simp [outside, isOpening]
      omega
    · by_cases isClosing : c = '}'
      · simp [outside, isClosing]
        omega
      · simp [isOpening, isClosing]
  · simp [outside]

theorem counters_opening (text : Text) :
    openBrackets (.char '{' :: text) = openBrackets text ∧
      depth (.char '{' :: text) = depth text + 1 := by
  induction text using List.reverseRecOn with
  | nil => exact ⟨rfl, by decide⟩
  | append_singleton text c ih =>
      rw [← List.cons_append, openBrackets_concat, openBrackets_concat, depth_concat, depth_concat,
        ih.1, ih.2]
      exact ⟨rfl, by omega⟩

/-! ## The brace that brings the depth back -/

/-- A closing brace at this place closes what is open at depth one. -/
def Returns (text : Text) : Prop :=
  IsOutside text ∧ depth text = 1

/-- The scan from any text on stops at the first closing brace that brings the depth back. -/
theorem splitAtClosing_eq_some_iff (seen : Text) {text body after : Text} :
    splitAtClosing (depth seen) (openBrackets seen) text = some (body, after) ↔
      text = body ++ CodePoint.char '}' :: after ∧ Returns (seen ++ body) ∧
        ∀ front back, body = front ++ CodePoint.char '}' :: back → ¬Returns (seen ++ front) := by
  -- Along the text, with what was read so far as the only thing that changes.
  induction text generalizing seen body with
  | nil => simp [splitAtClosing]
  | cons c text ih =>
      have noSplit : ∀ {front back : Text}, [] ≠ front ++ CodePoint.char '}' :: back := by simp
      have stops : (c = '}' ∧ openBrackets seen = 0 ∧ depth seen = 1) ↔ c = '}' ∧ Returns seen := by
        rw [Returns, openBrackets_eq_zero_iff]
      rw [splitAtClosing_cons, ← openBrackets_concat, ← depth_concat]
      by_cases returns : c = '}' ∧ Returns seen
      · rw [if_pos (stops.mpr returns), Option.some.injEq, Prod.mk.injEq, returns.1]
        constructor
        · rintro ⟨rfl, rfl⟩
          exact ⟨rfl, by simpa using returns.2, fun front back same => absurd same noSplit⟩
        · rintro ⟨isText, _, first⟩
          cases body with
          | nil => exact ⟨rfl, (List.cons.inj isText).2⟩
          | cons d body =>
              rw [List.cons_append, List.cons.injEq] at isText
              refine absurd returns.2 ?_
              simpa using first [] body (by rw [← isText.1, List.nil_append])
      · rw [if_neg (mt stops.mp returns), Option.map_eq_some_iff]
        constructor
        · rintro ⟨⟨inner, rest⟩, found, same⟩
          rw [Prod.mk.injEq] at same
          obtain ⟨rfl, rfl⟩ := same
          obtain ⟨rfl, atEnd, first⟩ := (ih _).mp found
          refine ⟨rfl, by simpa using atEnd, ?_⟩
          intro front back isBody
          cases front with
          | nil =>
              rw [List.nil_append, List.cons.injEq] at isBody
              rw [List.append_nil]
              exact fun stops => returns ⟨isBody.1, stops⟩
          | cons d front =>
              rw [List.cons_append, List.cons.injEq] at isBody
              rw [← isBody.1]
              simpa using first front back isBody.2
        · rintro ⟨isText, atEnd, first⟩
          cases body with
          | nil =>
              rw [List.nil_append, List.cons.injEq] at isText
              exact absurd ⟨isText.1, by simpa using atEnd⟩ returns
          | cons d body =>
              rw [List.cons_append, List.cons.injEq] at isText
              obtain ⟨rfl, rfl⟩ := isText
              refine ⟨(body, after), (ih _).mpr ⟨rfl, ?_, ?_⟩, rfl⟩
              · simpa using atEnd
              · intro front back isBody
                simpa using first (c :: front) back (by rw [isBody, List.cons_append])

/-- The depth cannot fall below one without a brace that brings it back. -/
theorem one_le_depth {seen body : Text} (isOpen : 1 ≤ depth seen)
    (first : ∀ front back, body = front ++ CodePoint.char '}' :: back → ¬Returns (seen ++ front))
    {front : Text} (isFront : front <+: body) : 1 ≤ depth (seen ++ front) := by
  induction front using List.reverseRecOn with
  | nil => simpa using isOpen
  | append_singleton front c ih =>
      have before := ih ((List.prefix_append front [c]).trans isFront)
      obtain ⟨back, isBody⟩ := isFront
      rw [← List.append_assoc, depth_concat, depthChange]
      split
      · next noneOpen =>
        by_cases isClosing : c = '}'
        · have notReturns := first front back (by rw [← isBody, isClosing]; simp)
          have deeper : depth (seen ++ front) ≠ 1 := fun isOne =>
            notReturns ⟨openBrackets_eq_zero_iff.mp noneOpen, isOne⟩
          have isLess : Directive.braceBalance [c] = -1 := by
            rw [isClosing]
            decide
          omega
        · have notLess : 0 ≤ Directive.braceBalance [c] := by
            simp [Directive.braceBalance, isClosing]
          omega
      · omega

/-! ## Positions -/

/-- The brace at a place closes the block that is opened at another: read from the opening one on,
it stands outside every bracket group and brings the depth back to zero. -/
structure Closes (text : Text) (start place : Nat) : Prop where
  follows : start ≤ place
  isBrace : text[place]? = some (.char '}')
  isOutside : IsOutside (text.extract start place)
  atZero : depth (text.extract start (place + 1)) = 0

/-- The text between two braces: its own braces are balanced, no closing one comes too early, and no
bracket group is left open. -/
structure IsEnclosed (inner : Text) : Prop where
  total : depth inner = 0
  prefixes : ∀ front, front <+: inner → 0 ≤ depth front
  groups : IsOutside inner

variable {text body after : Text} {start place : Nat}

theorem closes_iff :
    Closes text start place ↔ ∃ body after, text.drop start = body ++ CodePoint.char '}' :: after ∧
      place = start + body.length ∧ Returns body := by
  have afterBrace : ∀ body : Text, IsOutside body →
      depth (body ++ [CodePoint.char '}']) = depth body - 1 := by
    intro body outside
    rw [depth_concat, openBrackets_eq_zero_iff.mpr outside, Int.sub_eq_add_neg]
    rfl
  constructor
  · intro closes
    obtain ⟨offset, rfl⟩ := Nat.exists_eq_add_of_le closes.follows
    have atOffset : (text.drop start)[offset]? = some (CodePoint.char '}') := by
      rw [List.getElem?_drop]
      exact closes.isBrace
    obtain ⟨isLess, isBrace⟩ := List.getElem?_eq_some_iff.mp atOffset
    have isRest : text.drop start = (text.drop start).take offset ++
        .char '}' :: (text.drop start).drop (offset + 1) := by
      rw [← isBrace, ← List.drop_eq_getElem_cons isLess, List.take_append_drop]
    have outside := closes.isOutside
    have atZero := closes.atZero
    rw [List.extract, Nat.add_sub_cancel_left] at outside
    rw [List.extract, Nat.add_assoc, Nat.add_sub_cancel_left, List.take_add_one, atOffset,
      Option.toList_some, afterBrace _ outside] at atZero
    refine ⟨_, _, isRest, ?_, outside, by omega⟩
    rw [List.length_take, Nat.min_eq_left isLess.le]
  · rintro ⟨body, after, isRest, rfl, outside, isOne⟩
    have isBody : text.extract start (start + body.length) = body := by
      rw [List.extract, Nat.add_sub_cancel_left, isRest, List.take_left]
    have isWhole : text.extract start (start + body.length + 1) = body ++ [CodePoint.char '}'] := by
      rw [List.extract, Nat.add_assoc, Nat.add_sub_cancel_left, isRest, ← List.singleton_append,
        ← List.append_assoc, List.take_left' (by simp)]
    refine ⟨Nat.le_add_right _ _, ?_, isBody.symm ▸ outside, ?_⟩
    · rw [← List.getElem?_drop, isRest]
      simp
    · rw [isWhole, afterBrace _ outside, isOne]
      rfl

theorem closingPosition_eq_ok :
    closingPosition text start = .ok place ↔
      ∃ body after, splitAtClosing 0 0 (text.drop start) = some (body, after) ∧
        place = start + body.length := by
  rw [closingPosition]
  cases splitAtClosing 0 0 (text.drop start) with
  | none => simp
  | some parts =>
      obtain ⟨body, after⟩ := parts
      simp [eq_comm]

theorem splitAtClosing_drop_eq_some_iff :
    splitAtClosing 0 0 (text.drop start) = some (body, after) ↔
      text.drop start = body ++ CodePoint.char '}' :: after ∧ Returns body ∧
        ∀ front back, body = front ++ CodePoint.char '}' :: back → ¬Returns front :=
  splitAtClosing_eq_some_iff []

theorem closingPosition_eq_ok_iff_isLeast :
    closingPosition text start = .ok place ↔ IsLeast {place | Closes text start place} place := by
  rw [closingPosition_eq_ok]
  constructor
  · rintro ⟨body, after, found, rfl⟩
    obtain ⟨isRest, returns, first⟩ := splitAtClosing_drop_eq_some_iff.mp found
    refine ⟨closes_iff.mpr ⟨body, after, isRest, rfl, returns⟩, ?_⟩
    intro other closes
    obtain ⟨otherBody, otherAfter, isOther, rfl, returnsToo⟩ := closes_iff.mp closes
    rw [isRest] at isOther
    rcases List.append_eq_append_iff.mp isOther with ⟨between, rfl, _⟩ | ⟨between, isBody, sameRest⟩
    · simp
    · cases between with
      | nil => simp [isBody]
      | cons c between =>
          rw [List.cons_append, List.cons.injEq] at sameRest
          exact absurd returnsToo (first otherBody between (by rw [isBody, sameRest.1]))
  · rintro ⟨closes, least⟩
    obtain ⟨body, after, isRest, rfl, returns⟩ := closes_iff.mp closes
    refine ⟨body, after, splitAtClosing_drop_eq_some_iff.mpr ⟨isRest, returns, ?_⟩, rfl⟩
    rintro front back rfl returnsBefore
    have isEarlier : Closes text start (start + front.length) :=
      closes_iff.mpr ⟨front, back ++ .char '}' :: after, by rw [isRest]; simp, rfl, returnsBefore⟩
    have notEarlier := least isEarlier
    simp at notEarlier

/-- There is an error exactly if no brace closes the block. -/
theorem closingPosition_eq_error_iff {error : Error} :
    closingPosition text start = .error error ↔
      (¬∃ place, Closes text start place) ∧
        error = { cause := .missingBrace (Text.lineFeeds (text.take start) + 1),
                  line := some (Text.lineFeeds (text.take start) + 1) } := by
  classical
  have found : (∃ place, Closes text start place) ↔
      ∃ parts, splitAtClosing 0 0 (text.drop start) = some parts := by
    constructor
    · intro closes
      have isLeast : IsLeast {place | Closes text start place} (Nat.find closes) :=
        ⟨Nat.find_spec closes, fun place => Nat.find_min' closes⟩
      obtain ⟨body, after, found, _⟩ :=
        closingPosition_eq_ok.mp (closingPosition_eq_ok_iff_isLeast.mpr isLeast)
      exact ⟨_, found⟩
    · rintro ⟨⟨body, after⟩, found⟩
      obtain ⟨isRest, returns, _⟩ := splitAtClosing_drop_eq_some_iff.mp found
      exact ⟨_, closes_iff.mpr ⟨body, after, isRest, rfl, returns⟩⟩
  rw [found, closingPosition]
  cases splitAtClosing 0 0 (text.drop start) with
  | none => simp [eq_comm]
  | some parts => simp

/-- What stands after the closing brace does not matter. -/
theorem closingPosition_of_take_eq (found : closingPosition text start = .ok place) {other : Text}
    (sameFront : other.take (place + 1) = text.take (place + 1)) :
    closingPosition other start = .ok place := by
  obtain ⟨body, after, splits, rfl⟩ := closingPosition_eq_ok.mp found
  obtain ⟨isRest, returns, first⟩ := splitAtClosing_drop_eq_some_iff.mp splits
  have isWithin : start ≤ (text.take (start + body.length + 1)).length := by
    have restLength := congrArg List.length isRest
    rw [List.length_drop, List.length_append, List.length_cons] at restLength
    rw [List.length_take]
    omega
  have isOther : other.drop start =
      body ++ CodePoint.char '}' :: other.drop (start + body.length + 1) := by
    have isBody : (text.drop start).take (body.length + 1) = body ++ [CodePoint.char '}'] := by
      rw [isRest, ← List.singleton_append, ← List.append_assoc, List.take_left' (by simp)]
    calc other.drop start
        = (text.take (start + body.length + 1) ++
            other.drop (start + body.length + 1)).drop start := by
          rw [← sameFront, List.take_append_drop]
      _ = (text.drop start).take (body.length + 1) ++ other.drop (start + body.length + 1) := by
          rw [List.drop_append_of_le_length isWithin, List.drop_take, Nat.add_assoc,
            Nat.add_sub_cancel_left]
      _ = body ++ CodePoint.char '}' :: other.drop (start + body.length + 1) := by
          rw [isBody, List.append_assoc, List.singleton_append]
  exact closingPosition_eq_ok.mpr
    ⟨body, _, splitAtClosing_drop_eq_some_iff.mpr ⟨isOther, returns, first⟩, rfl⟩

/-- What stands between an opening brace and the one that closes it. -/
theorem isEnclosed_of_readBody {line : Nat} (found : readBody line text = .ok (body, after)) :
    IsEnclosed body := by
  have splits : splitAtClosing (depth [.char '{']) (openBrackets [.char '{']) text =
      some (body, after) := by
    have isOne : depth [.char '{'] = 1 := by decide
    have noneOpen : openBrackets [.char '{'] = 0 := rfl
    rw [isOne, noneOpen]
    rw [readBody] at found
    split at found
    · next parts splits => rw [splits, Except.ok.inj found]
    · simp at found
  obtain ⟨_, ⟨outside, isOne⟩, first⟩ := (splitAtClosing_eq_some_iff _).mp splits
  rw [List.singleton_append] at outside isOne
  rw [(counters_opening body).2] at isOne
  refine ⟨by omega, ?_, ?_⟩
  · intro front isFront
    have positive := one_le_depth (by decide) first isFront
    rw [List.singleton_append, (counters_opening front).2] at positive
    omega
  · rwa [← openBrackets_eq_zero_iff, (counters_opening body).1, openBrackets_eq_zero_iff] at outside

theorem splitAtClosing_opening (text : Text) :
    splitAtClosing 0 0 (.char '{' :: text) =
      (splitAtClosing 1 0 text).map fun parts => (.char '{' :: parts.1, parts.2) := by
  rw [splitAtClosing_cons, if_neg (by decide)]
  rfl

theorem drop_of_opens (opens : text[start]? = some (.char '{')) :
    text.drop start = .char '{' :: text.drop (start + 1) := by
  obtain ⟨isLess, isBrace⟩ := List.getElem?_eq_some_iff.mp opens
  rw [List.drop_eq_getElem_cons isLess, isBrace]

theorem readBody_drop (opens : text[start]? = some (.char '{')) :
    readBody (Text.lineFeeds (text.take start) + 1) (text.drop (start + 1)) =
      (closingPosition text start).map fun place =>
        (text.extract (start + 1) place, text.drop (place + 1)) := by
  rw [readBody, closingPosition, drop_of_opens opens, splitAtClosing_opening]
  cases found : splitAtClosing 1 0 (text.drop (start + 1)) with
  | none => rfl
  | some parts =>
      obtain ⟨body, after⟩ := parts
      have isRest := splitAtClosing_eq_some found
      have isBody : text.extract (start + 1) (start + (body.length + 1)) = body := by
        rw [List.extract, isRest, Nat.add_comm body.length, ← Nat.add_assoc,
          Nat.add_sub_cancel_left, List.take_left]
      have isAfter : text.drop (start + (body.length + 1) + 1) = after := by
        have isLater : start + (body.length + 1) + 1 = start + 1 + (body.length + 1) := by omega
        rw [isLater, ← List.drop_drop, isRest, List.drop_append, List.drop_of_length_le (by simp)]
        simp
      simp only [Option.map_some, Except.map, List.length_cons, isBody, isAfter]

/-- The position of the brace that closes a block. It is the least place outside the bracket groups
whose closing brace brings the depth back to zero, what stands before it is enclosed, and what
stands after it does not matter; there is none exactly if there is an error, which names the line of
the opening brace. The bodies of a source are cut at this position. -/
theorem closingPosition_isLeast (opens : text[start]? = some (.char '{')) :
    (∀ place, closingPosition text start = .ok place ↔
      IsLeast {place | Closes text start place} place) ∧
    (∀ place, closingPosition text start = .ok place →
      IsEnclosed (text.extract (start + 1) place)) ∧
    ((∃ error, closingPosition text start = .error error) ↔ ¬∃ place, Closes text start place) ∧
    (∀ error, closingPosition text start = .error error →
      error.kind = .unterminatedBlock ∧
        error.line = some (Text.lineFeeds (text.take start) + 1)) ∧
    (∀ place, closingPosition text start = .ok place →
      ∀ other : Text, other.take (place + 1) = text.take (place + 1) →
        closingPosition other start = .ok place) ∧
    readBody (Text.lineFeeds (text.take start) + 1) (text.drop (start + 1)) =
      (closingPosition text start).map fun place =>
        (text.extract (start + 1) place, text.drop (place + 1)) := by
  refine ⟨fun place => closingPosition_eq_ok_iff_isLeast, ?_, ?_, ?_, ?_, readBody_drop opens⟩
  · intro place isPlace
    have isBody := readBody_drop opens
    rw [isPlace] at isBody
    exact isEnclosed_of_readBody isBody
  · simp [closingPosition_eq_error_iff]
  · intro error failed
    rw [(closingPosition_eq_error_iff.mp failed).2]
    exact ⟨rfl, rfl⟩
  · exact fun place isPlace other => closingPosition_of_take_eq isPlace

/-- Both outcomes in one text: the outer block has a brace in brackets, a bracket that closes
nothing and a block inside, and the last brace is never closed. -/
theorem closingPosition_isLeast_nested :
    let text : Text := "a\n\x7b ct[\x7d] ] \x7b c \x7d \x7d \x7b"
    (text[2]? = some (.char '{') ∧ closingPosition text 2 = .ok 18 ∧
      IsLeast {place | Closes text 2 place} 18 ∧ IsEnclosed " ct[\x7d] ] \x7b c \x7d ") ∧
    text[20]? = some (.char '{') ∧ ¬∃ place, Closes text 20 place := by
  intro text
  have opens : text[2]? = some (CodePoint.char '{') := by decide
  have opensToo : text[20]? = some (CodePoint.char '{') := by decide
  have found : closingPosition text 2 = .ok 18 := by rfl
  obtain ⟨isLeast, isEnclosed, _⟩ := closingPosition_isLeast opens
  obtain ⟨_, _, failed, _⟩ := closingPosition_isLeast opensToo
  exact ⟨⟨opens, found, (isLeast 18).mp found, isEnclosed 18 found⟩, opensToo,
    failed.mp ⟨_, rfl⟩⟩

end Brace

end TerseStyle

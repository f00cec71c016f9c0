import TerseStyle.Text.Basic

/-!
# Similar texts

How alike two texts are: the longest block that both share is taken, the first one of those, then
what stands before it in both is compared in the same way, and what stands after it. Two texts are
similar if the characters so found make up three fifths of both or more.
-/

namespace TerseStyle

namespace Text

/-- The number of characters that two texts share at their beginnings. -/
def sharedBeginning : Text → Text → Nat
  | a :: left, b :: right => if a = b then sharedBeginning left right + 1 else 0
  | _, _ => 0

/-- A block that two texts share. -/
structure SharedBlock where
  /-- Where it begins in the first text. -/
  left : Nat
  /-- Where it begins in the second text. -/
  right : Nat
  /-- How long it is. -/
  size : Nat
  deriving Repr, DecidableEq

/-- The first of the longest blocks that two texts share. -/
def longestShared (left right : Text) : SharedBlock :=
  let blocks := (List.range left.length).flatMap fun i =>
    (List.range right.length).map fun j =>
      { left := i, right := j, size := sharedBeginning (left.drop i) (right.drop j) }
  blocks.foldl (fun best block => if best.size < block.size then block else best) ⟨0, 0, 0⟩

/-- The number of characters that two texts share in corresponding blocks. The fuel bounds the depth
of the comparison. -/
def sharedWithin : Nat → Text → Text → Nat
  | 0, _, _ => 0
  | fuel + 1, left, right =>
    let block := longestShared left right
    if block.size = 0 then 0
    else
      block.size + sharedWithin fuel (left.take block.left) (right.take block.right) +
        sharedWithin fuel (left.drop (block.left + block.size))
          (right.drop (block.right + block.size))

/-- The number of characters that two texts share; every comparison is of shorter texts. -/
def shared (left right : Text) : Nat :=
  sharedWithin (left.length + 1) left right

/-- Whether the shared characters make up three fifths of both texts. -/
def isSimilar (left right : Text) : Bool :=
  3 * (left.length + right.length) ≤ 10 * shared left right

end Text

end TerseStyle

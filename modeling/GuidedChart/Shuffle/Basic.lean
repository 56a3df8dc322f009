import GuidedChart.Shuffle.Keystream

/-!
# Shuffles

A list in an order drawn from a stream of words. From the last place down, each item changes places
with one drawn among the items up to it. Main statement: a shuffle loses nothing and adds nothing
(`shuffle_perm`).
-/

namespace GuidedChart

/-- A number below the bound, drawn from the stream at a position, and the position behind what was
read. A word times the bound has the number in its upper half; words whose lower half lies beyond a
multiple of the bound are passed over, so that every number is as likely as any other. At most one
word in two is passed over, and the fuel bounds how many in a row. -/
def drawBelow (word : Nat → UInt32) (bound : Nat) : Nat → Nat → Nat × Nat
  | 0, position => (0, position)
  | fuel + 1, position =>
    let zone := bound * Nat.pow 2 (31 - Nat.log2 bound) - 1
    let product := (word position).toNat * bound
    if product % 0x100000000 ≤ zone then (product / 0x100000000, position + 1)
    else drawBelow word bound fuel (position + 1)

/-- The items with those up to a place shuffled, with draws from a position on. -/
def shuffleUpTo (word : Nat → UInt32) : Nat → Nat → Array α → Array α
  | 0, _, items => items
  | place + 1, position, items =>
    let (other, position) := drawBelow word (place + 2) 64 position
    shuffleUpTo word place position (items.swapIfInBounds (place + 1) other)

/-- The items in the order that a seed gives them. -/
def shuffle (seed : Nat) (items : List α) : List α :=
  let key := Keystream.key (UInt64.ofNat seed)
  (shuffleUpTo (Keystream.word key) (items.length - 1) 0 items.toArray).toList

theorem swapIfInBounds_perm (items : Array α) (i j : Nat) :
    (items.swapIfInBounds i j).Perm items := by
  unfold Array.swapIfInBounds
  split
  · split
    · exact Array.swap_perm _ _
    · exact .refl _
  · exact .refl _

theorem shuffleUpTo_perm (word : Nat → UInt32) (place position : Nat) (items : Array α) :
    (shuffleUpTo word place position items).Perm items := by
  induction place generalizing position items with
  | zero => exact .refl _
  | succ place ih => exact (ih _ _).trans (swapIfInBounds_perm _ _ _)

theorem shuffle_perm (seed : Nat) (items : List α) : (shuffle seed items).Perm items := by
  simpa [shuffle] using (shuffleUpTo_perm (Keystream.word (Keystream.key (UInt64.ofNat seed)))
    (items.length - 1) 0 items.toArray).toList

end GuidedChart

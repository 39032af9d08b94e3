/-!
# Sets of characters given by ranges

A set of characters is stored as its runs of consecutive code points.
-/

namespace FeedStore.Text

/-- Some range from a first to a last code point holds the character. -/
def inRanges (ranges : Array (Nat × Nat)) (c : Char) : Bool :=
  ranges.any fun r => r.1 ≤ c.toNat && c.toNat ≤ r.2

end FeedStore.Text

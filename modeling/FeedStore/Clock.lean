/-!
# The clock

Times are whole seconds in signed words of 64 bits. A clock stands still until it is set or moved, and
moving it past either end of the range comes out at the other end.
-/

namespace FeedStore.Clock

/-- The clock moved by so many seconds. -/
def advance (now seconds : Int) : Int := (now + seconds).bmod (Nat.pow 2 64)

end FeedStore.Clock

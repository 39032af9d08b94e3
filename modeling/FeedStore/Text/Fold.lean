/-!
# Folding of ASCII letters

Searching and sorting fold the letters `A` to `Z` to lower case and leave every other character as
it is. Some comparisons see a text only up to its first `U+0000`.
-/

namespace FeedStore.Text

/-- The letters `A` to `Z` in lower case, every other character unchanged. -/
def fold (c : Char) : Char := c.toLower

/-- Each letter `A` to `Z` of the text in lower case. -/
def foldChars (cs : List Char) : List Char := cs.map fold

/-- The characters in front of the first `U+0000`. -/
def beforeNul (cs : List Char) : List Char := cs.takeWhile (· ≠ '\x00')

/-- Titles are listed by their folded characters up to the first `U+0000`, and among equal ones the
text with fewer bytes comes first. -/
def compareFolded (a b : String) : Ordering :=
  (compare (String.ofList (foldChars (beforeNul a.toList)))
    (String.ofList (foldChars (beforeNul b.toList)))).then (compare a.utf8ByteSize b.utf8ByteSize)

/-- A text without `U+0000` is seen whole. -/
theorem beforeNul_eq_self {cs : List Char} (h : '\x00' ∉ cs) : beforeNul cs = cs := by
  induction cs with
  | nil => rfl
  | cons c cs ih =>
    simp only [List.mem_cons, not_or] at h
    have hc : c ≠ '\x00' := fun e => h.1 e.symm
    rw [beforeNul, List.takeWhile_cons_of_pos (by simpa using hc)]
    exact congrArg (c :: ·) (ih h.2)

end FeedStore.Text

/-!
# Occurrence of a text within a text

The case-sensitive search asks whether a text occurs as a run of neighbouring characters.
-/

namespace FeedStore.Text

/-- `q` occurs in the given characters as a run of neighbours. -/
def occursIn (q : List Char) : List Char → Bool
  | [] => q.isEmpty
  | c :: cs => q.isPrefixOf (c :: cs) || occursIn q cs

/-- `occursIn` decides the library's relation of a list to the lists that contain it. -/
theorem occursIn_iff {q cs : List Char} : occursIn q cs = true ↔ q <:+: cs := by
  induction cs with
  | nil => simp [occursIn]
  | cons c cs ih => simp [occursIn, ih, List.infix_cons_iff]

end FeedStore.Text

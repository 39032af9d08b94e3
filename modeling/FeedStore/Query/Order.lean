import FeedStore.Store

/-!
# The order of a listing

A listing is sorted by terms: the first term decides, the next one among the rows that are equal in
it, and so on. Texts are compared by their code points. Rows that are equal in every term stay in the
order of their identifiers, in which they come from the store.
-/

namespace FeedStore

/-- What a listing can be sorted by. -/
inductive SortField where
  | id
  | status
  | title
  | author
  | publishedAt
  | createdAt
  | changedAt
  | readingTime
  | feedTitle
  deriving DecidableEq, Repr

/-- Whether small values come first or last. -/
inductive Direction where
  | ascending
  | descending
  deriving DecidableEq, Repr

def SortField.compare (f : SortField) (a b : Listed) : Ordering :=
  match f with
  | id => Ord.compare a.entry.id b.entry.id
  | status => Ord.compare a.entry.status.text b.entry.status.text
  | title => Ord.compare a.entry.title b.entry.title
  | author => Ord.compare a.entry.author b.entry.author
  | publishedAt => Ord.compare a.entry.publishedAt b.entry.publishedAt
  | createdAt => Ord.compare a.entry.createdAt b.entry.createdAt
  | changedAt => Ord.compare a.entry.changedAt b.entry.changedAt
  | readingTime => Ord.compare a.entry.readingTime b.entry.readingTime
  | feedTitle => Ord.compare a.feed.title b.feed.title

/-- A field and the direction in which its values are listed. -/
structure SortTerm where
  field : SortField
  direction : Direction
  deriving DecidableEq, Repr

def SortTerm.compare (t : SortTerm) (a b : Listed) : Ordering :=
  match t.direction with
  | .ascending => t.field.compare a b
  | .descending => t.field.compare b a

namespace SortTerm

/-- Compares two rows in each term until one tells them apart. -/
def compareAll : List SortTerm → Listed → Listed → Ordering
  | [], _, _ => .eq
  | t :: ts, a, b => (t.compare a b).then (compareAll ts a b)

def sort (ts : List SortTerm) (ls : List Listed) : List Listed :=
  ls.mergeSort fun a b => (compareAll ts a b).isLE

theorem sort_perm (ts : List SortTerm) (ls : List Listed) : (sort ts ls).Perm ls :=
  List.mergeSort_perm ls _

theorem mem_sort {ts : List SortTerm} {ls : List Listed} {l : Listed} :
    l ∈ sort ts ls ↔ l ∈ ls :=
  (sort_perm ts ls).mem_iff

@[simp] theorem length_sort (ts : List SortTerm) (ls : List Listed) :
    (sort ts ls).length = ls.length :=
  (sort_perm ts ls).length_eq

end SortTerm

end FeedStore

import FeedStore.Query.Basic

/-!
# The neighbours of an entry

A reader who looks at one entry, the anchor, of a listing asks for the entries before and after it.
The listing is sorted by a time, ascending, and entries of equal time by identifier, descending. The
entry before the anchor is the last of those that come before it, and the entry after it the first of
those that come after it; among entries of equal time the search prefers the time of creation to the
identifier. A descending listing is the same one read backwards, so its neighbours change places.
-/

namespace FeedStore

/-- The time that a reader goes along. -/
inductive Timeline where
  | publication
  | creation
  | change
  deriving DecidableEq, Repr

def Timeline.time (t : Timeline) (e : Entry) : Int :=
  match t with
  | publication => e.publishedAt
  | creation => e.createdAt
  | change => e.changedAt

/-- One of the two neighbours, on an ascending listing. -/
inductive Side where
  | before
  | after
  deriving DecidableEq, Repr

/-- What a reader goes along: the conditions of a listing, the anchor, the time and the direction. -/
structure Trail where
  user : Id
  anchor : Id
  timeline : Timeline
  direction : Direction
  /-- In the order in which they were added. -/
  conditions : List Condition := []
  deriving Repr

namespace Trail

/-- The query for the entries of the listing: those of the user that are not removed and satisfy the
conditions. -/
def query (t : Trail) : Query :=
  { user := t.user, conditions := .statusNot .removed :: t.conditions }

/-- Adds the conditions of a query to the trail, which are built in the same way. -/
def having (t : Trail) (build : Query → Query) : Trail :=
  { t with conditions := (build { user := t.user, conditions := t.conditions }).conditions }

/-- The time of the anchor, if the user has such an entry. -/
def anchorTime? (t : Trail) (s : Store) : Option Int :=
  (s.entries.find? fun e => e.id == t.anchor && e.userId == t.user).map t.timeline.time

/-- The entry lies on that side of the anchor, whose time is given. -/
def liesOn (t : Trail) (side : Side) (time : Int) (e : Entry) : Bool :=
  match side with
  | .before => decide (t.timeline.time e < time)
      || (t.timeline.time e == time && decide (t.anchor < e.id))
  | .after => decide (time < t.timeline.time e)
      || (t.timeline.time e == time && decide (e.id < t.anchor))

/-- Compares two entries by their nearness to an anchor on whose given side both lie: the nearer one is
smaller. -/
def compareNearness (t : Trail) (side : Side) (a b : Entry) : Ordering :=
  match side with
  | .before => (compare (t.timeline.time b) (t.timeline.time a)).then
      ((compare b.createdAt a.createdAt).then (compare a.id b.id))
  | .after => (compare (t.timeline.time a) (t.timeline.time b)).then
      ((compare a.createdAt b.createdAt).then (compare b.id a.id))

/-- The nearer of two entries, the first one if they are equally near. -/
def nearer (t : Trail) (side : Side) (a b : Listed) : Listed :=
  if (t.compareNearness side a.entry b.entry).isLE then a else b

def nearest? (t : Trail) (side : Side) : List Listed → Option Listed
  | [] => none
  | l :: ls => some (ls.foldl (t.nearer side) l)

/-- The engine keeps an index for the time, so that it looks only at the entries on one side. -/
def isIndexed (t : Trail) : Bool :=
  match t.timeline with
  | .publication | .creation => true
  | .change => false

/-- The rows on a side of the anchor that satisfy the conditions. -/
def found (t : Trail) (side : Side) (time : Int) (s : Store) : Except Fault (List Listed) :=
  let conditions := Condition.inTestOrder t.query.allConditions
  let onSide := fun l : Listed => t.liesOn side time l.entry
  if t.isIndexed then Condition.select conditions (s.listed.filter onSide)
  else (Condition.select conditions s.listed).map (·.filter onSide)

def neighbour? (t : Trail) (side : Side) (time : Int) (s : Store) : Except Fault (Option Sibling) :=
  (t.found side time s).map fun ls =>
    (t.nearest? side ls).map fun l => ⟨l.entry.id, l.entry.title⟩

/-- What a statement for a neighbour takes up: it compares time twice and the identifier once, and nests
five levels deep for that. It is sorted by time, time of creation and identifier. -/
def extent (t : Trail) : Extent :=
  { values := t.query.values + 3
    depth := max (Condition.depth t.query.allConditions) 7 + 1
    terms := 3 }

end Trail

end FeedStore

import FeedStore.Operation.Enclosures
import FeedStore.Query.Neighbour

/-!
# Answering queries

The four ways to answer a query (a number, identifiers, entries, one entry) and the way to answer a
trail. Every entry is given with its enclosures.
-/

namespace FeedStore.Action

/-- The tables that a listing is read from. -/
def listingTables : List TableName := [.entries, .feeds, .categories]

/-- The number of entries that a query finds, whatever its limit and offset. -/
def countEntries (q : Query) : Action Nat :=
  readWithin q.countExtent "unable to count entries" listingTables fun s =>
    (q.found s).map (·.length)

def entryIds (q : Query) : Action (List Id) :=
  readWithin q.pageExtent "unable to fetch entry ids" listingTables fun s =>
    (q.page s).map fun ls => ls.map (·.entry.id)

/-- The rows as a reader gets them, or the first row's error. -/
def views : List Listed → Action (List EntryView)
  | [] => pure []
  | l :: ls =>
    match l.view with
    | .ok view => do return view :: (← views ls)
    | .error e => throw e

def entries (q : Query) : Action (List EntryView) := do
  let found ← readWithin q.pageExtent "unable to fetch entries" listingTables q.page
  attachEnclosures (← views found)

/-- The first entry that a query asks for, whatever its limit. -/
def firstEntry (q : Query) : Action (Option EntryView) := do
  return (← entries { q with limit := some 1 }).head?

def countUnread (user : Id) : Action Nat :=
  countEntries (({ user } : Query).withStatus .unread).withShown

def neighbour (t : Trail) (side : Side) (time : Int) : Action (Option Sibling) :=
  readWithin t.extent "unable to fetch sibling entry" listingTables (t.neighbour? side time)

/-- The neighbours of the anchor on an ascending listing. There are none if the user has no such
entry. -/
def ascendingNeighbours (t : Trail) : Action (Option Sibling × Option Sibling) := do
  match ← read ("unable to resolve pagination anchor #" ++ toString t.anchor) [.entries]
      t.anchorTime? with
  | none => return (none, none)
  | some time => return (← neighbour t .before time, ← neighbour t .after time)

/-- The entries before and after the anchor of a trail, in the trail's direction. -/
def neighbours (t : Trail) : Action (Option Sibling × Option Sibling) := do
  let (before, after) ← transaction .pagination (ascendingNeighbours t)
  match t.direction with
  | .ascending => return (before, after)
  | .descending => return (after, before)

def ping : Action Unit := read "unable to ping database" [] fun _ => ()

def version (text : String) : Action String :=
  read "unable to fetch database version" [] fun _ => text

end FeedStore.Action

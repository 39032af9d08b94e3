import FeedStore.Query.Condition
import FeedStore.Query.Order
import FeedStore.Session

/-!
# Queries

A query asks for the entries of one user that satisfy its conditions, in the order of its sort terms,
without the first `offset` of them and at most `limit` of the rest. Conditions and terms are added one
at a time; an addition that says nothing (an identifier that no row can have, an empty text, a limit
that is not positive) leaves the query as it is. An empty list of entries, however, is a condition that
nothing satisfies.
-/

namespace FeedStore

/-- A question about the entries of one user. -/
structure Query where
  user : Id
  /-- In the order in which they were added. -/
  conditions : List Condition := []
  /-- The deciding one first. -/
  terms : List SortTerm := []
  limit : Option Int := none
  offset : Option Int := none
  deriving Repr

namespace Query

/-- Every condition, that on the user first. -/
def allConditions (q : Query) : List Condition := .user q.user :: q.conditions

/-! ## Building a query -/

def having (q : Query) (c : Condition) : Query := { q with conditions := q.conditions ++ [c] }

def withStatus (q : Query) (s : Status) : Query := q.having (.status s)

/-- No status at all is no condition. -/
def withStatuses (q : Query) (ss : List Status) : Query :=
  if ss = [] then q else q.having (.statusIn ss)

def withoutStatus (q : Query) (s : Status) : Query := q.having (.statusNot s)

def withFeed (q : Query) (id : Id) : Query := if id ≤ 0 then q else q.having (.feed id)

def withCategory (q : Query) (id : Id) : Query := if id ≤ 0 then q else q.having (.category id)

def withStarred (q : Query) (starred : Bool) : Query := q.having (.starred starred)

/-- Every one of the tags is a condition of its own. -/
def withTags (q : Query) (tags : List String) : Query :=
  tags.foldl (fun q t => q.having (.tag t)) q

def withSearch (q : Query) (text : String) : Query :=
  if text = "" then q else q.having (.search text)

def withExactSearch (q : Query) (text : String) : Query :=
  if text = "" then q else q.having (.searchExact text)

def withShown (q : Query) : Query := q.having .shown

def withEntry (q : Query) (id : Id) : Query := q.having (.entry id)

def withEntries (q : Query) (ids : List Id) : Query := q.having (.entryIn ids)

def withShareCode (q : Query) (code : String) : Query := q.having (.shareCode code)

def publishedAfter (q : Query) (time : Int) : Query := q.having (.publishedAfter time)

def publishedBefore (q : Query) (time : Int) : Query := q.having (.publishedBefore time)

def createdAfter (q : Query) (time : Int) : Query := q.having (.createdAfter time)

def changedAfter (q : Query) (time : Int) : Query := q.having (.changedAfter time)

/-- Adds a sort term behind those that are there. -/
def sortedBy (q : Query) (field : SortField) (direction : Direction) : Query :=
  { q with terms := q.terms ++ [⟨field, direction⟩] }

/-- The later of two limits counts. -/
def withLimit (q : Query) (n : Int) : Query := if n ≤ 0 then q else { q with limit := some n }

/-- The later of two offsets counts. -/
def withOffset (q : Query) (n : Int) : Query := if n ≤ 0 then q else { q with offset := some n }

/-! ## Answering a query -/

/-- The rows that satisfy every condition, in ascending order of their identifiers. -/
def found (q : Query) (s : Store) : Except Fault (List Listed) :=
  let conditions := Condition.inTestOrder q.allConditions
  if conditions.contains (.entryIn []) then .ok []
  else Condition.select conditions s.listed

/-- The part of a sorted listing that limit and offset leave. -/
def cut (q : Query) (ls : List Listed) : List Listed :=
  let rest := ls.drop (q.offset.getD 0).toNat
  match q.limit with
  | some n => rest.take n.toNat
  | none => rest

/-- The listing that the query asks for. -/
def page (q : Query) (s : Store) : Except Fault (List Listed) :=
  (q.found s).map fun ls => q.cut (SortTerm.sort q.terms ls)

def values (q : Query) : Nat := (q.allConditions.map Condition.values).foldr (· + ·) 0

/-- What a statement for the conditions alone takes up. -/
def countExtent (q : Query) : Extent :=
  { values := q.values, depth := Condition.depth q.allConditions }

/-- What a statement for the listing takes up: limit and offset are bound as well, and it is sorted. -/
def pageExtent (q : Query) : Extent :=
  { values := q.values + q.limit.toList.length + q.offset.toList.length
    depth := Condition.depth q.allConditions
    terms := q.terms.length }

end Query

end FeedStore

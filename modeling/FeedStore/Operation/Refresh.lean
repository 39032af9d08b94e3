import FeedStore.Operation.Enclosures

/-!
# Refreshing a feed

A refresh compares a freshly fetched batch of candidates with the stored entries of the feed, one
candidate after the other, each in a transaction of its own. A hash that the feed does not have yet
becomes a new entry; one that it has is refreshed if the caller asks for it, and left alone otherwise.
The first candidate that fails ends the refresh: what came before it stays, it leaves no trace itself,
and no sweep is put off. A refresh that goes through puts off one sweep with every hash of the batch.
-/

namespace FeedStore.Action

def itemExists (feed : Id) (hash : String) : Action Bool :=
  read ("unable to check if entry exists (feed #" ++ toString feed ++ ")") [.entries]
    fun s => (s.item? feed hash).isSome

/-- The entry as a reader gets it, without its enclosures. -/
def fetchEntry (id : Id) : Action EntryView := do
  let listed ← readWithin {} ("unable to fetch entry #" ++ toString id)
    [.entries, .feeds, .categories] (·.listedEntry id)
  match listed.view with
  | .ok view => return view
  | .error e => throw e

/-- Stores a candidate as a new entry and gives it as a reader gets it. -/
def createEntry (user feed : Id) (c : Candidate) : Action EntryView := do
  let time ← now
  let id ← write
    ("unable to create entry " ++ Text.quoted c.url ++ " (feed #" ++ toString feed ++ ")")
    (.insert .entries) (·.addEntry user feed c time)
  let enclosures ← putEnclosures user id c.enclosures []
  let view ← fetchEntry id
  return { view with enclosures }

/-- Refreshes the entry that a candidate stands for. -/
def updateEntry (user feed : Id) (c : Candidate) : Action Unit := do
  let time ← now
  match ← change
      ("unable to update entry " ++ Text.quoted c.url ++ " (feed #" ++ toString feed ++ ")")
      (.update .entries []) (·.refreshEntry user feed c time) with
  | some id => updateEnclosures user id c.enclosures
  | none => throw .nothingUpdated

/-- Compares one candidate with the store. The result is the entry that it has become, if it is new. -/
def reconcile (user feed : Id) (update : Bool) (c : Candidate) : Action (Option EntryView) := do
  if ← itemExists feed c.hash then
    if update then updateEntry user feed c
    return none
  else
    return some (← createEntry user feed c)

/-- Compares the candidates with the store, each in a transaction of its own, and gives the new
entries. -/
def reconcileAll (user feed : Id) (update : Bool) : List Candidate → Action (List EntryView)
  | [] => pure []
  | c :: cs => do
    let created ← transaction .refresh (reconcile user feed update c)
    return created.toList ++ (← reconcileAll user feed update cs)

/-- Refreshes a feed with a batch of candidates and gives the new entries in the order of the batch. -/
def refreshFeed (user feed : Id) (candidates : List Candidate) (update : Bool) :
    Action (List EntryView) := do
  let created ← reconcileAll user feed update candidates
  putOff (.sweep feed (candidates.map (·.hash)))
  return created

/-- The feed has no entry with that hash yet. -/
def isNewEntry (feed : Id) (hash : String) : Action Bool := do
  if !(← get).access.isOpen then throw (.ofConnectionFault .closed)
  return !(← itemExists feed hash)

/-- How long reading the entry takes, and zero for an entry that is not there. -/
def readingTime (feed : Id) (hash : String) : Action Int :=
  read "unable to fetch entry reading time" [.entries]
    fun s => ((s.item? feed hash).map (·.readingTime)).getD 0

/-- Overwrites title, content and reading time of an entry. -/
def updateText (user id : Id) (title content : String) (readingTime : Int) : Action Unit := do
  let time ← now
  orNothing (← change ("unable to update entry #" ++ toString id) (.update .entries [])
    (·.modifyEntries (Entry.isOwn user id) fun e =>
      { e with title, content, readingTime, changedAt := time }))

end FeedStore.Action

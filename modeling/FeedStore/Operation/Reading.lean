import FeedStore.Session
import FeedStore.Store.Reading

/-!
# Operations of readers

Setting a status or a star on many entries reaches the listed entries that belong to the user and
passes over the others. Marking as read moves unread entries of a user to read, by scope. An entry is
shared under a code that is drawn on first use and kept until sharing ends.
-/

namespace FeedStore.Action

/-! ## Status and star -/

def setStatus (user : Id) (ids : List Id) (status : Status) : Action Unit := do
  if ids = [] then return
  let time ← now
  let _ ← writeWithin { values := ids.length + 3 }
    ("unable to update entries statuses " ++ idList ids) (.update .entries [])
    fun s => .ok (s.setStatus user ids status time)

/-- Sets the status of the listed entries of a user and counts those that are shown on global lists. -/
def setStatusCount (user : Id) (ids : List Id) (status : Status) : Action Nat := do
  if ids = [] then return 0
  setStatus user ids status
  readWithin { values := ids.length + 1 } "unable to count visible entries"
    [.entries, .feeds, .categories] fun s => .ok (s.countShown user ids)

def setStar (user : Id) (ids : List Id) (starred : Bool) : Action Unit := do
  if ids = [] then return
  let time ← now
  orNothing (← writeWithin { values := ids.length + 3 }
    ("unable to update bookmark state " ++ idList ids) (.update .entries [])
    fun s => .ok (s.setStar user ids starred time))

/-- Stars an entry of a user that has no star and unstars one that has. -/
def toggleStar (user id : Id) : Action Unit := do
  let time ← now
  orNothing (← change ("unable to toggle bookmark of entry #" ++ toString id) (.update .entries [])
    (·.toggleStar user id time))

/-! ## Marking as read -/

/-- Marks the unread entries of a user that satisfy `p` as read; `p` may consult the given tables. -/
def markRead (context : String) (consulted : List TableName) (user : Id)
    (p : Store → Entry → Bool) : Action Nat := do
  let time ← now
  change context (.update .entries consulted) fun s => s.markRead user (p s) time

def markAll (user : Id) : Action Nat :=
  markRead "unable to mark all entries as read" [] user fun _ _ => true

def markAllBefore (user : Id) (before : Int) : Action Nat :=
  markRead "unable to mark entries as read" [] user fun _ e => decide (e.publishedAt < before)

def markFeed (user feed : Id) (before : Int) : Action Nat :=
  markRead ("unable to mark feed #" ++ toString feed ++ " as read") [] user fun _ e =>
    e.feedId == feed && decide (e.publishedAt < before)

/-- Marks what was published before a moment in the user's feeds of one category. -/
def markCategory (user category : Id) (before : Int) : Action Nat :=
  markRead ("unable to mark category #" ++ toString category ++ " as read") [.feeds] user fun s e =>
    decide (e.publishedAt < before) && s.isFeedIn user category e.feedId

/-- Marks what lies in the user's feeds that are shown on global lists. -/
def markShown (user : Id) : Action Nat :=
  markRead "unable to mark visible feeds as read" [.feeds, .categories] user fun s e =>
    s.isShownFeedOf user e.feedId

/-! ## Sharing -/

/-- The share code that an entry carries, if the user has that entry. -/
def fetchShareCode (user id : Id) : Action (Option String) :=
  read ("unable to fetch share code of entry #" ++ toString id) [.entries] (·.shareCode? user id)

def storeShareCode (user id : Id) (code : String) : Action Unit := do
  let _ ← write ("unable to set share code of entry #" ++ toString id) (.update .entries [])
    (·.setShareCode user id code)

/-- The share code of an entry, `drawn` if it has none yet. There is no code for an entry that the
user does not have. -/
def share (user id : Id) (drawn : String) : Action (Option String) := do
  match ← fetchShareCode user id with
  | none => return none
  | some code =>
    if code ≠ "" then return some code
    storeShareCode user id drawn
    return some drawn

def unshare (user id : Id) : Action Unit := do
  orNothing (← write ("unable to remove share code of entry #" ++ toString id)
    (.update .entries []) (·.setShareCode user id ""))

/-! ## Numbers -/

/-- The numbers of all entries by status. -/
def countAll : Action EntryCounts := do
  match ← read "unable to count entries" [.entries] (·.entryCounts) with
  | .ok counts => return counts
  | .error e => throw e

end FeedStore.Action

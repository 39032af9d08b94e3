import FeedStore.Operation.Retention
import FeedStore.Operation.Subscription
import FeedStore.Background.Queue

/-!
# Removing feeds and running what was put off

A feed is removed after its entries, which go in batches so that no single statement is long. A user
can be removed in the background, feed by feed. Work that was put off runs when somebody asks for it;
work that belongs to a store that has been closed since finds it closed.
-/

namespace FeedStore

namespace Action

/-- So many entries are erased by one statement. -/
def eraseBatch : Nat := 500

/-- Erases the entries of a user in a feed, a batch at a time, until a batch finds none; at most
`batches` of them. -/
def eraseEntries (user feed : Id) : Nat → Action Unit
  | 0 => pure ()
  | batches + 1 => do
    let erased ← change ("unable to delete entries of feed #" ++ toString feed)
      (.delete .entries [.entries])
      (·.removeEntriesUpTo eraseBatch fun e => e.userId == user && e.feedId == feed)
    if erased = 0 then return
    eraseEntries user feed batches

/-- Removes a feed with its entries. As many batches as there are entries, and one more, always
suffice. -/
def removeFeed (user feed : Id) : Action Unit := do
  eraseEntries user feed ((← get).store.entries.rows.length + 1)
  orNothing (← change ("unable to remove feed #" ++ toString feed) (.delete .feeds [])
    (·.removeFeed user feed))

def feedIds (user : Id) : Action (List Id) :=
  read ("unable to list feeds of user #" ++ toString user) [.feeds]
    (·.feedIds (·.userId == user))

/-- Removes feeds one after the other. -/
def removeFeeds (user : Id) : List Id → Action Unit
  | [] => pure ()
  | feed :: feeds => do
    removeFeed user feed
    removeFeeds user feeds

/-- Removes the feeds of a user and then the user. -/
def removeUserByFeeds (user : Id) : Action Unit := do
  removeFeeds user (← feedIds user)
  removeUser user

def removeUserLater (user : Id) : Action Unit := putOff (.removeUser user)

/-- Does work that was put off. -/
def doWork : Work → Action Unit
  | .sweep feed hashes => do let _ ← sweep feed hashes
  | .removeUser user => removeUserByFeeds user

end Action

namespace Session

/-- Runs one job. A stale job finds its store closed, whatever the store of the session does now. -/
def runJob (job : Job) (s : Session) : Background.Ending × Session :=
  if job.stale then
    let (result, _) := (Action.doWork job.work).perform { s with access.isOpen := false }
    (.ofExcept result, s)
  else
    let (result, s) := (Action.doWork job.work).perform s
    (.ofExcept result, s)

/-- Runs the jobs that wait now, oldest first. -/
def runPending (s : Session) : List Background.Report × Session :=
  Background.runAll (·.work.name) runJob s.jobs { s with jobs := [] }

end Session

end FeedStore

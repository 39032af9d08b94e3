import FeedStore.Operation.Listing
import FeedStore.Operation.Reading
import FeedStore.Operation.Refresh
import FeedStore.Operation.Removal

/-!
# Runs of a session

A command is an operation that can change a session, with its arguments, or the clock moving, or the
work that was put off being done. `Reachable` sessions are those that some run of commands makes out of
a new one; what holds of a new session and is kept by every command holds of all of them
(`Reachable.invariant`). Operations that only read are no commands, since they leave the session as it
is.
-/

namespace FeedStore

/-- One step of a run. -/
inductive Command where
  | createUser (username : String)
  | removeUser (user : Id)
  | removeUserLater (user : Id)
  | createCategory (user : Id) (title : String) (hide : Bool)
  | hideCategory (user category : Id) (hide : Bool)
  | removeCategory (user category : Id)
  | createFeed (user : Id) (offer : FeedOffer)
  | hideFeed (user feed : Id) (hide : Bool)
  | updateFetchState (user feed : Id) (state : FetchState)
  | recordFeedError (user feed : Id) (message : String) (nextCheckAt : Int)
  | resetFeedErrors (user : Id)
  | removeFeed (user feed : Id)
  | refreshFeed (user feed : Id) (candidates : List Candidate) (update : Bool)
  | updateText (user entry : Id) (title content : String) (readingTime : Int)
  | updateProgression (user enclosure : Id) (seconds : Int)
  | sweep (feed : Id) (hashes : List String)
  | setStatus (user : Id) (entries : List Id) (status : Status)
  | setStatusCount (user : Id) (entries : List Id) (status : Status)
  | setStar (user : Id) (entries : List Id) (starred : Bool)
  | toggleStar (user entry : Id)
  | archive (status : Status) (days limit : Int)
  | flushHistory (user : Id)
  | markAll (user : Id)
  | markAllBefore (user : Id) (before : Int)
  | markFeed (user feed : Id) (before : Int)
  | markCategory (user category : Id) (before : Int)
  | markShown (user : Id)
  /-- Shares an entry; `drawn` is the code that is drawn if one is needed. -/
  | share (user entry : Id) (drawn : String)
  | unshare (user entry : Id)
  | runPending
  | setClock (now : Int)
  deriving Repr

namespace Command

/-- What is left of an action when its answer is ignored. -/
def after {α : Type} (a : Action α) (s : Session) : Session := (a.perform s).2

/-- The session after one more step. -/
def next : Command → Session → Session
  | createUser username => after (.createUser username)
  | removeUser user => after (.removeUser user)
  | removeUserLater user => after (.removeUserLater user)
  | createCategory user title hide => after (.createCategory user title hide)
  | hideCategory user category hide => after (.hideCategory user category hide)
  | removeCategory user category => after (.removeCategory user category)
  | createFeed user offer => after (.createFeed user offer)
  | hideFeed user feed hide => after (.hideFeed user feed hide)
  | updateFetchState user feed state => after (.updateFetchState user feed state)
  | recordFeedError user feed message nextCheckAt =>
    after (.recordFeedError user feed message nextCheckAt)
  | resetFeedErrors user => after (.resetFeedErrors user)
  | removeFeed user feed => after (.removeFeed user feed)
  | refreshFeed user feed candidates update => after (.refreshFeed user feed candidates update)
  | updateText user entry title content readingTime =>
    after (.updateText user entry title content readingTime)
  | updateProgression user enclosure seconds => after (.updateProgression user enclosure seconds)
  | sweep feed hashes => after (.sweep feed hashes)
  | setStatus user entries status => after (.setStatus user entries status)
  | setStatusCount user entries status => after (.setStatusCount user entries status)
  | setStar user entries starred => after (.setStar user entries starred)
  | toggleStar user entry => after (.toggleStar user entry)
  | archive status days limit => after (.archive status days limit)
  | flushHistory user => after (.flushHistory user)
  | markAll user => after (.markAll user)
  | markAllBefore user before => after (.markAllBefore user before)
  | markFeed user feed before => after (.markFeed user feed before)
  | markCategory user category before => after (.markCategory user category before)
  | markShown user => after (.markShown user)
  | share user entry drawn => after (.share user entry drawn)
  | unshare user entry => after (.unshare user entry)
  | runPending => fun s => s.runPending.2
  | setClock now => fun s => { s with now }

end Command

/-- The session can come out of a new one by a run of commands. -/
inductive Reachable : Session → Prop
  | fresh (now : Int) : Reachable { now }
  | step {s : Session} (c : Command) : Reachable s → Reachable (c.next s)

/-- What holds of a new session and is kept by every command holds of every reachable one. -/
theorem Reachable.invariant {P : Session → Prop} (fresh : ∀ now, P { now })
    (step : ∀ s c, P s → P (Command.next c s)) {s : Session} (h : Reachable s) : P s := by
  induction h with
  | fresh now => exact fresh now
  | step c _ ih => exact step _ c ih

end FeedStore

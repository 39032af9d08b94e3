import FeedStore.Session
import FeedStore.Store.Reading

/-!
# Retention

Old entries are archived, and read ones flushed, by moving them to the removed status. A sweep erases
the removed entries of a feed that its latest fetch no longer lists; no other entry is ever swept, and
a fetch that lists nothing sweeps nothing.
-/

namespace FeedStore.Action

def secondsPerDay : Int := 86400

/-- The number fits into a signed word of 64 bits. -/
def isWord (n : Int) : Bool := decide (-Int.pow 2 63 ≤ n) && decide (n < Int.pow 2 63)

/-- The moment that many days ago, if it can be represented. -/
def cutoff? (now days : Int) : Option Int :=
  let span := days * secondsPerDay
  if isWord span && isWord (now - span) then some (now - span) else none

/-- Archives the oldest unprotected entries of a status that were created more than so many days ago,
at most `limit` of them. -/
def archive (status : Status) (days limit : Int) : Action Nat := do
  if days < 0 || limit ≤ 0 then return 0
  let time ← now
  match cutoff? time days with
  | none => return 0
  | some cutoff =>
    change ("unable to archive " ++ status.text ++ " entries") (.update .entries [.entries])
      (·.archive status cutoff limit)

/-- Moves the unprotected read entries of a user to the removed ones. -/
def flushHistory (user : Id) : Action Nat := do
  let time ← now
  change "unable to flush history" (.update .entries []) (·.flush user time)

/-- Erases the removed entries of a feed whose hash is not listed. -/
def sweep (feed : Id) (hashes : List String) : Action Nat :=
  if hashes = [] then pure 0
  else change ("unable to cleanup entries of feed #" ++ toString feed) (.delete .entries [])
    (·.removeEntries (Entry.isSweepable feed hashes))

end FeedStore.Action

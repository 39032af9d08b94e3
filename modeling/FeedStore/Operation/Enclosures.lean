import FeedStore.Session
import FeedStore.Store.Entries

/-!
# Operations on enclosures

Enclosures come with candidates: the addresses are trimmed, blank ones are passed over, and an address
that comes again updates what the first one has stored. An update of an entry whose candidate names no
address at all leaves the stored enclosures alone; any other update also takes away the enclosures
that the candidate no longer names.
-/

namespace FeedStore.Action

/-- Puts an enclosure into a list of enclosures: in the place of one with the same identifier, or at
the end. -/
def place (x : Enclosure) : List Enclosure → List Enclosure
  | [] => [x]
  | y :: ys => if y.id = x.id then x :: ys else y :: place x ys

/-- Stores the offered enclosures of an entry one after the other. `stored` are those stored so far. -/
def putEnclosures (user entry : Id) : List EnclosureOffer → List Enclosure → Action (List Enclosure)
  | [], stored => pure stored
  | offer :: offers, stored => do
    let url := Text.trim offer.url
    if url = "" then putEnclosures user entry offers stored
    else
      let x ← write
        ("unable to store enclosure " ++ Text.quoted url ++ " of entry #" ++ toString entry)
        (.insert .enclosures) (·.putEnclosure user entry url offer.mimeType offer.size)
      putEnclosures user entry offers (place x stored)

/-- Brings the enclosures of an entry in line with what its candidate offers now. -/
def updateEnclosures (user entry : Id) (offers : List EnclosureOffer) : Action Unit := do
  if offers.all fun o => Text.isBlankText o.url then return
  let stored ← putEnclosures user entry offers []
  let _ ← change ("unable to delete stale enclosures of entry #" ++ toString entry)
    (.delete .enclosures []) (·.removeStaleEnclosures user entry (stored.map (·.url)))

/-- So many identifiers go into one look-up of enclosures. -/
def enclosureBatch : Nat := 500

/-- The enclosures of the given entries, looked up a batch at a time. -/
def enclosuresOfEntries (ids : List Id) : Action (List Enclosure) :=
  if ids = [] then pure [] else do
    let batch := ids.take enclosureBatch
    let found ← readWithin { values := batch.length } "unable to fetch enclosures" [.enclosures]
      fun s => .ok (s.enclosuresOfAll batch)
    return found ++ (← enclosuresOfEntries (ids.drop enclosureBatch))
  termination_by ids.length
  decreasing_by
    simp only [List.length_drop, enclosureBatch]
    have : 0 < ids.length := List.length_pos_iff.2 (by assumption)
    omega

def attachEnclosures (views : List EntryView) : Action (List EntryView) := do
  let found ← enclosuresOfEntries (views.map (·.id))
  return views.map fun v => { v with enclosures := found.filter (·.entryId == v.id) }

def enclosures (user entry : Id) : Action (List Enclosure) :=
  read ("unable to fetch enclosures of entry #" ++ toString entry) [.enclosures]
    (·.enclosuresOf user entry)

/-- Notes how far an enclosure has been played. -/
def updateProgression (user id : Id) (seconds : Int) : Action Unit := do
  orNothing (← change ("unable to update media progression of enclosure #" ++ toString id)
    (.update .enclosures []) (·.setProgression user id seconds))

end FeedStore.Action

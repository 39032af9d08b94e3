import FeedStore.Store.Entries

/-!
# What readers do to entries

Which entries a reader's action reaches and what it does to them. Marking as read reaches unread
entries; flushing and archiving leave starred and shared entries alone.
-/

namespace FeedStore

namespace Entry

def hasStatus (s : Status) (e : Entry) : Bool := e.status == .known s

def withStatus (s : Status) (now : Int) (e : Entry) : Entry :=
  { e with status := .known s, changedAt := now }

def withStar (starred : Bool) (now : Int) (e : Entry) : Entry :=
  { e with starred, changedAt := now }

/-- Neither a star nor a share code protects the entry. -/
def isUnprotected (e : Entry) : Bool := !e.starred && e.shareCode == ""

def isUnreadOf (user : Id) (e : Entry) : Bool := e.userId == user && e.hasStatus .unread

/-- The entry may be archived: it has the status, is unprotected and was created before the cutoff. -/
def isArchivable (status : Status) (cutoff : Int) (e : Entry) : Bool :=
  e.hasStatus status && e.isUnprotected && decide (e.createdAt < cutoff)

/-- The entry may be swept: it is the feed's, removed, and its hash is not listed. -/
def isSweepable (feed : Id) (hashes : List String) (e : Entry) : Bool :=
  e.feedId == feed && e.hasStatus .removed && !hashes.contains e.hash

/-- Of two entries the one created first comes first, of two created together the one with the smaller
identifier. -/
def isOlder (a b : Entry) : Bool := ((compare a.createdAt b.createdAt).then (compare a.id b.id)).isLE

end Entry

namespace Store

def setStatus (s : Store) (user : Id) (ids : List Id) (status : Status) (now : Int) : Nat × Store :=
  s.modifyEntries (Entry.isListed user ids) (Entry.withStatus status now)

/-- The number of listed entries of a user that are shown on global lists. -/
def countShown (s : Store) (user : Id) (ids : List Id) : Nat :=
  s.listed.countP fun l => l.entry.isListed user ids && s.shownGlobally l.feed

def setStar (s : Store) (user : Id) (ids : List Id) (starred : Bool) (now : Int) : Nat × Store :=
  s.modifyEntries (Entry.isListed user ids) (Entry.withStar starred now)

/-- Stars an entry of a user that has no star and unstars one that has. -/
def toggleStar (s : Store) (user id : Id) (now : Int) : Nat × Store :=
  s.modifyEntries (Entry.isOwn user id) fun e => e.withStar (!e.starred) now

/-- Marks the unread entries of a user that satisfy `p` as read. -/
def markRead (s : Store) (user : Id) (p : Entry → Bool) (now : Int) : Nat × Store :=
  s.modifyEntries (fun e => e.isUnreadOf user && p e) (Entry.withStatus .read now)

/-- The feed is one of the user's in that category. -/
def isFeedIn (s : Store) (user category feed : Id) : Bool :=
  s.feeds.holds fun f => f.id == feed && f.userId == user && f.categoryId == category

/-- The feed is one of the user's and shown on global lists. -/
def isShownFeedOf (s : Store) (user feed : Id) : Bool :=
  s.feeds.holds fun f => f.id == feed && f.userId == user && s.shownGlobally f

/-- The oldest entries that may be archived, at most `limit` of them. -/
def archivable (s : Store) (status : Status) (cutoff limit : Int) : List Entry :=
  ((s.entries.select (Entry.isArchivable status cutoff)).mergeSort Entry.isOlder).take limit.toNat

/-- Moves the oldest entries that may be archived to the removed ones. Nothing but their status changes,
not even the time of their last change. -/
def archive (s : Store) (status : Status) (cutoff limit : Int) : Nat × Store :=
  let ids := (s.archivable status cutoff limit).map (·.id)
  s.modifyEntries (fun e => ids.contains e.id) fun e => { e with status := .known .removed }

/-- Moves the unprotected read entries of a user to the removed ones. -/
def flush (s : Store) (user : Id) (now : Int) : Nat × Store :=
  s.modifyEntries (fun e => e.userId == user && e.hasStatus .read && e.isUnprotected)
    (Entry.withStatus .removed now)

/-- The share code of an entry of a user, empty while it is not shared. -/
def shareCode? (s : Store) (user id : Id) : Option String :=
  (s.entries.find? (Entry.isOwn user id)).map (·.shareCode)

/-- Gives an entry of a user a share code, or none for the empty one. No two entries carry the same
code. -/
def setShareCode (s : Store) (user id : Id) (code : String) : Except Fault (Nat × Store) :=
  if code != "" && s.entries.holds (Entry.isOwn user id)
      && s.entries.holds fun e => !e.isOwn user id && e.shareCode == code then
    .error (.duplicate .shareCode)
  else .ok (s.modifyEntries (Entry.isOwn user id) fun e => { e with shareCode := code })

/-- The texts in status fields that are none of the three names. -/
def strayStatuses (s : Store) : List String :=
  s.entries.rows.filterMap fun e =>
    match e.status with
    | .other text => some text
    | .known _ => none

/-- The numbers of all entries by status. A text that is no status is an error; the least of several
is reported. -/
def entryCounts (s : Store) : Except StoreError EntryCounts :=
  match (s.strayStatuses.mergeSort fun a b => decide (a ≤ b)).head? with
  | some text => .error (.invalidStatus text)
  | none => .ok {
      unread := s.entries.count (Entry.hasStatus .unread)
      read := s.entries.count (Entry.hasStatus .read)
      removed := s.entries.count (Entry.hasStatus .removed)
      total := s.entries.rows.length }

end Store

end FeedStore

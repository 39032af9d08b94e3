import FeedStore.Json.TextArray
import FeedStore.Store
import FeedStore.Text.Blank

/-!
# Entries and enclosures in the store

What a statement about entries or enclosures does to the tables. An entry is told apart from the other
entries of its feed by its hash, an enclosure from the other enclosures of its entry by its address.
-/

namespace FeedStore

/-! ## Rows -/

def Entry.isItem (feed : Id) (hash : String) (e : Entry) : Bool := e.feedId == feed && e.hash == hash

def Entry.isOwn (user id : Id) (e : Entry) : Bool := e.userId == user && e.id == id

/-- The entry is the user's and its identifier is among the given ones. -/
def Entry.isListed (user : Id) (ids : List Id) (e : Entry) : Bool :=
  e.userId == user && ids.contains e.id

/-- The row for a candidate that the store does not have yet: unread, with neither star nor share code,
created and changed now. -/
def Candidate.toEntry (c : Candidate) (user feed : Id) (now : Int) (id : Id) : Entry :=
  { id
    userId := user
    feedId := feed
    hash := c.hash
    title := c.title
    url := c.url
    commentsUrl := c.commentsUrl
    author := c.author
    content := c.content
    tags := Json.TextArray.encode c.tags
    readingTime := c.readingTime
    publishedAt := c.publishedAt
    createdAt := now
    changedAt := now
    status := .known .unread
    starred := false
    shareCode := "" }

/-- The row of an entry after its feed has shown it again. What readers have done to it stays, and so
do the times of its publication and creation. -/
def Entry.refreshed (c : Candidate) (now : Int) (e : Entry) : Entry :=
  { e with
    title := c.title
    url := c.url
    commentsUrl := c.commentsUrl
    author := c.author
    content := c.content
    tags := Json.TextArray.encode c.tags
    readingTime := c.readingTime
    changedAt := now }

/-- The entry as a reader gets it, without its enclosures. A status that is none of the three and tags
that are not an array of texts are errors; tags that are missing altogether are no tags. -/
def Listed.view (l : Listed) : Except StoreError EntryView := do
  let e := l.entry
  let status ← match e.status with
    | .known status => pure status
    | .other text => throw (.invalidStatus text)
  let tags ← if e.tags = "" then pure [] else
    match Json.TextArray.decode? e.tags with
    | some tags => pure tags
    | none => throw (.invalidTags e.id)
  return {
    id := e.id
    userId := e.userId
    feedId := e.feedId
    hash := e.hash
    title := e.title
    url := e.url
    commentsUrl := e.commentsUrl
    author := e.author
    content := e.content
    tags
    readingTime := e.readingTime
    publishedAt := e.publishedAt
    createdAt := e.createdAt
    changedAt := e.changedAt
    status
    starred := e.starred
    shareCode := e.shareCode
    feedTitle := l.feed.title
    categoryId := l.category.id
    enclosures := [] }

namespace Store

/-! ## Entries -/

def item? (s : Store) (feed : Id) (hash : String) : Option Entry :=
  s.entries.find? (Entry.isItem feed hash)

/-- Adds the entry for a candidate; user and feed must be there. -/
def addEntry (s : Store) (user feed : Id) (c : Candidate) (now : Int) : Except Fault (Id × Store) :=
  if !s.hasUser user || !s.hasFeed feed then .error .foreignKey
  else
    let (entry, entries) := s.entries.add (c.toEntry user feed now)
    .ok (entry.id, { s with entries })

/-- The entry with the given identifier, with its feed and category. -/
def listedEntry (s : Store) (id : Id) : Except Fault Listed :=
  match (s.entries.find? (·.id == id)).bind s.listed? with
  | some l => .ok l
  | none => .error .noRow

/-- Changes the entries that satisfy `p`, and says how many they are. -/
def modifyEntries (s : Store) (p : Entry → Bool) (f : Entry → Entry) : Nat × Store :=
  (s.entries.count p, { s with entries := s.entries.modify p f })

/-- Takes the entries that satisfy `p` away, and says how many they were. -/
def removeEntries (s : Store) (p : Entry → Bool) : Nat × Store :=
  (s.entries.count p, s.eraseEntries p)

/-- Takes at most `size` entries that satisfy `p` away, and says how many they were. -/
def removeEntriesUpTo (s : Store) (size : Nat) (p : Entry → Bool) : Nat × Store :=
  let ids := (s.entryIds p).take size
  s.removeEntries fun e => ids.contains e.id

/-- Refreshes the entry of a user and a feed that carries the candidate's hash, and gives its
identifier, if it is there. -/
def refreshEntry (s : Store) (user feed : Id) (c : Candidate) (now : Int) : Option Id × Store :=
  let p := fun e : Entry => e.userId == user && e.isItem feed c.hash
  ((s.entries.find? p).map (·.id), (s.modifyEntries p (Entry.refreshed c now)).2)

/-! ## Enclosures -/

/-- The enclosure is the entry's and has the given address. -/
def isEnclosure (entry : Id) (url : String) (x : Enclosure) : Bool := x.entryId == entry && x.url == url

/-- Stores an enclosure. An address that the entry has already keeps its row, which takes over type and
size, and uses up an identifier all the same. -/
def putEnclosure (s : Store) (user entry : Id) (url mimeType : String) (size : Int) :
    Except Fault (Enclosure × Store) :=
  match s.enclosures.find? (isEnclosure entry url) with
  | some x =>
    .ok ({ x with mimeType, size },
      { s with enclosures := (s.enclosures.modify (isEnclosure entry url) fun x =>
          { x with mimeType, size }).skipId })
  | none =>
    if !s.hasUser user || !s.hasEntry entry then .error .foreignKey
    else
      let (x, enclosures) := s.enclosures.add fun id =>
        { id, userId := user, entryId := entry, url, mimeType, size, mediaProgression := 0 }
      .ok (x, { s with enclosures })

/-- Takes the enclosures of an entry of a user away whose address is not among the given ones, and says
how many they were. -/
def removeStaleEnclosures (s : Store) (user entry : Id) (urls : List String) : Nat × Store :=
  let p := fun x : Enclosure => x.userId == user && x.entryId == entry && !urls.contains x.url
  (s.enclosures.count p, { s with enclosures := s.enclosures.erase p })

/-- The enclosures of an entry of a user in ascending order of their identifiers. -/
def enclosuresOf (s : Store) (user entry : Id) : List Enclosure :=
  s.enclosures.select fun x => x.userId == user && x.entryId == entry

/-- The enclosures of the given entries in ascending order of their identifiers. -/
def enclosuresOfAll (s : Store) (entries : List Id) : List Enclosure :=
  s.enclosures.select fun x => entries.contains x.entryId

/-- Sets the playback position of an enclosure of a user, and says how many rows that reached. A
position is never negative. -/
def setProgression (s : Store) (user id : Id) (seconds : Int) : Nat × Store :=
  let p := fun x : Enclosure => x.userId == user && x.id == id
  (s.enclosures.count p,
    { s with enclosures := s.enclosures.modify p fun x => { x with mediaProgression := max seconds 0 } })

end Store

end FeedStore

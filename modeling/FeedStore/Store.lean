import FeedStore.Record
import FeedStore.Table

/-!
# The five tables

A store is its five tables. Rows refer to rows of other tables by identifier; taking a row away takes
away every row that refers to it, and every row that refers to one of those. A row that refers to a
missing one is never added. An entry is `Listed` together with its feed and category.
-/

namespace FeedStore

structure Store where
  users : Table User := {}
  categories : Table Category := {}
  feeds : Table Feed := {}
  entries : Table Entry := {}
  enclosures : Table Enclosure := {}
  deriving Repr, DecidableEq

/-- An entry with the feed it belongs to and the category of that feed. -/
structure Listed where
  entry : Entry
  feed : Feed
  category : Category
  deriving Repr, DecidableEq

namespace Store

/-! ## Looking rows up -/

def hasUser (s : Store) (id : Id) : Bool := s.users.holds (·.id == id)

def hasCategory (s : Store) (id : Id) : Bool := s.categories.holds (·.id == id)

def hasFeed (s : Store) (id : Id) : Bool := s.feeds.holds (·.id == id)

def hasEntry (s : Store) (id : Id) : Bool := s.entries.holds (·.id == id)

/-- The entry with its feed and category, when both are there. -/
def listed? (s : Store) (e : Entry) : Option Listed := do
  let feed ← s.feeds.find? (·.id == e.feedId)
  let category ← s.categories.find? (·.id == feed.categoryId)
  return ⟨e, feed, category⟩

/-- Every entry with its feed and category, in ascending order of the entries' identifiers. -/
def listed (s : Store) : List Listed := s.entries.rows.filterMap s.listed?

/-- The feed and its category are both shown on global lists. -/
def shownGlobally (s : Store) (f : Feed) : Bool :=
  !f.hideGlobally && s.categories.holds fun c => c.id == f.categoryId && !c.hideGlobally

/-! ## Taking rows away -/

def entryIds (s : Store) (p : Entry → Bool) : List Id := (s.entries.select p).map (·.id)

def feedIds (s : Store) (p : Feed → Bool) : List Id := (s.feeds.select p).map (·.id)

def categoryIds (s : Store) (p : Category → Bool) : List Id := (s.categories.select p).map (·.id)

def eraseEntries (s : Store) (p : Entry → Bool) : Store :=
  let ids := s.entryIds p
  { s with
    entries := s.entries.erase p
    enclosures := s.enclosures.erase fun x => ids.contains x.entryId }

def eraseFeeds (s : Store) (p : Feed → Bool) : Store :=
  let ids := s.feedIds p
  { s.eraseEntries (fun e => ids.contains e.feedId) with feeds := s.feeds.erase p }

def eraseCategories (s : Store) (p : Category → Bool) : Store :=
  let ids := s.categoryIds p
  { s.eraseFeeds (fun f => ids.contains f.categoryId) with categories := s.categories.erase p }

/-- The category goes when the user goes. -/
def categoryGoesWith (id : Id) (c : Category) : Bool := c.userId == id

/-- The feed goes when the user goes: it is the user's, or lives in one of the given categories, which
go. -/
def feedGoesWith (id : Id) (categories : List Id) (f : Feed) : Bool :=
  f.userId == id || categories.contains f.categoryId

/-- The entry goes when the user goes: it is the user's, or belongs to one of the given feeds, which
go. -/
def entryGoesWith (id : Id) (feeds : List Id) (e : Entry) : Bool :=
  e.userId == id || feeds.contains e.feedId

/-- The enclosure goes when the user goes: it is the user's, or belongs to one of the given entries,
which go. -/
def enclosureGoesWith (id : Id) (entries : List Id) (x : Enclosure) : Bool :=
  x.userId == id || entries.contains x.entryId

/-- Takes a user away with everything that goes with the user. -/
def eraseUser (s : Store) (id : Id) : Store :=
  let categories := s.categoryIds (categoryGoesWith id)
  let feeds := s.feedIds (feedGoesWith id categories)
  let entries := s.entryIds (entryGoesWith id feeds)
  { users := s.users.erase (·.id == id)
    categories := s.categories.erase (categoryGoesWith id)
    feeds := s.feeds.erase (feedGoesWith id categories)
    entries := s.entries.erase (entryGoesWith id feeds)
    enclosures := s.enclosures.erase (enclosureGoesWith id entries) }

/-! ## Tables as a whole -/

/-- Empties a table and forgets which identifiers it gave out. -/
def reset (s : Store) : TableName → Store
  | .users => { s with users := {} }
  | .categories => { s with categories := {} }
  | .feeds => { s with feeds := {} }
  | .entries => { s with entries := {} }
  | .enclosures => { s with enclosures := {} }

end Store

end FeedStore

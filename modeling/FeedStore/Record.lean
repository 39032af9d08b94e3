import FeedStore.Error
import FeedStore.Status

/-!
# The rows of a store

Users own categories, feeds live in categories, entries belong to feeds, and enclosures to entries.
Every row below a user also names that user. An `Entry` is a stored row, its tags still in their
written form; an `EntryView` is what a reader gets: decoded, with the title of its feed, the category
it is in and its enclosures. A `Candidate` is an item of a freshly fetched feed that has not been
compared with the store yet.
-/

namespace FeedStore

structure User where
  id : Id
  username : String
  createdAt : Int
  deriving DecidableEq, Repr

structure Category where
  id : Id
  userId : Id
  title : String
  hideGlobally : Bool
  deriving DecidableEq, Repr

/-- A subscription of one user, with the state of its fetching. -/
structure Feed where
  id : Id
  userId : Id
  categoryId : Id
  title : String
  feedUrl : String
  siteUrl : String
  etagHeader : String
  lastModifiedHeader : String
  checkedAt : Option Int
  nextCheckAt : Option Int
  errorMessage : String
  /-- Failed fetches since the last success. -/
  errorCount : Int
  hideGlobally : Bool
  deriving DecidableEq, Repr

/-- A stored item of a feed. -/
structure Entry where
  id : Id
  userId : Id
  feedId : Id
  /-- What tells the items of a feed apart. -/
  hash : String
  title : String
  url : String
  commentsUrl : String
  author : String
  content : String
  /-- The tags as a JSON array of texts. -/
  tags : String
  readingTime : Int
  publishedAt : Int
  createdAt : Int
  changedAt : Int
  status : StoredStatus
  starred : Bool
  /-- Empty while the entry is not shared. -/
  shareCode : String
  deriving DecidableEq, Repr

/-- A media attachment of an entry, with its playback position in seconds. -/
structure Enclosure where
  id : Id
  userId : Id
  entryId : Id
  url : String
  mimeType : String
  size : Int
  mediaProgression : Int
  deriving DecidableEq, Repr

/-- An entry as a reader gets it. -/
structure EntryView where
  id : Id
  userId : Id
  feedId : Id
  hash : String
  title : String
  url : String
  commentsUrl : String
  author : String
  content : String
  tags : List String
  readingTime : Int
  publishedAt : Int
  createdAt : Int
  changedAt : Int
  status : Status
  starred : Bool
  shareCode : String
  feedTitle : String
  categoryId : Id
  enclosures : List Enclosure
  deriving DecidableEq, Repr

/-- What a reader needs of the entry before or after another one. -/
structure Sibling where
  id : Id
  title : String
  deriving DecidableEq, Repr

/-- A media attachment that a candidate announces. -/
structure EnclosureOffer where
  url : String
  mimeType : String
  size : Int
  deriving DecidableEq, Repr

/-- An item of a freshly fetched feed. -/
structure Candidate where
  hash : String
  title : String
  url : String
  commentsUrl : String
  author : String
  content : String
  tags : List String
  readingTime : Int
  publishedAt : Int
  enclosures : List EnclosureOffer
  deriving DecidableEq, Repr

/-- What a user says about a new subscription. -/
structure FeedOffer where
  categoryId : Id
  title : String
  feedUrl : String
  siteUrl : String
  hideGlobally : Bool
  deriving DecidableEq, Repr

/-- What a successful fetch leaves behind: caching headers and schedule. -/
structure FetchState where
  etagHeader : String
  lastModifiedHeader : String
  checkedAt : Int
  nextCheckAt : Int
  deriving DecidableEq, Repr

/-- Numbers of entries by status. -/
structure EntryCounts where
  unread : Nat
  read : Nat
  removed : Nat
  total : Nat
  deriving DecidableEq, Repr

/-- The wording of a list of row identifiers. -/
def idList (ids : List Id) : String :=
  "[" ++ ", ".intercalate (ids.map toString) ++ "]"

end FeedStore

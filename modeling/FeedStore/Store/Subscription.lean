import FeedStore.Store
import FeedStore.Text.Blank
import FeedStore.Text.Fold

/-!
# Users, categories and feeds in the store

What a statement about a user, a category or a feed does to the tables. New rows keep the unique fields
unique and refer to rows that are there; a row that repeats unique fields is refused for that reason
even when it also refers to a missing one.
-/

namespace FeedStore

/-! ## Rows -/

/-- Categories are listed by title in either ASCII case, equal titles by identifier. -/
def Category.listOrder (a b : Category) : Bool :=
  ((Text.compareFolded a.title b.title).then (compare a.id b.id)).isLE

/-- Feeds are listed by title in either ASCII case, equal titles by identifier. -/
def Feed.listOrder (a b : Feed) : Bool :=
  ((Text.compareFolded a.title b.title).then (compare a.id b.id)).isLE

/-- The feed without its record of failed fetches. -/
def Feed.withoutErrors (f : Feed) : Feed := { f with errorMessage := "", errorCount := 0 }

def Feed.fetched (state : FetchState) (f : Feed) : Feed :=
  { f.withoutErrors with
    etagHeader := state.etagHeader
    lastModifiedHeader := state.lastModifiedHeader
    checkedAt := some state.checkedAt
    nextCheckAt := some state.nextCheckAt }

def Feed.failed (message : String) (now nextCheckAt : Int) (f : Feed) : Feed :=
  { f with
    errorMessage := message
    errorCount := f.errorCount + 1
    checkedAt := some now
    nextCheckAt := some nextCheckAt }

namespace Store

/-! ## Users -/

/-- Adds a user; the name must not be taken. -/
def addUser (s : Store) (name : String) (now : Int) : Except Fault (User × Store) :=
  if s.users.holds (·.username == name) then .error (.duplicate .username)
  else
    let (user, users) := s.users.add fun id => { id, username := name, createdAt := now }
    .ok (user, { s with users })

def user? (s : Store) (id : Id) : Option User := s.users.find? (·.id == id)

/-- Takes a user away and says how many rows of the table of users that were. -/
def removeUser (s : Store) (id : Id) : Nat × Store :=
  (s.users.count (·.id == id), s.eraseUser id)

/-! ## Categories -/

def ownCategory (user id : Id) (c : Category) : Bool := c.userId == user && c.id == id

/-- Adds a category; the user must have no other of that title and must be there. -/
def addCategory (s : Store) (user : Id) (title : String) (hide : Bool) :
    Except Fault (Category × Store) :=
  if s.categories.holds fun c => c.userId == user && c.title == title then
    .error (.duplicate .categoryTitle)
  else if !s.hasUser user then .error .foreignKey
  else
    let (category, categories) := s.categories.add fun id =>
      { id, userId := user, title, hideGlobally := hide }
    .ok (category, { s with categories })

def category? (s : Store) (user id : Id) : Option Category :=
  s.categories.find? (ownCategory user id)

def categoriesOf (s : Store) (user : Id) : List Category :=
  (s.categories.select (·.userId == user)).mergeSort Category.listOrder

/-- Shows or hides a category, and says how many rows that reached. -/
def hideCategory (s : Store) (user id : Id) (hide : Bool) : Nat × Store :=
  (s.categories.count (ownCategory user id),
    { s with categories := s.categories.modify (ownCategory user id) fun c =>
        { c with hideGlobally := hide } })

/-- Takes a category of a user away, and says how many categories that were. -/
def removeCategory (s : Store) (user id : Id) : Nat × Store :=
  (s.categories.count (ownCategory user id), s.eraseCategories (ownCategory user id))

/-! ## Feeds -/

def ownFeed (user id : Id) (f : Feed) : Bool := f.userId == user && f.id == id

/-- Adds a feed; the user must have no other with that address, and user and category must be there. -/
def addFeed (s : Store) (user : Id) (offer : FeedOffer) : Except Fault (Feed × Store) :=
  if s.feeds.holds fun f => f.userId == user && f.feedUrl == offer.feedUrl then
    .error (.duplicate .feedUrl)
  else if !s.hasUser user || !s.hasCategory offer.categoryId then .error .foreignKey
  else
    let (feed, feeds) := s.feeds.add fun id =>
      { id
        userId := user
        categoryId := offer.categoryId
        title := offer.title
        feedUrl := offer.feedUrl
        siteUrl := offer.siteUrl
        etagHeader := ""
        lastModifiedHeader := ""
        checkedAt := none
        nextCheckAt := none
        errorMessage := ""
        errorCount := 0
        hideGlobally := offer.hideGlobally }
    .ok (feed, { s with feeds })

def feed? (s : Store) (user id : Id) : Option Feed := s.feeds.find? (ownFeed user id)

def feedsOf (s : Store) (user : Id) : List Feed :=
  (s.feeds.select (·.userId == user)).mergeSort Feed.listOrder

/-- Changes a feed of a user, and says how many rows that reached. -/
def modifyFeed (s : Store) (user id : Id) (f : Feed → Feed) : Nat × Store :=
  (s.feeds.count (ownFeed user id), { s with feeds := s.feeds.modify (ownFeed user id) f })

/-- Notes one more failed fetch, and gives the new number of failures of the feed, if it is there. -/
def failFeed (s : Store) (user id : Id) (message : String) (now nextCheckAt : Int) :
    Option Int × Store :=
  let t := (s.modifyFeed user id (Feed.failed message now nextCheckAt)).2
  ((t.feed? user id).map (·.errorCount), t)

/-- Forgets the failed fetches of every feed of a user, and says how many feeds that are. -/
def resetFeedErrors (s : Store) (user : Id) : Nat × Store :=
  (s.feeds.count (·.userId == user),
    { s with feeds := s.feeds.modify (·.userId == user) Feed.withoutErrors })

/-- Takes a feed of a user away, and says how many feeds that were. -/
def removeFeed (s : Store) (user id : Id) : Nat × Store :=
  (s.feeds.count (ownFeed user id), s.eraseFeeds (ownFeed user id))

end Store

end FeedStore

import FeedStore.Session
import FeedStore.Store.Subscription

/-!
# Operations on users, categories and feeds

Names, titles and addresses are brought into their normal form before the store sees them; what is
empty then is turned down without asking the store. An operation on a single row of a user ends in
`nothingUpdated` when the user has no such row.
-/

namespace FeedStore.Action

/-! ## Users -/

/-- Creates a user. The name is trimmed, and no two users share one. -/
def createUser (username : String) : Action User := do
  let name := Text.trim username
  if name = "" then throw (.invalidInput "username cannot be empty")
  let time ← now
  write ("unable to create user " ++ Text.quoted name) (.insert .users) (·.addUser name time)

def userById (id : Id) : Action (Option User) :=
  read ("unable to fetch user #" ++ toString id) [.users] (·.user? id)

def users : Action (List User) := read "unable to fetch users" [.users] (·.users.rows)

/-- Removes a user with everything that the user owns. -/
def removeUser (id : Id) : Action Unit := do
  orNothing (← change ("unable to remove user #" ++ toString id) (.delete .users [])
    (·.removeUser id))

/-! ## Categories -/

/-- The normal form of a category title: no control characters, no blanks at the ends. -/
def cleanTitle (title : String) : String :=
  Text.trim (String.ofList (title.toList.filter fun c => !Text.isControl c))

/-- Creates a category. The title is cleaned, and no two categories of a user share one. -/
def createCategory (user : Id) (title : String) (hide : Bool) : Action Category := do
  let title := cleanTitle title
  if title = "" then throw (.invalidInput "category title cannot be empty")
  write ("unable to create category " ++ Text.quoted title) (.insert .categories)
    (·.addCategory user title hide)

def categoryById (user id : Id) : Action (Option Category) :=
  read ("unable to fetch category #" ++ toString id) [.categories] (·.category? user id)

def categories (user : Id) : Action (List Category) :=
  read "unable to fetch categories" [.categories] (·.categoriesOf user)

def hideCategory (user id : Id) (hide : Bool) : Action Unit := do
  orNothing (← change ("unable to update category #" ++ toString id) (.update .categories [])
    (·.hideCategory user id hide))

/-- Removes a category with its feeds and their entries. -/
def removeCategory (user id : Id) : Action Unit := do
  orNothing (← change ("unable to remove category #" ++ toString id) (.delete .categories [])
    (·.removeCategory user id))

/-! ## Feeds -/

/-- The normal form of an offer: address and title trimmed, the address for a blank title. -/
def cleanOffer (offer : FeedOffer) : FeedOffer :=
  let feedUrl := Text.trim offer.feedUrl
  let title := Text.trim offer.title
  { offer with feedUrl, title := if title = "" then feedUrl else title }

/-- Subscribes a user to a feed. No two feeds of a user share an address. -/
def createFeed (user : Id) (offer : FeedOffer) : Action Feed := do
  let offer := cleanOffer offer
  if offer.feedUrl = "" then throw (.invalidInput "feed URL cannot be empty")
  write ("unable to create feed " ++ Text.quoted offer.feedUrl) (.insert .feeds)
    (·.addFeed user offer)

def feedById (user id : Id) : Action (Option Feed) :=
  read ("unable to fetch feed #" ++ toString id) [.feeds] (·.feed? user id)

def feeds (user : Id) : Action (List Feed) :=
  read "unable to fetch feeds" [.feeds] (·.feedsOf user)

def hideFeed (user id : Id) (hide : Bool) : Action Unit := do
  orNothing (← change ("unable to update feed #" ++ toString id) (.update .feeds [])
    (·.modifyFeed user id fun f => { f with hideGlobally := hide }))

/-- Notes a successful fetch, which also ends a series of failures. -/
def updateFetchState (user id : Id) (state : FetchState) : Action Unit := do
  orNothing (← change ("unable to update fetch state of feed #" ++ toString id) (.update .feeds [])
    (·.modifyFeed user id (Feed.fetched state)))

/-- Notes a failed fetch and gives the number of failures since the last success. -/
def recordFeedError (user id : Id) (message : String) (nextCheckAt : Int) : Action Int := do
  let time ← now
  match ← change ("unable to record error of feed #" ++ toString id) (.update .feeds [])
      (·.failFeed user id message time nextCheckAt) with
  | some count => return count
  | none => throw .nothingUpdated

/-- Forgets the failures of every feed of a user. -/
def resetFeedErrors (user : Id) : Action Nat :=
  change "unable to reset feed errors" (.update .feeds []) (·.resetFeedErrors user)

end FeedStore.Action

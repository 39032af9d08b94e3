import FeedStore.Text.Quoted

/-!
# What can go wrong

A `Fault` is the reason for which the engine behind the store refuses a statement. A `StoreError` is
what an operation ends with: a fault together with what was being attempted, or a rule of the store
that the request does not meet. `StoreError.ofFault` is the one place where faults are sorted into
errors.
-/

namespace FeedStore

/-- Row identifiers, also those that a caller makes up. -/
abbrev Id := Int

inductive TableName where
  | users
  | categories
  | feeds
  | entries
  | enclosures
  deriving DecidableEq, Repr

def TableName.text : TableName → String
  | users => "users"
  | categories => "categories"
  | feeds => "feeds"
  | entries => "entries"
  | enclosures => "enclosures"

/-- The fields that no two rows of a table may share. -/
inductive UniqueKey where
  | username
  | categoryTitle
  | feedUrl
  | shareCode
  deriving DecidableEq, Repr

def UniqueKey.text : UniqueKey → String
  | username => "users.username"
  | categoryTitle => "categories.user_id, categories.title"
  | feedUrl => "feeds.user_id, feeds.feed_url"
  | shareCode => "entries.share_code"

/-- Why the engine refuses a statement. -/
inductive Fault where
  | closed
  /-- Somebody else holds the write lock. -/
  | locked
  | duplicate (key : UniqueKey)
  /-- A row that the new row refers to does not exist. -/
  | foreignKey
  | noTable (name : String)
  | noColumn (name : String)
  | patternTooLong
  | tooManyValues
  | tooDeep
  | tooManyTerms
  /-- There is no place for a file at the given path. -/
  | cannotOpen
  /-- The file at the given path is something else. -/
  | notAStore
  | noRow
  | noConnection
  /-- The engine answered with something unexpected. -/
  | unexpected (text : String)
  deriving DecidableEq, Repr

/-- A report of the engine itself, with its number. -/
def engineReport (code : Nat) (text : String) : String :=
  "error returned from database: (code: " ++ toString code ++ ") " ++ text

def Fault.message : Fault → String
  | closed => "attempted to acquire a connection on a closed pool"
  | locked => engineReport 5 "database is locked"
  | duplicate key => engineReport 2067 ("UNIQUE constraint failed: " ++ key.text)
  | foreignKey => engineReport 787 "FOREIGN KEY constraint failed"
  | noTable name => engineReport 1 ("no such table: " ++ name)
  | noColumn name => engineReport 1 ("no such column: " ++ name)
  | patternTooLong => engineReport 1 "LIKE or GLOB pattern too complex"
  | tooManyValues => engineReport 1 "too many SQL variables"
  | tooDeep => engineReport 1 "Expression tree is too large (maximum depth 1000)"
  | tooManyTerms => engineReport 1 "too many terms in ORDER BY clause"
  | cannotOpen => engineReport 14 "unable to open database file"
  | notAStore => engineReport 26 "file is not a database"
  | noRow => "no rows returned by a query that expected to return at least one row"
  | noConnection => "pool timed out while waiting for an open connection"
  | unexpected text => "encountered unexpected or invalid data: " ++ text

inductive Phase where
  | start
  | commit
  deriving DecidableEq, Repr

def Phase.text : Phase → String
  | start => "start"
  | commit => "commit"

inductive Purpose where
  | refresh
  | migrate
  | pagination
  deriving DecidableEq, Repr

def Purpose.text : Purpose → String
  | refresh => "refresh feed entries"
  | migrate => "migrate"
  | pagination => "entry pagination"

/-- How an operation on a store fails. -/
inductive StoreError where
  | locked (context : String)
  | migration (reason : String)
  | conflict (context : String) (source : Fault)
  /-- A write that has to reach a row reached none. -/
  | nothingUpdated
  | transaction (phase : Phase) (purpose : Purpose) (source : Fault)
  | rollbackFailed (source : Fault) (cause : StoreError)
  /-- A statement failed in any other way. -/
  | query (context : String) (source : Fault)
  | invalidStatus (text : String)
  /-- The stored tags of an entry are not an array of texts. -/
  | invalidTags (entry : Id)
  | invalidInput (reason : String)
  | timeout (operation : String)
  | other (source : Fault)
  deriving DecidableEq, Repr

namespace StoreError

/-- The error for a fault of a statement: a repeated unique field is a conflict, a held lock is
`locked`, everything else keeps its fault. -/
def ofFault (context : String) (fault : Fault) : StoreError :=
  match fault with
  | .duplicate _ => conflict context fault
  | .locked => locked context
  | _ => query context fault

/-- The error for a fault while opening a store or reaching for a connection. -/
def ofConnectionFault (fault : Fault) : StoreError :=
  match fault with
  | .locked => locked "unable to open database"
  | _ => other fault

def message : StoreError → String
  | locked context => context ++ ": database is locked"
  | migration reason => "Database migration failed: " ++ reason
  | conflict context source => context ++ ": " ++ source.message
  | nothingUpdated => "nothing has been updated"
  | transaction phase purpose source =>
    "unable to " ++ phase.text ++ " transaction (" ++ purpose.text ++ "): " ++ source.message
  | rollbackFailed source cause =>
    "unable to rollback transaction: " ++ source.message ++ " (rolled back due to: "
      ++ cause.message ++ ")"
  | query context source => context ++ ": " ++ source.message
  | invalidStatus text => "invalid entry status " ++ Text.quoted text
  | invalidTags entry => "unable to decode tags of entry #" ++ toString entry
  | invalidInput reason => "invalid input: " ++ reason
  | timeout operation => operation ++ " timed out"
  | other source => "Database error: " ++ source.message

def isConflict : StoreError → Bool
  | conflict _ _ => true
  | _ => false

def isNothingUpdated : StoreError → Bool
  | nothingUpdated => true
  | _ => false

end StoreError

end FeedStore

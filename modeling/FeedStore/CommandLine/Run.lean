import FeedStore.CommandLine.Request
import FeedStore.Config
import FeedStore.Operation.Listing
import FeedStore.Operation.Reading
import FeedStore.Operation.Retention
import FeedStore.Shelf

/-!
# Running a request

A request is served in three steps: the configuration is loaded, the database is opened, and the command
does its work. Each step can end the program with a message of its own and the exit code 1; a command
line that makes no request ends it with the exit code 2.
-/

namespace FeedStore.CommandLine

/-- What the program leaves behind: its exit code, and the lines it wrote to its two outputs. -/
structure Outcome where
  exit : Nat
  output : List String := []
  errors : List String := []
  deriving DecidableEq, Repr

def Outcome.failure (message : String) : Outcome := { exit := 1, errors := ["Error: " ++ message] }

/-- The outcome of arguments that make no request. -/
def Outcome.usage : Outcome := { exit := 2 }

/-- What the program finds when it starts: configuration files, stores, the clock and the version of the
engine. -/
structure Surroundings where
  configs : String → Config.Found
  shelf : Shelf
  now : Int
  version : String

/-- The action, with another message in the place of its error. -/
def orElse {α : Type} (a : Action α) (message : String) : ExceptT String (StateM Session) α :=
  a.adapt fun _ => message

/-- Does the work of a command and gives the lines that it prints. -/
def Command.perform (c : Command) (config : CleanupConfig) (version : String) :
    ExceptT String (StateM Session) (List String) := do
  match c with
  | cleanup =>
    let read ← orElse (Action.archive .read config.readDays config.batchSize)
      "Failed to archive read entries"
    let unread ← orElse (Action.archive .unread config.unreadDays config.batchSize)
      "Failed to archive unread entries"
    return ["Archived " ++ toString read ++ " read and " ++ toString unread ++ " unread entries"]
  | flushHistory user =>
    let flushed ← orElse (Action.flushHistory user)
      ("Failed to flush history of user #" ++ toString user)
    return ["Flushed " ++ toString flushed ++ " read entries"]
  | stats =>
    let counts ← orElse Action.countAll "Failed to count entries"
    return ["unread:  " ++ toString counts.unread, "read:    " ++ toString counts.read,
      "removed: " ++ toString counts.removed, "total:   " ++ toString counts.total]
  | ping =>
    orElse Action.ping "Database did not answer"
    let version ← orElse (Action.version version) "Failed to read version"
    return ["ok (SQLite " ++ version ++ ")"]

/-- Opens the database at a path. A caller that waits no time at all gets no connection. -/
def openDatabase (shelf : Shelf) (path : String) (config : Config) (now : Int) :
    Except StoreError Session :=
  if config.acquireTimeoutSecs = 0 then .error (.ofConnectionFault .noConnection)
  else shelf.open? path now

def openFailure (path : String) : StoreError → String
  | .locked _ => "the database at " ++ path ++ " is locked by another process. Please retry."
  | e => "Failed to open database: " ++ e.message

/-- Serves a request. -/
def Request.run (r : Request) (s : Surroundings) : Outcome × Shelf :=
  match (Config.load (s.configs r.config)).config with
  | .error _ => (.failure ("Failed to load config from " ++ r.config), s.shelf)
  | .ok config =>
    let path := r.database.getD config.databasePath
    match openDatabase s.shelf path config s.now with
    | .error e => (.failure (openFailure path e), s.shelf)
    | .ok session =>
      let (result, session) := (r.command.perform config.cleanup s.version).run.run session
      let outcome := match result with
        | .ok lines => { exit := 0, output := lines }
        | .error message => .failure message
      (outcome, s.shelf.save path session)

/-- Serves the request that the arguments of the program make. -/
def run (arguments : List String) (s : Surroundings) : Outcome × Shelf :=
  match request? arguments with
  | some r => r.run s
  | none => (.usage, s.shelf)

end FeedStore.CommandLine

import FeedStore.CommandLine.Run
import FeedStore.Image
import Std.Time.DateTime.Timestamp

/-!
# The program

Reads the configuration and the database that the command line names, serves the request and writes
the database back.
-/

open FeedStore

/-- What is found at a path that a configuration is read from. -/
def findConfig (path : String) : IO Config.Found := do
  try
    return .file (← IO.FS.readBinFile path)
  catch e =>
    match e with
    | .noFileOrDirectory .. => return .nothing
    | _ => return .directory

/-- What the file at a path of a database holds, if there is one. -/
def findVolume (path : String) : IO (Option Volume) := do
  try
    let bytes ← IO.FS.readBinFile path
    match (String.fromUTF8? bytes).bind Image.decode? with
    | some store => return some (.store store [])
    | none => return some (.text "?")
  catch _ => return none

def databasePath (r : CommandLine.Request) (found : Config.Found) : String :=
  match (Config.load found).config with
  | .ok config => r.database.getD config.databasePath
  | .error _ => r.database.getD ""

/-- The name under which the database of a request is served, wherever its file is. -/
def servedName (path : String) : String := if Shelf.isPrivate path then path else "database"

/-- The surroundings that a request needs: its configuration and its database. -/
def findSurroundings (found : Config.Found) (path : String) : IO CommandLine.Surroundings := do
  let shelf := match ← findVolume path with
    | some volume => ({} : Shelf).put (servedName path) volume
    | none => {}
  let now := (← Std.Time.Timestamp.now).toSecondsSinceUnixEpoch.val
  return { configs := fun _ => found, shelf, now, version := "3" }

/-- Writes the store that was served to its file. -/
def writeStore (path : String) (s : Shelf) : IO Unit :=
  match s.volume? (servedName path) with
  | some (.store store _) => IO.FS.writeFile path (Image.encode store)
  | _ => return

def main (arguments : List String) : IO UInt32 := do
  match CommandLine.request? arguments with
  | none =>
    IO.eprintln "usage: [--config FILE] [--database FILE] (cleanup | flush-history --user ID | stats | ping)"
    return 2
  | some r =>
    let found ← findConfig r.config
    let path := databasePath r found
    let (outcome, shelf) :=
      { r with database := some (servedName path) }.run (← findSurroundings found path)
    if outcome.exit = 0 then
      try writeStore path shelf
      catch _ =>
        IO.eprintln ("Error: " ++ CommandLine.openFailure path (.ofConnectionFault .cannotOpen))
        return 1
    outcome.output.forM IO.println
    outcome.errors.forM IO.eprintln
    return UInt32.ofNat outcome.exit

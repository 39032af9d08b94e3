import FeedStore.Operation.Opening

/-!
# A directory of stores

Stores are opened by the path of their file. A path where there is nothing yet gets a new store; a path
that leads into another directory, and a file that is no store, are refused. Others may hold a file,
either against writing alone or against everything.
-/

namespace FeedStore

inductive Volume where
  | store (store : Store) (missing : List TableName)
  /-- A store whose table of entries lacks a field. -/
  | foreign (field : String)
  | text (content : String)
  deriving Repr

/-- What somebody else who holds a file keeps the others from. -/
inductive Hold where
  | writing
  | everything
  deriving DecidableEq, Repr

/-- The files of a directory, and who holds which. -/
structure Shelf where
  volumes : List (String × Volume) := []
  holds : List (String × Hold) := []
  deriving Repr

namespace Shelf

/-- The path without the parts that lead to the directory itself. -/
def normalPath : List Char → List Char
  | '.' :: '/' :: path => normalPath path
  | path => path

/-- The path, in the form in which files are looked up. -/
def fileName (path : String) : String := String.ofList (normalPath path.toList)

def volume? (s : Shelf) (path : String) : Option Volume :=
  (s.volumes.find? fun v => v.1 == fileName path).map (·.2)

/-- Puts a file at a path, in the place of the one that is there. -/
def put (s : Shelf) (path : String) (v : Volume) : Shelf :=
  let name := fileName path
  { s with volumes := (name, v) :: s.volumes.filter fun w => w.1 != name }

/-- The strictest hold on the file at a path. -/
def hold? (s : Shelf) (path : String) : Option Hold :=
  let holds := (s.holds.filter fun h => h.1 == fileName path).map (·.2)
  if holds.contains .everything then some .everything else holds.head?

def take (s : Shelf) (path : String) (h : Hold) : Shelf :=
  { s with holds := (fileName path, h) :: s.holds }

def releaseAll (s : Shelf) : Shelf := { s with holds := [] }

/-- The path leads to no store in a file: such a store is new and nobody else's. -/
def isPrivate (path : String) : Bool := path == ":memory:" || path == ""

/-- There can be a file at the path: it does not lead out of the directory. -/
def isPlace (path : String) : Bool :=
  let name := fileName path
  !name.toList.contains '/' && name != "." && name != ".." && name != ""

/-- Opens the store at a path. -/
def open? (s : Shelf) (path : String) (now : Int) : Except StoreError Session :=
  let session (store : Store) (missing : List TableName) : Session :=
    { store, now, access := { locked := (s.hold? path).isSome, missing } }
  if isPrivate path then .ok { now }
  else if !isPlace path then .error (.ofConnectionFault .cannotOpen)
  else if s.hold? path = some .everything then .error (.ofConnectionFault .locked)
  else
    match s.volume? path with
    | some (.store store missing) => (session store missing).migrate
    | some (.foreign field) =>
      .error (.migration ("unable to create schema: " ++ (Fault.noColumn field).message))
    | some (.text content) =>
      if content = "" then (session {} []).migrate else .error (.ofConnectionFault .notAStore)
    | none =>
      if (s.hold? path).isSome then .error (.ofConnectionFault .locked) else .ok (session {} [])

/-- Puts the store of a session back at its path. -/
def save (s : Shelf) (path : String) (session : Session) : Shelf :=
  if isPrivate path then s else s.put path (.store session.store session.access.missing)

end Shelf

end FeedStore

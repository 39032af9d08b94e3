import FeedStore.Text.Blank
import FeedStore.Toml.Document

/-!
# Configuration

A configuration is a TOML document with five keys, one of them a table of three more. Every key may be
missing and then takes its default. Unknown keys have no influence and are reported as warnings. A
configuration names a database and allows at least one connection.
-/

namespace FeedStore

/-- What the cleanup command archives. -/
structure CleanupConfig where
  readDays : Int := 60
  unreadDays : Int := 180
  batchSize : Int := 10000
  deriving DecidableEq, Repr

structure Config where
  databasePath : String := "feedsync.db"
  maxConnections : Nat := 5
  busyTimeoutMs : Nat := 5000
  acquireTimeoutSecs : Nat := 10
  cleanup : CleanupConfig := {}
  deriving DecidableEq, Repr

namespace Config

/-- The settings of a store's connections. -/
structure StoreOptions where
  maxConnections : Nat
  busyTimeoutMs : Nat
  acquireTimeoutSecs : Nat
  deriving DecidableEq, Repr

def storeOptions (c : Config) : StoreOptions :=
  ⟨c.maxConnections, c.busyTimeoutMs, c.acquireTimeoutSecs⟩

/-- Why a configuration cannot be used. -/
inductive Failure where
  | unreadable (reason : String)
  | tooLarge (bytes : Nat)
  /-- The text is no document, or a value has the wrong type. -/
  | malformed
  | invalid (reason : String)
  deriving DecidableEq, Repr

/-- A configuration file has no more bytes than this. -/
def maxFileBytes : Nat := 1048576

/-- The wording of a failure, except for what a malformed text is reported with. -/
def Failure.message : Failure → String
  | unreadable reason => "Failed to read config file: " ++ reason
  | tooLarge bytes =>
    "Config file too large: Config file is " ++ toString bytes ++ " bytes (max "
      ++ toString maxFileBytes ++ " bytes)"
  | malformed => "Invalid TOML in config file"
  | invalid reason => "Invalid config value: " ++ reason

/-! ## Unknown keys -/

def knownKeys : List String :=
  ["database_path", "max_connections", "busy_timeout_ms", "acquire_timeout_secs", "cleanup"]

def knownCleanupKeys : List String :=
  ["archive_read_days", "archive_unread_days", "archive_batch_size"]

/-- The keys of a table that are not among the known ones, in their order. -/
def unknownKeys (known : List String) (es : Toml.Entries) : List String :=
  (es.keys.filter fun k => !known.contains k).mergeSort fun a b => decide (a ≤ b)

/-- The unknown keys of a document, and then those of its table for cleaning up. -/
def warnings (es : Toml.Entries) : List String :=
  unknownKeys knownKeys es ++
    match es.get? "cleanup" with
    | some (.table _ inner) => (unknownKeys knownCleanupKeys inner).map ("cleanup." ++ ·)
    | _ => []

/-! ## Decoding -/

def asText? : Toml.Value → Option String
  | .text s => some s
  | _ => none

def asInteger? : Toml.Value → Option Int
  | .integer n => some n
  | _ => none

/-- An integer that is not negative and stays below a bound. -/
def asNatural? (bound : Nat) : Toml.Value → Option Nat
  | .integer n => if 0 ≤ n ∧ n < bound then some n.toNat else none
  | _ => none

/-- The decoded value of a key, or the default if the key is missing. -/
def field {α : Type} (es : Toml.Entries) (key : String) (default : α)
    (decode : Toml.Value → Option α) : Option α :=
  match es.get? key with
  | some v => decode v
  | none => some default

/-- The decoded item at a place of an array, or the default if the array is shorter. -/
def item {α : Type} (vs : List Toml.Value) (place : Nat) (default : α)
    (decode : Toml.Value → Option α) : Option α :=
  match vs[place]? with
  | some v => decode v
  | none => some default

/-- The settings for cleaning up: a table by keys, or an array by places. A date in their place decides
nothing. -/
def decodeCleanup : Toml.Value → Option CleanupConfig
  | .table _ es => do
    let d : CleanupConfig := {}
    return {
      readDays := ← field es "archive_read_days" d.readDays asInteger?
      unreadDays := ← field es "archive_unread_days" d.unreadDays asInteger?
      batchSize := ← field es "archive_batch_size" d.batchSize asInteger? }
  | .array vs => do
    let d : CleanupConfig := {}
    return {
      readDays := ← item vs 0 d.readDays asInteger?
      unreadDays := ← item vs 1 d.unreadDays asInteger?
      batchSize := ← item vs 2 d.batchSize asInteger? }
  | .moment => some {}
  | _ => none

/-- The configuration of a document whose values have the right types. -/
def decode (es : Toml.Entries) : Option Config := do
  let d : Config := {}
  return {
    databasePath := ← field es "database_path" d.databasePath asText?
    maxConnections := ← field es "max_connections" d.maxConnections (asNatural? (Nat.pow 2 32))
    busyTimeoutMs := ← field es "busy_timeout_ms" d.busyTimeoutMs (asNatural? (Nat.pow 2 64))
    acquireTimeoutSecs := ← field es "acquire_timeout_secs" d.acquireTimeoutSecs
      (asNatural? (Nat.pow 2 64))
    cleanup := ← field es "cleanup" d.cleanup decodeCleanup }

/-- The configuration, unless a value is out of range. -/
def validate (c : Config) : Except Failure Config :=
  if Text.isBlankText c.databasePath then .error (.invalid "database_path cannot be empty")
  else if c.maxConnections = 0 then .error (.invalid "max_connections must be at least 1")
  else .ok c

/-- The configuration of a document. -/
def ofEntries (es : Toml.Entries) : Except Failure Config :=
  match decode es with
  | some c => c.validate
  | none => .error .malformed

/-- The warnings that reading a configuration gives, and what becomes of it. -/
structure Result where
  warnings : List String
  config : Except Failure Config

/-- Reads a configuration from a text. A blank text stands for the defaults. -/
def parse (text : String) : Result :=
  if Text.isBlankText text then ⟨[], .ok {}⟩
  else
    match Toml.Document.parse? text with
    | some es => ⟨warnings es, ofEntries es⟩
    | none => ⟨[], .error .malformed⟩

/-! ## Files -/

/-- What is found at the path of a configuration file. -/
inductive Found where
  | nothing
  | directory
  | belowFile
  | file (content : ByteArray)

/-- Reads a configuration from what is found at its path. There need not be a file. -/
def load (found : Found) : Result :=
  match found with
  | .nothing => ⟨[], .ok {}⟩
  | .directory => ⟨[], .error (.unreadable "Is a directory (os error 21)")⟩
  | .belowFile => ⟨[], .error (.unreadable "Not a directory (os error 20)")⟩
  | .file content =>
    if content.size > maxFileBytes then ⟨[], .error (.tooLarge content.size)⟩
    else
      match String.fromUTF8? content with
      | some text => parse text
      | none => ⟨[], .error (.unreadable "stream did not contain valid UTF-8")⟩

end Config

end FeedStore

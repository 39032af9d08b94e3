import FeedStore.Error

/-!
# Requests on the command line

A command line names a configuration file, a database or neither, then one command, and then what the
command needs. Every option is given at most once, its value behind a space or an equals sign; a value
behind a space does not start with a hyphen unless it is one. Options in front of the command are not
accepted behind it.
-/

namespace FeedStore.CommandLine

/-- What the program is asked to do. -/
inductive Command where
  | cleanup
  /-- Move a user's read entries to the removed ones. -/
  | flushHistory (user : Id)
  | stats
  /-- Check that the database answers. -/
  | ping
  deriving DecidableEq, Repr

/-- A command with the options in front of it. -/
structure Request where
  config : String := "feedsync.toml"
  database : Option String := none
  command : Command
  deriving DecidableEq, Repr

/-- The options in front of a command that have been seen. -/
structure Options where
  config : Option String := none
  database : Option String := none
  deriving DecidableEq, Repr

/-- What follows a word at the start of an argument. -/
def after? (word argument : String) : Option String :=
  if word.toList.isPrefixOf argument.toList then
    some (String.ofList (argument.toList.drop word.toList.length))
  else none

/-- The argument can be the value of an option in front of it. -/
def isValue (argument : String) : Bool := argument == "-" || argument.toList.head? != some '-'

/-- The value of an option at the front of the arguments, and the arguments behind it. The outer `none`
says that the option is not there, the inner one that it has no value. -/
def option? (name : String) : List String → Option (Option (String × List String))
  | [] => none
  | argument :: rest =>
    if argument = name then
      match rest with
      | value :: rest => some (if isValue value then some (value, rest) else none)
      | [] => some none
    else (after? (name ++ "=") argument).map fun value => some (value, rest)

def natural? (cs : List Char) : Option Nat :=
  if cs = [] || cs.any fun c => !('0' ≤ c && c ≤ '9') then none
  else some (cs.foldl (fun n c => n * 10 + (c.toNat - 48)) 0)

/-- The identifier that an argument stands for: digits, perhaps with a sign, within 64 bits. -/
def id? (argument : String) : Option Id :=
  match argument.toList with
  | '-' :: cs => do
    let n ← natural? cs
    if n ≤ Nat.pow 2 63 then some (-n) else none
  | '+' :: cs => do
    let n ← natural? cs
    if n < Nat.pow 2 63 then some n else none
  | cs => do
    let n ← natural? cs
    if n < Nat.pow 2 63 then some n else none

/-- Nothing is left but perhaps the mark that ends options. -/
def isEnd (arguments : List String) : Bool := arguments == [] || arguments == ["--"]

/-- The command that the arguments name, with all that it needs and nothing else. -/
def command? : List String → Option Command
  | "cleanup" :: rest => if isEnd rest then some .cleanup else none
  | "stats" :: rest => if isEnd rest then some .stats else none
  | "ping" :: rest => if isEnd rest then some .ping else none
  | "flush-history" :: rest =>
    match option? "--user" rest with
    | some (some (value, rest)) =>
      if isEnd rest then (id? value).map .flushHistory else none
    | _ => none
  | _ => none

/-- Reads options up to the command; `arguments` bounds their number. -/
def readOptions : Nat → Options → List String → Option Request
  | 0, _, _ => none
  | n + 1, options, arguments =>
    match option? "--config" arguments with
    | some (some (value, rest)) =>
      if options.config.isSome || value = "" then none
      else readOptions n { options with config := some value } rest
    | some none => none
    | none =>
      match option? "--database" arguments with
      | some (some (value, rest)) =>
        if options.database.isSome then none
        else readOptions n { options with database := some value } rest
      | some none => none
      | none =>
        (command? arguments).map fun command =>
          { config := options.config.getD "feedsync.toml", database := options.database, command }

/-- The request that the arguments of the program make. -/
def request? (arguments : List String) : Option Request :=
  readOptions (arguments.length + 1) {} arguments

end FeedStore.CommandLine

import FeedStore.Session

/-!
# What others do to a store

A store in a file can be reached by other programs. They may hold its write lock for a while, take a
whole table away, or write a text into a field without keeping the rules for that field.
-/

namespace FeedStore.Session

def lock (s : Session) : Session := { s with access.locked := true }

def unlock (s : Session) : Session := { s with access.locked := false }

/-- Somebody takes a table away, with its rows and its counter. -/
def dropTable (t : TableName) (s : Session) : Session :=
  { s with
    store := s.store.reset t
    access.missing := if s.access.has t then s.access.missing ++ [t] else s.access.missing }

/-- Somebody changes an entry behind the store's back. -/
def overwrite (id : Id) (f : Entry → Entry) (s : Session) : Session :=
  { s with store.entries := s.store.entries.modify (·.id == id) f }

/-- Somebody writes a text into the field for the tags. -/
def overwriteTags (id : Id) (text : String) : Session → Session :=
  overwrite id fun e => { e with tags := text }

/-- Somebody writes a text into the field for the status. -/
def overwriteStatus (id : Id) (text : String) : Session → Session :=
  overwrite id fun e => { e with status := .ofText text }

end FeedStore.Session

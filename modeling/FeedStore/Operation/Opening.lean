import FeedStore.Session

/-!
# Opening and closing

Opening a store makes sure that every table is there; tables that are missing are set up empty, which
writes. A store in memory is gone when it is closed, and opening it again starts a new one. Work that
was put off before belongs to what has been closed.
-/

namespace FeedStore

/-- Where a store is kept. -/
inductive Medium where
  | memory
  | file
  deriving DecidableEq, Repr

namespace Session

/-- Sets missing tables up. -/
def migrate (s : Session) : Except StoreError Session :=
  if s.access.missing = [] then .ok s
  else if s.access.locked then .error (.locked "unable to create schema")
  else .ok { s with access.missing := [] }

def close (s : Session) : Session := { s with access.isOpen := false }

def reopen (m : Medium) (s : Session) : Except StoreError Session :=
  let jobs := s.jobs.map fun job => { job with stale := true }
  match m with
  | .memory => .ok { now := s.now, jobs }
  | .file => ({ s with access.isOpen := true, jobs }).migrate

end Session

end FeedStore

import FeedStore.Store

/-!
# Sessions

A session is a store together with what decides whether the engine accepts a statement at the moment:
whether the store is open, whether somebody else holds its write lock, and which tables are missing. It
also holds the clock that new rows are stamped with and the work that has been put off.

Operations are sequences of statements. `Action.read` and `Action.write` run one statement each, after
`Session.refusal?` has let it pass; a refused statement changes nothing. `Action.transaction` makes a
sequence of statements one: if it ends in an error, the store is as it was before.
-/

namespace FeedStore

/-- What the engine lets a caller do at the moment. -/
structure Access where
  isOpen : Bool := true
  /-- Somebody else holds the write lock. -/
  locked : Bool := false
  missing : List TableName := []
  deriving DecidableEq, Repr

def Access.has (a : Access) (t : TableName) : Bool := !a.missing.contains t

/-- Work that is put off: sweeping what a fetch no longer lists, or removing a user. -/
inductive Work where
  | sweep (feed : Id) (hashes : List String)
  | removeUser (user : Id)
  deriving DecidableEq, Repr

def Work.name : Work → String
  | sweep _ _ => "cleanup_entries"
  | removeUser _ => "remove_user"

/-- Work that waits. It is stale once the store has been closed and opened again: it still belongs to
what was closed. -/
structure Job where
  work : Work
  stale : Bool := false
  deriving DecidableEq, Repr

/-- A store, the engine's view of it, the clock and the work that waits, oldest first. -/
structure Session where
  store : Store := {}
  access : Access := {}
  now : Int := 0
  jobs : List Job := []
  deriving Repr

/-! ## Statements -/

/-- What a statement does, and to which tables. -/
inductive Statement where
  | select (tables : List TableName)
  | insert (table : TableName)
  | update (table : TableName) (consulted : List TableName)
  | delete (table : TableName) (consulted : List TableName)
  deriving DecidableEq, Repr

/-- How much of the engine's limits a statement takes up: the values it binds, how deeply its
conditions nest and by how many terms it sorts. -/
structure Extent where
  values : Nat := 0
  depth : Nat := 0
  terms : Nat := 0
  deriving DecidableEq, Repr

/-- A statement binds no more values than this. -/
def maxValues : Nat := 32766

/-- Conditions nest no deeper than this. -/
def maxDepth : Nat := 1000

/-- A statement sorts by no more terms than this. -/
def maxTerms : Nat := 2000

/-- The extent exceeds no limit. -/
structure Extent.Fits (e : Extent) : Prop where
  values : e.values ≤ maxValues
  depth : e.depth ≤ maxDepth
  terms : e.terms ≤ maxTerms

/-- A statement that only binds values has no other limit to exceed. -/
theorem Extent.Fits.of_values {n : Nat} (h : n ≤ maxValues) : Fits { values := n } :=
  ⟨h, Nat.zero_le _, Nat.zero_le _⟩

theorem Extent.Fits.empty : Fits {} := .of_values (Nat.zero_le _)

namespace TableName

/-- The tables that the rows of a table refer to, in the order in which the engine looks for them. -/
def parents : TableName → List TableName
  | users => []
  | categories => [users]
  | feeds => [categories, users]
  | entries => [feeds, users]
  | enclosures => [entries, users]

/-- The name of a table that the engine looks for on its own account. -/
def qualified (t : TableName) : String := "main." ++ t.text

/-- The names of the tables that a row of this table refers to. -/
def parentNames (t : TableName) : List (TableName × String) :=
  t.parents.map fun p => (p, p.qualified)

end TableName

namespace Access

def enclosureLinks : List (TableName × String) := TableName.enclosures.parentNames

/-- The names that erasing entries looks up, with those for what goes with them. -/
def entryLinks (a : Access) : List (TableName × String) :=
  TableName.entries.parentNames ++ (if a.has .enclosures then enclosureLinks else [])

def feedLinks (a : Access) : List (TableName × String) :=
  TableName.feeds.parentNames ++ (if a.has .entries then a.entryLinks else [])

def categoryLinks (a : Access) : List (TableName × String) :=
  TableName.categories.parentNames ++ (if a.has .feeds then a.feedLinks else [])

def userLinks (a : Access) : List (TableName × String) :=
  (if a.has .enclosures then enclosureLinks else [])
    ++ (if a.has .entries then a.entryLinks else [])
    ++ (if a.has .feeds then a.feedLinks else [])
    ++ (if a.has .categories then a.categoryLinks else [])

/-- The names that erasing rows of a table looks up besides the table itself. -/
def links (a : Access) : TableName → List (TableName × String)
  | .users => a.userLinks
  | .categories => a.categoryLinks
  | .feeds => a.feedLinks
  | .entries => a.entryLinks
  | .enclosures => enclosureLinks

end Access

namespace Statement

def writes : Statement → Bool
  | select _ => false
  | _ => true

/-- The tables that the statement names, in the order in which the engine looks for them, each with the
name it is looked for under. -/
def names (a : Access) : Statement → List (TableName × String)
  | select tables => tables.map fun t => (t, t.text)
  | insert table => (table, table.text) :: table.parentNames
  | update table consulted => (table :: consulted).map fun t => (t, t.text)
  | delete table consulted => (table :: consulted).map (fun t => (t, t.text)) ++ a.links table

end Statement

/-- Why the engine would refuse a statement, whatever the rows are: the store is closed, the statement
binds too many values or nests too deeply, it names a missing table, it sorts by too many terms, or it
writes while somebody else holds the lock. The first of these that applies is the reason. -/
def Session.refusal? (s : Session) (statement : Statement) (extent : Extent) : Option Fault :=
  if !s.access.isOpen then some .closed
  else if extent.values > maxValues then some .tooManyValues
  else if extent.depth > maxDepth then some .tooDeep
  else
    match (statement.names s.access).find? fun n => !s.access.has n.1 with
    | some (_, name) => some (.noTable name)
    | none =>
      if extent.terms > maxTerms then some .tooManyTerms
      else if statement.writes && s.access.locked then some .locked
      else none

/-- A statement is accepted if nothing that would be a reason to refuse it applies. -/
theorem Session.refusal?_eq_none_iff {s : Session} {statement : Statement} {extent : Extent} :
    s.refusal? statement extent = none ↔ s.access.isOpen = true ∧ extent.Fits
      ∧ (∀ n ∈ statement.names s.access, s.access.has n.1 = true)
      ∧ (statement.writes && s.access.locked) = false := by
  have hnext : ∀ {p : Prop} [Decidable p] {fault : Fault} {rest : Option Fault},
      (if p then some fault else rest) = none ↔ ¬ p ∧ rest = none := by
    intro p _ fault rest
    split <;> simp [*]
  have hnames : (statement.names s.access).find? (fun n => !s.access.has n.1) = none
      ↔ ∀ n ∈ statement.names s.access, s.access.has n.1 = true := by simp
  rw [← hnames]
  unfold Session.refusal?
  simp only [hnext, Bool.not_eq_true', Bool.not_eq_false]
  cases (statement.names s.access).find? (fun n => !s.access.has n.1) with
  | some n =>
      constructor
      · rintro ⟨-, -, -, h⟩
        cases h
      · rintro ⟨-, -, h, -⟩
        cases h
  | none =>
      simp only [hnext, Bool.not_eq_true, and_true, true_and]
      constructor
      · rintro ⟨hopen, hvalues, hdepth, hterms, hlock⟩
        exact ⟨hopen, ⟨Nat.not_lt.1 hvalues, Nat.not_lt.1 hdepth, Nat.not_lt.1 hterms⟩, hlock⟩
      · rintro ⟨hopen, hextent, hlock⟩
        exact ⟨hopen, Nat.not_lt.2 hextent.values, Nat.not_lt.2 hextent.depth,
          Nat.not_lt.2 hextent.terms, hlock⟩

/-! ## Actions -/

/-- What can be done in a session: it ends with a value or an error, and leaves a session behind in
either case. -/
abbrev Action (α : Type) : Type := ExceptT StoreError (StateM Session) α

namespace Action

variable {α : Type}

/-- The ending of the action and the session it leaves behind. -/
def perform (a : Action α) (s : Session) : Except StoreError α × Session := (a.run).run s

def now : Action Int := return (← get).now

/-- The value, or the error for a fault. -/
def orFault (context : String) : Except Fault α → Action α
  | .ok a => pure a
  | .error fault => throw (.ofFault context fault)

/-- Runs a statement that reads. -/
def readWithin (extent : Extent) (context : String) (tables : List TableName)
    (f : Store → Except Fault α) : Action α := do
  let s ← get
  match s.refusal? (.select tables) extent with
  | some fault => throw (.ofFault context fault)
  | none => orFault context (f s.store)

/-- Runs a statement that reads and stays within every limit. -/
def read (context : String) (tables : List TableName) (f : Store → α) : Action α :=
  readWithin {} context tables fun s => .ok (f s)

/-- Runs a statement that writes. -/
def writeWithin (extent : Extent) (context : String) (statement : Statement)
    (f : Store → Except Fault (α × Store)) : Action α := do
  let s ← get
  match s.refusal? statement extent with
  | some fault => throw (.ofFault context fault)
  | none =>
    let (a, store) ← orFault context (f s.store)
    set { s with store }
    return a

/-- Runs a statement that writes and stays within every limit. -/
def write (context : String) (statement : Statement) (f : Store → Except Fault (α × Store)) :
    Action α :=
  writeWithin {} context statement f

/-- Runs a statement that writes and cannot fail on the rows. -/
def change (context : String) (statement : Statement) (f : Store → α × Store) : Action α :=
  write context statement fun s => .ok (f s)

/-- A write that has to reach a row. -/
def orNothing (count : Nat) : Action Unit :=
  if count = 0 then throw .nothingUpdated else pure ()

/-- Runs an action as one statement: after an error the store is as it was. -/
def transaction (purpose : Purpose) (body : Action α) : Action α := do
  let s ← get
  if !s.access.isOpen then throw (.transaction .start purpose .closed)
  try body catch e =>
    modify fun t => { t with store := s.store }
    throw e

def putOff (work : Work) : Action Unit :=
  modify fun s => { s with jobs := s.jobs ++ [{ work }] }

/-! ## What actions do -/

variable {β : Type}

@[simp] theorem perform_pure (a : α) (s : Session) : (pure a : Action α).perform s = (.ok a, s) := rfl

@[simp] theorem perform_throw (e : StoreError) (s : Session) :
    (throw e : Action α).perform s = (.error e, s) := rfl

theorem perform_bind (a : Action α) (f : α → Action β) (s : Session) :
    (a >>= f).perform s =
      match a.perform s with
      | (.ok x, t) => (f x).perform t
      | (.error e, t) => (.error e, t) := by
  show (ExceptT.run (a >>= f)).run s = _
  rw [ExceptT.run_bind]
  simp only [StateT.run_bind, perform]
  cases h : a.run.run s with
  | mk r t => cases r <;> rfl

@[simp] theorem perform_now (s : Session) : now.perform s = (.ok s.now, s) := rfl

@[simp] theorem perform_putOff (w : Work) (s : Session) :
    (putOff w).perform s = (.ok (), { s with jobs := s.jobs ++ [{ work := w }] }) := rfl

theorem perform_orNothing (n : Nat) (s : Session) :
    (orNothing n).perform s = (if n = 0 then .error .nothingUpdated else .ok (), s) := by
  unfold orNothing
  split <;> rfl

theorem perform_get_bind (f : Session → Action β) (s : Session) :
    ((get : Action Session) >>= f).perform s = (f s).perform s := rfl

theorem perform_orFault (context : String) (r : Except Fault α) (s : Session) :
    (orFault context r).perform s = (r.mapError (.ofFault context), s) := by
  cases r <;> rfl

theorem perform_readWithin (extent : Extent) (context : String) (tables : List TableName)
    (f : Store → Except Fault α) (s : Session) :
    (readWithin extent context tables f).perform s =
      match s.refusal? (.select tables) extent with
      | some fault => (.error (.ofFault context fault), s)
      | none => ((f s.store).mapError (.ofFault context), s) := by
  unfold readWithin
  rw [perform_get_bind]
  cases h : s.refusal? (.select tables) extent <;> simp [perform_orFault]

theorem perform_writeWithin (extent : Extent) (context : String) (statement : Statement)
    (f : Store → Except Fault (α × Store)) (s : Session) :
    (writeWithin extent context statement f).perform s =
      match s.refusal? statement extent with
      | some fault => (.error (.ofFault context fault), s)
      | none =>
        match f s.store with
        | .error fault => (.error (.ofFault context fault), s)
        | .ok (a, store) => (.ok a, { s with store }) := by
  unfold writeWithin
  rw [perform_get_bind]
  cases h : s.refusal? statement extent with
  | some fault => simp
  | none =>
    cases hf : f s.store with
    | error fault =>
      rw [perform_bind, perform_orFault]
      rfl
    | ok r =>
      rw [perform_bind, perform_orFault]
      rfl

/-- A transaction that ends in an error leaves the store as it was. -/
theorem perform_transaction (purpose : Purpose) (body : Action α) (s : Session) :
    (transaction purpose body).perform s =
      if s.access.isOpen then
        match body.perform s with
        | (.ok a, t) => (.ok a, t)
        | (.error e, t) => (.error e, { t with store := s.store })
      else (.error (.transaction .start purpose .closed), s) := by
  unfold transaction
  rw [perform_get_bind]
  cases h : s.access.isOpen with
  | false => simp
  | true =>
    simp only [Bool.not_true, Bool.false_eq_true, if_false, if_true]
    show (ExceptT.run (tryCatch body _)).run s = _
    rw [ExceptT.run_tryCatch]
    simp only [StateT.run_bind, perform]
    cases hb : body.run.run s with
    | mk r t => cases r <;> rfl

end Action

/-- Nothing keeps statements from running: the store is open, nobody else holds its lock, and no table
is missing. -/
def Session.Ready (s : Session) : Prop := s.access = {}

/-- A ready session refuses only what exceeds a limit. -/
theorem Session.Ready.refusal? {s : Session} (h : s.Ready) (statement : Statement) {extent : Extent}
    (hextent : extent.Fits) : s.refusal? statement extent = none := by
  have haccess : s.access = {} := h
  rw [refusal?_eq_none_iff, haccess]
  exact ⟨rfl, hextent, fun _ _ => rfl, Bool.and_false _⟩

end FeedStore

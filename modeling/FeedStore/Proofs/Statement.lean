import FeedStore.Command
import FeedStore.Proofs.Rows
import Mathlib.Logic.Relation

/-!
# What statements do to a store

Operations change a store by statements, one after the other, and a `Step` is one statement
that has gone through. Every operation, every job and every command takes a store through a
chain of steps (`Action.Evolves`, `Command.takes_next`), whatever it answers: a refused
statement is no step, and a transaction that fails goes back to where it began. So what a
single step keeps, a run keeps, and what no step can do never happens.
-/

namespace FeedStore

/-! ## Steps of a store -/

/-- The user has that entry. -/
def Store.HasEntryOf (s : Store) (user entry : Id) : Prop :=
  ∃ e ∈ s.entries.rows, e.isOwn user entry = true

/-- One statement of an operation, at the given time, has made the second store of the first
one. -/
inductive Store.Step (now : Int) : Store → Store → Prop
  | addUser {s t : Store} {name : String} {row : User} (hne : Text.trim name ≠ "")
      (h : s.addUser (Text.trim name) now = .ok (row, t)) : Step now s t
  | removeUser {s : Store} (user : Id) : Step now s (s.removeUser user).2
  | addCategory {s t : Store} {user : Id} {title : String} {hide : Bool} {row : Category}
      (hne : Action.cleanTitle title ≠ "")
      (h : s.addCategory user (Action.cleanTitle title) hide = .ok (row, t)) : Step now s t
  | hideCategory {s : Store} (user category : Id) (hide : Bool) :
      Step now s (s.hideCategory user category hide).2
  | removeCategory {s : Store} (user category : Id) : Step now s (s.removeCategory user category).2
  | addFeed {s t : Store} {user : Id} {offer : FeedOffer} {row : Feed}
      (hne : (Action.cleanOffer offer).feedUrl ≠ "")
      (h : s.addFeed user (Action.cleanOffer offer) = .ok (row, t)) : Step now s t
  | hideFeed {s : Store} (user feed : Id) (hide : Bool) :
      Step now s (s.modifyFeed user feed fun f => { f with hideGlobally := hide }).2
  | noteFetch {s : Store} (user feed : Id) (state : FetchState) :
      Step now s (s.modifyFeed user feed (Feed.fetched state)).2
  | noteFailure {s : Store} (user feed : Id) (message : String) (nextCheckAt : Int) :
      Step now s (s.failFeed user feed message now nextCheckAt).2
  | resetFeedErrors {s : Store} (user : Id) : Step now s (s.resetFeedErrors user).2
  | removeFeed {s : Store} (user feed : Id) : Step now s (s.removeFeed user feed).2
  | eraseBatch {s : Store} (user feed : Id) (size : Nat) :
      Step now s (s.removeEntriesUpTo size fun e => e.userId == user && e.feedId == feed).2
  | sweep {s : Store} (feed : Id) {hashes : List String} (hne : hashes ≠ []) :
      Step now s (s.removeEntries (Entry.isSweepable feed hashes)).2
  | addEntry {s t : Store} {user feed : Id} {c : Candidate} {id : Id}
      (hnew : s.item? feed c.hash = none) (h : s.addEntry user feed c now = .ok (id, t)) :
      Step now s t
  | refreshEntry {s : Store} (user feed : Id) (c : Candidate) :
      Step now s (s.refreshEntry user feed c now).2
  | updateText {s : Store} (user entry : Id) (title content : String) (readingTime : Int) :
      Step now s (s.modifyEntries (Entry.isOwn user entry) fun e =>
        { e with title, content, readingTime, changedAt := now }).2
  | putEnclosure {s t : Store} {user entry : Id} {url mimeType : String} {size : Int}
      {row : Enclosure} (hne : Text.trim url ≠ "") (hown : s.HasEntryOf user entry)
      (h : s.putEnclosure user entry (Text.trim url) mimeType size = .ok (row, t)) : Step now s t
  | removeStaleEnclosures {s : Store} (user entry : Id) (urls : List String) :
      Step now s (s.removeStaleEnclosures user entry urls).2
  | setProgression {s : Store} (user enclosure : Id) (seconds : Int) :
      Step now s (s.setProgression user enclosure seconds).2
  | setStatus {s : Store} (user : Id) (ids : List Id) (status : Status) :
      Step now s (s.setStatus user ids status now).2
  | setStar {s : Store} (user : Id) (ids : List Id) (starred : Bool) :
      Step now s (s.setStar user ids starred now).2
  | toggleStar {s : Store} (user entry : Id) : Step now s (s.toggleStar user entry now).2
  | markRead {s : Store} (user : Id) (p : Entry → Bool) : Step now s (s.markRead user p now).2
  | archive {s : Store} (status : Status) (cutoff limit : Int) :
      Step now s (s.archive status cutoff limit).2
  | flush {s : Store} (user : Id) : Step now s (s.flush user now).2
  | setShareCode {s t : Store} {user entry : Id} {code : String} {count : Nat}
      (h : s.setShareCode user entry code = .ok (count, t)) : Step now s t

/-- Some statements, one after the other. -/
abbrev Store.Steps (now : Int) : Store → Store → Prop := Relation.ReflTransGen (Store.Step now)

/-! ## Sessions that statements lead to -/

/-- Statements have made the second session of the first one: only the store differs, and not
even that if it is closed. -/
structure Session.Evolves (s t : Session) : Prop where
  rest : t = { s with store := t.store }
  store : s.store.Steps s.now t.store
  closed : s.access.isOpen = false → t.store = s.store

namespace Session.Evolves

variable {s t u : Session}

theorem refl (s : Session) : s.Evolves s := ⟨rfl, .refl, fun _ => rfl⟩

theorem now (h : s.Evolves t) : t.now = s.now := by rw [h.rest]

theorem access (h : s.Evolves t) : t.access = s.access := by rw [h.rest]

theorem jobs (h : s.Evolves t) : t.jobs = s.jobs := by rw [h.rest]

theorem trans (h : s.Evolves t) (h' : t.Evolves u) : s.Evolves u := by
  refine ⟨?_, h.store.trans (h.now ▸ h'.store), fun hclosed => ?_⟩
  · rw [h'.rest, h.rest]
  · rw [h'.closed (h.access ▸ hclosed), h.closed hclosed]

end Session.Evolves

namespace Action

variable {α β : Type}

/-- Whatever the action answers in a session, statements have led to what it leaves behind. -/
def Evolves (a : Action α) (s : Session) : Prop := s.Evolves (a.perform s).2

theorem Evolves.of_perform {a : Action α} {s t : Session} {r : Except StoreError α}
    (h : a.Evolves s) (hrun : a.perform s = (r, t)) : s.Evolves t := by
  unfold Evolves at h
  rwa [hrun] at h

theorem evolves_pure (a : α) (s : Session) : (pure a : Action α).Evolves s := .refl s

theorem evolves_throw (e : StoreError) (s : Session) : (throw e : Action α).Evolves s := .refl s

theorem evolves_bind {a : Action α} {f : α → Action β} {s : Session} (ha : a.Evolves s)
    (hf : ∀ x t, a.perform s = (.ok x, t) → (f x).Evolves t) : (a >>= f).Evolves s := by
  unfold Evolves at ha ⊢
  rw [perform_bind]
  cases h : a.perform s with
  | mk r t =>
      rw [h] at ha
      cases r with
      | error e => exact ha
      | ok x => exact ha.trans (hf x t h)

/-- Reading the clock leads on in the same session. -/
theorem evolves_now_bind {f : Int → Action β} {s : Session} (hf : (f s.now).Evolves s) :
    (Action.now >>= f).Evolves s :=
  evolves_bind (.refl s) fun x t h => by
    obtain ⟨rfl, rfl⟩ : s.now = x ∧ s = t := by simpa using h
    exact hf

/-- A request that does not meet its condition is turned down; otherwise the operation goes on. -/
theorem evolves_guard {c : Prop} [Decidable c] {e : StoreError} {k : β → Action α} {a : Action α}
    {s : Session} (ha : ¬ c → a.Evolves s) :
    (if c then (throw e : Action β) >>= k else a).Evolves s := by
  split
  · exact evolves_bind (evolves_throw e s) fun _ _ h => by cases h
  · exact ha ‹_›

theorem evolves_readWithin (extent : Extent) (context : String) (tables : List TableName)
    (f : Store → Except Fault α) (s : Session) :
    (readWithin extent context tables f).Evolves s := by
  unfold Evolves
  rw [perform_readWithin]
  cases s.refusal? (.select tables) extent with
  | none => exact .refl s
  | some fault => exact .refl s

theorem evolves_read (context : String) (tables : List TableName) (f : Store → α) (s : Session) :
    (read context tables f).Evolves s := evolves_readWithin {} context tables _ s

theorem evolves_orNothing (n : Nat) (s : Session) : (orNothing n).Evolves s := by
  unfold Evolves
  rw [perform_orNothing]
  exact .refl s

theorem evolves_writeWithin {extent : Extent} {context : String} {statement : Statement}
    {f : Store → Except Fault (α × Store)} {s : Session}
    (hf : ∀ a store, f s.store = .ok (a, store) → s.store.Step s.now store) :
    (writeWithin extent context statement f).Evolves s := by
  unfold Evolves
  rw [perform_writeWithin]
  cases hr : s.refusal? statement extent with
  | some fault => exact .refl s
  | none =>
      cases h : f s.store with
      | error fault => exact .refl s
      | ok r =>
          refine ⟨rfl, .single (hf r.1 r.2 h), fun hclosed => ?_⟩
          simp [Session.refusal?, hclosed] at hr

theorem evolves_write {context : String} {statement : Statement}
    {f : Store → Except Fault (α × Store)} {s : Session}
    (hf : ∀ a store, f s.store = .ok (a, store) → s.store.Step s.now store) :
    (write context statement f).Evolves s := evolves_writeWithin hf

theorem evolves_change {context : String} {statement : Statement} {f : Store → α × Store}
    {s : Session} (hf : s.store.Step s.now (f s.store).2) :
    (change context statement f).Evolves s :=
  evolves_write fun a store h => by
    have h : (f s.store).2 = store := congrArg Prod.snd (Except.ok.inj h)
    exact h ▸ hf

/-- A statement whose count decides whether the operation has reached a row. -/
theorem evolves_change_orNothing {context : String} {statement : Statement}
    {f : Store → Nat × Store}
    {s : Session} (hf : s.store.Step s.now (f s.store).2) :
    (change context statement f >>= orNothing).Evolves s :=
  evolves_bind (evolves_change hf) fun n t _ => evolves_orNothing n t

theorem evolves_transaction {purpose : Purpose} {body : Action α} {s : Session}
    (h : body.Evolves s) : (transaction purpose body).Evolves s := by
  unfold Evolves at h ⊢
  rw [perform_transaction]
  split
  · cases hb : body.perform s with
    | mk r t =>
        rw [hb] at h
        cases r with
        | ok a => exact h
        | error e =>
          have ht : { t with store := s.store } = s := by
            rw [show t = { s with store := t.store } from h.rest]
          show s.Evolves { t with store := s.store }
          rw [ht]
          exact .refl s
  · exact .refl s

/-! ## What an operation that goes through has done -/

theorem of_perform_bind {a : Action α} {f : α → Action β} {s u : Session} {y : β}
    (h : (a >>= f).perform s = (.ok y, u)) :
    ∃ x t, a.perform s = (.ok x, t) ∧ (f x).perform t = (.ok y, u) := by
  rw [perform_bind] at h
  cases ha : a.perform s with
  | mk r t =>
      rw [ha] at h
      cases r with
      | error e => cases h
      | ok x => exact ⟨x, t, rfl, h⟩

theorem of_perform_now_bind {f : Int → Action β} {s u : Session} {y : β}
    (h : (Action.now >>= f).perform s = (.ok y, u)) : (f s.now).perform s = (.ok y, u) := by
  rw [perform_bind] at h
  exact h

theorem of_perform_transaction {purpose : Purpose} {body : Action α} {s t : Session} {a : α}
    (h : (transaction purpose body).perform s = (.ok a, t)) : body.perform s = (.ok a, t) := by
  rw [perform_transaction] at h
  split at h
  · cases hb : body.perform s with
    | mk r u =>
        rw [hb] at h
        cases r with
        | error e => cases h
        | ok x => exact h
  · cases h

theorem of_perform_readWithin {extent : Extent} {context : String} {tables : List TableName}
    {f : Store → Except Fault α} {s t : Session} {a : α}
    (h : (readWithin extent context tables f).perform s = (.ok a, t)) :
    f s.store = .ok a ∧ t = s := by
  rw [perform_readWithin] at h
  cases hr : s.refusal? (.select tables) extent with
  | some fault =>
      rw [hr] at h
      cases h
  | none =>
      rw [hr] at h
      cases hf : f s.store with
      | error fault =>
          rw [hf] at h
          cases h
      | ok x =>
          rw [hf] at h
          cases h
          exact ⟨rfl, rfl⟩

theorem of_perform_read {context : String} {tables : List TableName} {f : Store → α} {s t : Session}
    {a : α} (h : (read context tables f).perform s = (.ok a, t)) : a = f s.store ∧ t = s := by
  obtain ⟨hf, rfl⟩ := of_perform_readWithin h
  exact ⟨(Except.ok.inj hf).symm, rfl⟩

theorem of_perform_write {context : String} {statement : Statement}
    {f : Store → Except Fault (α × Store)} {s t : Session} {a : α}
    (h : (write context statement f).perform s = (.ok a, t)) :
    ∃ store, f s.store = .ok (a, store) ∧ t = { s with store } := by
  unfold write at h
  rw [perform_writeWithin] at h
  cases hr : s.refusal? statement {} with
  | some fault =>
      rw [hr] at h
      cases h
  | none =>
      rw [hr] at h
      cases hf : f s.store with
      | error fault =>
          rw [hf] at h
          cases h
      | ok r =>
          rw [hf] at h
          cases h
          exact ⟨r.2, rfl, rfl⟩

theorem of_perform_change {context : String} {statement : Statement} {f : Store → α × Store}
    {s t : Session} {a : α} (h : (change context statement f).perform s = (.ok a, t)) :
    a = (f s.store).1 ∧ t = { s with store := (f s.store).2 } := by
  obtain ⟨store, hf, rfl⟩ := of_perform_write h
  rw [Except.ok.inj hf]
  exact ⟨rfl, rfl⟩

/-! ## What goes through in a ready session -/

theorem perform_read_of_ready {context : String} {tables : List TableName} {f : Store → α}
    {s : Session} (hs : s.Ready) :
    (read context tables f).perform s = (.ok (f s.store), s) := by
  unfold read
  rw [perform_readWithin, hs.refusal? _ .empty]
  rfl

theorem perform_write_of_ready {context : String} {statement : Statement}
    {f : Store → Except Fault (α × Store)} {s : Session} (hs : s.Ready) {a : α} {store : Store}
    (hf : f s.store = .ok (a, store)) :
    (write context statement f).perform s = (.ok a, { s with store }) := by
  unfold write
  rw [perform_writeWithin, hs.refusal? _ .empty, hf]

theorem perform_change_of_ready {context : String} {statement : Statement} {f : Store → α × Store}
    {s : Session} (hs : s.Ready) :
    (change context statement f).perform s
      = (.ok (f s.store).1, { s with store := (f s.store).2 }) :=
  perform_write_of_ready hs rfl

theorem perform_change_orNothing_of_ready {context : String} {statement : Statement}
    {f : Store → Nat × Store} {s : Session} (hs : s.Ready) :
    (change context statement f >>= orNothing).perform s
      = (if (f s.store).1 = 0 then .error .nothingUpdated else .ok (),
          { s with store := (f s.store).2 }) := by
  rw [perform_bind, perform_change_of_ready hs]
  exact perform_orNothing _ _

/-! ## Operations on users, categories and feeds -/

theorem evolves_createUser (username : String) (s : Session) :
    (createUser username).Evolves s := by
  unfold createUser
  dsimp only
  exact evolves_guard fun hne =>
    evolves_now_bind (evolves_write fun _ _ h => .addUser hne h)

theorem evolves_removeUser (user : Id) (s : Session) : (removeUser user).Evolves s :=
  evolves_change_orNothing (.removeUser user)

theorem evolves_createCategory (user : Id) (title : String) (hide : Bool) (s : Session) :
    (createCategory user title hide).Evolves s := by
  unfold createCategory
  dsimp only
  exact evolves_guard fun hne => evolves_write fun _ _ h => .addCategory hne h

theorem evolves_hideCategory (user category : Id) (hide : Bool) (s : Session) :
    (hideCategory user category hide).Evolves s :=
  evolves_change_orNothing (.hideCategory user category hide)

theorem evolves_removeCategory (user category : Id) (s : Session) :
    (removeCategory user category).Evolves s :=
  evolves_change_orNothing (.removeCategory user category)

theorem evolves_createFeed (user : Id) (offer : FeedOffer) (s : Session) :
    (createFeed user offer).Evolves s := by
  unfold createFeed
  dsimp only
  exact evolves_guard fun hne => evolves_write fun _ _ h => .addFeed hne h

theorem evolves_hideFeed (user feed : Id) (hide : Bool) (s : Session) :
    (hideFeed user feed hide).Evolves s :=
  evolves_change_orNothing (.hideFeed user feed hide)

theorem evolves_updateFetchState (user feed : Id) (state : FetchState) (s : Session) :
    (updateFetchState user feed state).Evolves s :=
  evolves_change_orNothing (.noteFetch user feed state)

theorem evolves_recordFeedError (user feed : Id) (message : String) (nextCheckAt : Int)
    (s : Session) : (recordFeedError user feed message nextCheckAt).Evolves s := by
  unfold recordFeedError
  refine evolves_now_bind (evolves_bind
    (evolves_change (.noteFailure user feed message nextCheckAt))
    fun count t _ => ?_)
  cases count with
  | none => exact evolves_throw _ t
  | some n => exact evolves_pure n t

theorem evolves_resetFeedErrors (user : Id) (s : Session) : (resetFeedErrors user).Evolves s :=
  evolves_change (.resetFeedErrors user)

/-! ## Operations of readers -/

theorem evolves_setStatus (user : Id) (ids : List Id) (status : Status) (s : Session) :
    (setStatus user ids status).Evolves s := by
  unfold setStatus
  split
  · exact evolves_pure () s
  · refine evolves_now_bind (evolves_bind (evolves_writeWithin fun _ _ h => ?_)
      fun _ t _ => evolves_pure () t)
    cases h
    exact .setStatus user ids status

theorem evolves_setStatusCount (user : Id) (ids : List Id) (status : Status) (s : Session) :
    (setStatusCount user ids status).Evolves s := by
  unfold setStatusCount
  split
  · exact evolves_pure 0 s
  · exact evolves_bind (evolves_setStatus user ids status s)
      fun _ t _ => evolves_readWithin _ _ _ _ t

theorem evolves_setStar (user : Id) (ids : List Id) (starred : Bool) (s : Session) :
    (setStar user ids starred).Evolves s := by
  unfold setStar
  split
  · exact evolves_pure () s
  · refine evolves_now_bind (evolves_bind (evolves_writeWithin fun _ _ h => ?_)
      fun n t _ => evolves_orNothing n t)
    cases h
    exact .setStar user ids starred

theorem evolves_toggleStar (user entry : Id) (s : Session) :
    (toggleStar user entry).Evolves s := by
  unfold toggleStar
  exact evolves_now_bind (evolves_change_orNothing (.toggleStar user entry))

theorem evolves_markRead (context : String) (consulted : List TableName) (user : Id)
    (p : Store → Entry → Bool) (s : Session) : (markRead context consulted user p).Evolves s := by
  unfold markRead
  exact evolves_now_bind (evolves_change (.markRead user (p s.store)))

theorem evolves_storeShareCode (user entry : Id) (code : String) (s : Session) :
    (storeShareCode user entry code).Evolves s := by
  unfold storeShareCode
  exact evolves_bind (evolves_write fun _ _ h => .setShareCode h) fun _ t _ => evolves_pure () t

theorem evolves_share (user entry : Id) (drawn : String) (s : Session) :
    (share user entry drawn).Evolves s := by
  unfold share
  refine evolves_bind (evolves_read _ _ _ s) fun code t _ => ?_
  cases code with
  | none => exact evolves_pure none t
  | some code =>
      dsimp only
      split
      · exact evolves_pure _ t
      · exact evolves_bind (evolves_storeShareCode user entry drawn t)
          fun _ u _ => evolves_pure _ u

theorem evolves_unshare (user entry : Id) (s : Session) : (unshare user entry).Evolves s := by
  unfold unshare
  exact evolves_bind (evolves_write fun _ _ h => .setShareCode h)
    fun n t _ => evolves_orNothing n t

theorem evolves_archive (status : Status) (days limit : Int) (s : Session) :
    (archive status days limit).Evolves s := by
  unfold archive
  split
  · exact evolves_pure 0 s
  · refine evolves_now_bind ?_
    cases cutoff? s.now days with
    | none => exact evolves_pure 0 s
    | some cutoff => exact evolves_change (.archive status cutoff limit)

theorem evolves_flushHistory (user : Id) (s : Session) : (flushHistory user).Evolves s := by
  unfold flushHistory
  exact evolves_now_bind (evolves_change (.flush user))

theorem evolves_sweep (feed : Id) (hashes : List String) (s : Session) :
    (sweep feed hashes).Evolves s := by
  unfold sweep
  split
  · exact evolves_pure 0 s
  · exact evolves_change (.sweep feed ‹_›)

/-! ## Refreshing -/

theorem entries_of_putEnclosure {s t : Store} {user entry : Id} {url mimeType : String} {size : Int}
    {row : Enclosure} (h : s.putEnclosure user entry url mimeType size = .ok (row, t)) :
    t.entries = s.entries := by
  rcases Store.of_putEnclosure h with ⟨x, -, -, rfl⟩ | ⟨-, -, -, -, rfl⟩
  · rfl
  · rfl

theorem evolves_putEnclosures {user entry : Id} (offers : List EnclosureOffer)
    (stored : List Enclosure) {s : Session} (hown : s.store.HasEntryOf user entry) :
    (putEnclosures user entry offers stored).Evolves s := by
  induction offers generalizing stored s with
  | nil => exact evolves_pure stored s
  | cons offer offers ih =>
      unfold putEnclosures
      dsimp only
      split
      · exact ih stored hown
      · refine evolves_bind (evolves_write fun _ _ h => .putEnclosure ‹_› hown h)
          fun x t hwrite => ih _ ?_
        obtain ⟨store, hput, rfl⟩ := of_perform_write hwrite
        unfold Store.HasEntryOf
        rw [entries_of_putEnclosure hput]
        exact hown

theorem evolves_updateEnclosures {user entry : Id} (offers : List EnclosureOffer) {s : Session}
    (hown : s.store.HasEntryOf user entry) : (updateEnclosures user entry offers).Evolves s := by
  unfold updateEnclosures
  split
  · exact evolves_pure () s
  · refine evolves_bind (evolves_putEnclosures offers [] hown) fun stored t _ => ?_
    exact evolves_bind (evolves_change (.removeStaleEnclosures user entry _))
      fun _ u _ => evolves_pure () u

theorem evolves_updateProgression (user enclosure : Id) (seconds : Int) (s : Session) :
    (updateProgression user enclosure seconds).Evolves s :=
  evolves_change_orNothing (.setProgression user enclosure seconds)

theorem evolves_fetchEntry (id : Id) (s : Session) : (fetchEntry id).Evolves s := by
  unfold fetchEntry
  refine evolves_bind (evolves_readWithin _ _ _ _ s) fun listed t _ => ?_
  cases listed.view with
  | ok view => exact evolves_pure view t
  | error e => exact evolves_throw e t

theorem evolves_createEntry {user feed : Id} {c : Candidate} {s : Session}
    (hnew : s.store.item? feed c.hash = none) : (createEntry user feed c).Evolves s := by
  unfold createEntry
  refine evolves_now_bind (evolves_bind (evolves_write fun _ _ h => .addEntry hnew h)
    fun id t hwrite => ?_)
  have hown : t.store.HasEntryOf user id := by
    obtain ⟨store, hadd, rfl⟩ := of_perform_write hwrite
    obtain ⟨-, -, rfl, rfl⟩ := Store.of_addEntry hadd
    refine ⟨c.toEntry user feed s.now (s.store.entries.lastId + 1), ?_, ?_⟩
    · rw [Table.rows_add]
      exact List.mem_append_right _ (List.mem_singleton_self _)
    · simp [Entry.isOwn, Candidate.toEntry]
  refine evolves_bind (evolves_putEnclosures c.enclosures [] hown) fun enclosures u _ => ?_
  exact evolves_bind (evolves_fetchEntry id u) fun view v _ => evolves_pure _ v

theorem evolves_updateEntry (user feed : Id) (c : Candidate) (s : Session) :
    (updateEntry user feed c).Evolves s := by
  unfold updateEntry
  refine evolves_now_bind (evolves_bind (evolves_change (.refreshEntry user feed c))
    fun id t hchange => ?_)
  obtain ⟨hid, rfl⟩ := of_perform_change hchange
  cases id with
  | none => exact evolves_throw _ _
  | some id =>
      refine evolves_updateEnclosures c.enclosures ?_
      obtain ⟨e, he, rfl⟩ := Option.map_eq_some_iff.1 hid.symm
      have hp := List.find?_some he
      refine ⟨e.refreshed c s.now, ?_, ?_⟩
      · exact Table.mem_rows_modify.2 ⟨e, List.mem_of_find?_eq_some he, by rw [if_pos hp]⟩
      · simpa [Entry.isOwn, Entry.refreshed] using (Bool.and_eq_true_iff.1 hp).1

theorem evolves_reconcile (user feed : Id) (update : Bool) (c : Candidate) (s : Session) :
    (reconcile user feed update c).Evolves s := by
  unfold reconcile
  refine evolves_bind (evolves_read _ _ _ s) fun found t hf => ?_
  obtain ⟨rfl, rfl⟩ := of_perform_read hf
  cases hi : t.store.item? feed c.hash with
  | some e =>
      cases update with
      | true =>
          exact evolves_bind (evolves_updateEntry user feed c t) fun _ u _ => evolves_pure _ u
      | false => exact evolves_pure none t
  | none => exact evolves_bind (evolves_createEntry hi) fun view u _ => evolves_pure _ u

theorem evolves_reconcileAll (user feed : Id) (update : Bool) (cs : List Candidate) (s : Session) :
    (reconcileAll user feed update cs).Evolves s := by
  induction cs generalizing s with
  | nil => exact evolves_pure [] s
  | cons c cs ih =>
      unfold reconcileAll
      refine evolves_bind (evolves_transaction (evolves_reconcile user feed update c s))
        fun created t _ => ?_
      exact evolves_bind (ih t) fun more u _ => evolves_pure _ u

theorem evolves_updateText (user entry : Id) (title content : String) (readingTime : Int)
    (s : Session) : (updateText user entry title content readingTime).Evolves s := by
  unfold updateText
  exact evolves_now_bind
    (evolves_change_orNothing (.updateText user entry title content readingTime))

/-! ## Removal -/

theorem evolves_eraseEntries (user feed : Id) (batches : Nat) (s : Session) :
    (eraseEntries user feed batches).Evolves s := by
  induction batches generalizing s with
  | zero => exact evolves_pure () s
  | succ batches ih =>
      unfold eraseEntries
      refine evolves_bind (evolves_change (.eraseBatch user feed eraseBatch)) fun n t _ => ?_
      split
      · exact evolves_pure () t
      · exact ih t

theorem evolves_removeFeed (user feed : Id) (s : Session) : (removeFeed user feed).Evolves s := by
  unfold removeFeed
  show (eraseEntries user feed (s.store.entries.rows.length + 1) >>= _).Evolves s
  exact evolves_bind (evolves_eraseEntries user feed _ s)
    fun _ t _ => evolves_change_orNothing (.removeFeed user feed)

theorem evolves_removeFeeds (user : Id) (feeds : List Id) (s : Session) :
    (removeFeeds user feeds).Evolves s := by
  induction feeds generalizing s with
  | nil => exact evolves_pure () s
  | cons feed feeds ih => exact evolves_bind (evolves_removeFeed user feed s) fun _ t _ => ih t

theorem evolves_doWork (w : Work) (s : Session) : (doWork w).Evolves s := by
  cases w with
  | sweep feed hashes =>
      exact evolves_bind (evolves_sweep feed hashes s) fun _ t _ => evolves_pure () t
  | removeUser user =>
      refine evolves_bind (evolves_read _ _ _ s) fun feeds t _ => ?_
      exact evolves_bind (evolves_removeFeeds user feeds t) fun _ u _ => evolves_removeUser user u

/-! ## Commands -/

/-- A refresh compares its candidates with the store and, if that goes through, puts off a
sweep. -/
theorem perform_refreshFeed (user feed : Id) (cs : List Candidate) (update : Bool) (s : Session) :
    (refreshFeed user feed cs update).perform s =
      match (reconcileAll user feed update cs).perform s with
      | (.ok created, t) =>
        (.ok created, { t with jobs := t.jobs ++ [{ work := .sweep feed (cs.map (·.hash)) }] })
      | (.error e, t) => (.error e, t) := by
  unfold refreshFeed
  rw [perform_bind]
  cases (reconcileAll user feed update cs).perform s with
  | mk r t =>
      cases r with
      | error e => rfl
      | ok created => rfl

end Action

namespace Session

theorem evolves_runJob {job : Job} {s : Session} : s.Evolves (runJob job s).2 := by
  unfold runJob
  split
  · exact .refl s
  · exact Action.evolves_doWork job.work s

theorem evolves_runAll (jobs : List Job) (s : Session) :
    s.Evolves (Background.runAll (·.work.name) runJob jobs s).2 := by
  induction jobs generalizing s with
  | nil => exact .refl s
  | cons job jobs ih => exact evolves_runJob.trans (ih _)

end Session

namespace Command

/-- The work that a command puts off: a refresh that goes through a sweep, a removal that has
to wait itself. -/
def putsOff (c : Command) (s : Session) : List Work :=
  match c with
  | refreshFeed user feed candidates update =>
    match ((Action.refreshFeed user feed candidates update).perform s).1 with
    | .ok _ => [.sweep feed (candidates.map (·.hash))]
    | .error _ => []
  | removeUserLater user => [.removeUser user]
  | _ => []

/-- The time after the command. -/
def timeAfter (c : Command) (s : Session) : Int :=
  match c with
  | setClock now => now
  | _ => s.now

/-- What a command does: statements change the store, the access stays, the clock stands still
unless it is set, and the work that is put off goes behind what waits. Running what waits leaves
nothing waiting. A closed store stays as it is. -/
structure Takes (c : Command) (s t : Session) : Prop where
  store : s.store.Steps s.now t.store
  closed : s.access.isOpen = false → t.store = s.store
  access : t.access = s.access
  jobs : t.jobs = (if c matches .runPending then [] else s.jobs)
    ++ (c.putsOff s).map fun work => ({ work } : Job)
  now : t.now = c.timeAfter s

theorem takes_of_evolves {c : Command} {s t : Session} (h : s.Evolves t)
    (hc : (c matches .runPending) = false) (hw : c.putsOff s = []) (hnow : c.timeAfter s = s.now) :
    c.Takes s t :=
  ⟨h.store, h.closed, h.access, by simp [h.jobs, hc, hw], h.now.trans hnow.symm⟩

theorem takes_next (c : Command) (s : Session) : c.Takes s (c.next s) := by
  cases c with
  | createUser username => exact takes_of_evolves (Action.evolves_createUser username s) rfl rfl rfl
  | removeUser user => exact takes_of_evolves (Action.evolves_removeUser user s) rfl rfl rfl
  | removeUserLater user => exact ⟨.refl, fun _ => rfl, rfl, rfl, rfl⟩
  | createCategory user title hide =>
      exact takes_of_evolves (Action.evolves_createCategory user title hide s) rfl rfl rfl
  | hideCategory user category hide =>
      exact takes_of_evolves (Action.evolves_hideCategory user category hide s) rfl rfl rfl
  | removeCategory user category =>
      exact takes_of_evolves (Action.evolves_removeCategory user category s) rfl rfl rfl
  | createFeed user offer =>
      exact takes_of_evolves (Action.evolves_createFeed user offer s) rfl rfl rfl
  | hideFeed user feed hide =>
      exact takes_of_evolves (Action.evolves_hideFeed user feed hide s) rfl rfl rfl
  | updateFetchState user feed state =>
      exact takes_of_evolves (Action.evolves_updateFetchState user feed state s) rfl rfl rfl
  | recordFeedError user feed message nextCheckAt =>
      exact takes_of_evolves
        (Action.evolves_recordFeedError user feed message nextCheckAt s) rfl rfl rfl
  | resetFeedErrors user =>
      exact takes_of_evolves (Action.evolves_resetFeedErrors user s) rfl rfl rfl
  | removeFeed user feed =>
      exact takes_of_evolves (Action.evolves_removeFeed user feed s) rfl rfl rfl
  | refreshFeed user feed candidates update =>
      have h := Action.evolves_reconcileAll user feed update candidates s
      unfold Action.Evolves at h
      have hp := Action.perform_refreshFeed user feed candidates update s
      cases hr : (Action.reconcileAll user feed update candidates).perform s with
      | mk r t =>
          rw [hr] at h hp
          cases r with
          | error e =>
              refine ⟨?_, ?_, ?_, ?_, ?_⟩
              · simpa [next, after, hp] using h.store
              · simpa [next, after, hp] using h.closed
              · simpa [next, after, hp] using h.access
              · simpa [next, after, putsOff, hp] using h.jobs
              · simpa [next, after, timeAfter, hp] using h.now
          | ok created =>
              refine ⟨?_, ?_, ?_, ?_, ?_⟩
              · simpa [next, after, hp] using h.store
              · simpa [next, after, hp] using h.closed
              · simpa [next, after, hp] using h.access
              · simpa [next, after, putsOff, hp] using h.jobs
              · simpa [next, after, timeAfter, hp] using h.now
  | updateText user entry title content readingTime =>
      exact takes_of_evolves
        (Action.evolves_updateText user entry title content readingTime s) rfl rfl rfl
  | updateProgression user enclosure seconds =>
      exact takes_of_evolves (Action.evolves_updateProgression user enclosure seconds s) rfl rfl rfl
  | sweep feed hashes => exact takes_of_evolves (Action.evolves_sweep feed hashes s) rfl rfl rfl
  | setStatus user entries status =>
      exact takes_of_evolves (Action.evolves_setStatus user entries status s) rfl rfl rfl
  | setStatusCount user entries status =>
      exact takes_of_evolves (Action.evolves_setStatusCount user entries status s) rfl rfl rfl
  | setStar user entries starred =>
      exact takes_of_evolves (Action.evolves_setStar user entries starred s) rfl rfl rfl
  | toggleStar user entry =>
      exact takes_of_evolves (Action.evolves_toggleStar user entry s) rfl rfl rfl
  | archive status days limit =>
      exact takes_of_evolves (Action.evolves_archive status days limit s) rfl rfl rfl
  | flushHistory user => exact takes_of_evolves (Action.evolves_flushHistory user s) rfl rfl rfl
  | markAll user => exact takes_of_evolves (Action.evolves_markRead _ _ user _ s) rfl rfl rfl
  | markAllBefore user before =>
      exact takes_of_evolves (Action.evolves_markRead _ _ user _ s) rfl rfl rfl
  | markFeed user feed before =>
      exact takes_of_evolves (Action.evolves_markRead _ _ user _ s) rfl rfl rfl
  | markCategory user category before =>
      exact takes_of_evolves (Action.evolves_markRead _ _ user _ s) rfl rfl rfl
  | markShown user => exact takes_of_evolves (Action.evolves_markRead _ _ user _ s) rfl rfl rfl
  | share user entry drawn =>
      exact takes_of_evolves (Action.evolves_share user entry drawn s) rfl rfl rfl
  | unshare user entry => exact takes_of_evolves (Action.evolves_unshare user entry s) rfl rfl rfl
  | runPending =>
      have h := Session.evolves_runAll s.jobs { s with jobs := [] }
      exact ⟨h.store, h.closed, h.access, h.jobs, h.now⟩
  | setClock now => exact ⟨.refl, fun _ => rfl, rfl, by simp [next, putsOff], rfl⟩

end Command

/-- The second session comes out of the first one by a run of commands. -/
def Session.Leads : Session → Session → Prop :=
  Relation.ReflTransGen fun s t => ∃ c : Command, t = c.next s

/-- A reachable session is ready: no command closes the store, holds its lock or takes a table
away. -/
theorem Reachable.ready {s : Session} (h : Reachable s) : s.Ready :=
  h.invariant (fun _ => rfl) fun s c hs => ((c.takes_next s).access).trans hs

/-- Nothing that waits in a reachable session is stale: no command opens the store again. -/
theorem Reachable.current {s : Session} (h : Reachable s) : ∀ job ∈ s.jobs, job.stale = false := by
  refine h.invariant (P := fun s => ∀ job ∈ s.jobs, job.stale = false) (fun _ => ?_)
    fun s c hs => ?_
  · intro job hjob
    cases hjob
  · intro job hjob
    rw [(c.takes_next s).jobs] at hjob
    rcases List.mem_append.1 hjob with hjob | hjob
    · split at hjob
      · cases hjob
      · exact hs job hjob
    · obtain ⟨work, -, rfl⟩ := List.mem_map.1 hjob
      rfl

/-- The session after some commands. -/
def Session.run (s : Session) (cs : List Command) : Session := cs.foldl (fun s c => c.next s) s

/-- Once the store is closed, nothing changes it any more. -/
theorem Session.store_run_of_closed {s : Session} (h : s.access.isOpen = false)
    (cs : List Command) : (s.run cs).store = s.store := by
  induction cs generalizing s with
  | nil => rfl
  | cons c cs ih =>
      have htakes := c.takes_next s
      have hrest : ((c.next s).run cs).store = (c.next s).store := ih (htakes.access ▸ h)
      exact hrest.trans (htakes.closed h)

theorem Reachable.run {s : Session} (h : Reachable s) (cs : List Command) :
    Reachable (s.run cs) := by
  induction cs generalizing s with
  | nil => exact h
  | cons c cs ih => exact ih (.step c h)

/-- A new session in which a user has subscribed to one feed. -/
def Session.subscribed : Session :=
  ({ now := 0 } : Session).run
    [.createUser "ann", .createCategory 1 "news" false,
      .createFeed 1
        { categoryId := 1, title := "", feedUrl := "a", siteUrl := "", hideGlobally := false }]

theorem Reachable.subscribed : Reachable .subscribed := (Reachable.fresh 0).run _

/-- An offer with an address and nothing else. -/
def FeedOffer.bare (category : Id) (url : String) : FeedOffer :=
  { categoryId := category, title := "", feedUrl := url, siteUrl := "", hideGlobally := false }

/-- A candidate of which only hash and time of publication matter. -/
def Candidate.bare (hash : String) (publishedAt : Int) : Candidate :=
  { hash, title := "", url := "", commentsUrl := "", author := "", content := "", tags := [],
    readingTime := 0, publishedAt, enclosures := [] }

end FeedStore

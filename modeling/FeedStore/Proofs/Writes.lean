import FeedStore.Proofs.Parts
import FeedStore.Proofs.Removal
import FeedStore.Proofs.Sweep

/-!
# What each command writes

Most commands run a single statement that writes. Whatever a command answers, it has left the
tables as they were or made of them what that statement makes (`Command.writes_next`). A refresh
has gone through a front part of its batch, a removal of a feed has taken away what it says, and
running what waits has run one job after the other. What a command can do to a row is read off
from here.
-/

namespace FeedStore

namespace Action

variable {α β : Type}

/-- The action leaves the tables as they are, or makes of them what the condition says. -/
def Writes (a : Action α) (P : Store → Prop) (s : Session) : Prop :=
  (a.perform s).2.store = s.store ∨ P (a.perform s).2.store

variable {P : Store → Prop} {s : Session}

theorem writes_pure (a : α) : (pure a : Action α).Writes P s := Or.inl rfl

theorem writes_now_bind {f : Int → Action β} (h : (f s.now).Writes P s) :
    (Action.now >>= f).Writes P s := by
  unfold Writes
  rw [perform_bind]
  exact h

theorem writes_guard {c : Prop} [Decidable c] {e : StoreError} {k : β → Action α} {a : Action α}
    (h : a.Writes P s) : (if c then (throw e : Action β) >>= k else a).Writes P s := by
  split
  · exact Or.inl rfl
  · exact h

theorem writes_writeWithin {extent : Extent} {context : String} {statement : Statement}
    {f : Store → Except Fault (α × Store)} (hf : ∀ a t, f s.store = .ok (a, t) → P t) :
    (writeWithin extent context statement f).Writes P s := by
  unfold Writes
  rw [perform_writeWithin]
  cases s.refusal? statement extent with
  | some fault => exact Or.inl rfl
  | none =>
      cases h : f s.store with
      | error fault => exact Or.inl rfl
      | ok r => exact Or.inr (hf r.1 r.2 h)

theorem writes_write {context : String} {statement : Statement}
    {f : Store → Except Fault (α × Store)} (hf : ∀ a t, f s.store = .ok (a, t) → P t) :
    (write context statement f).Writes P s := writes_writeWithin hf

theorem writes_change {context : String} {statement : Statement} {f : Store → α × Store}
    (hf : P (f s.store).2) : (change context statement f).Writes P s :=
  writes_write fun a t h => by
    have ht : (f s.store).2 = t := congrArg Prod.snd (Except.ok.inj h)
    exact ht ▸ hf

/-- An action that ends in something that does not write has written what it has at first. -/
theorem writes_bind {a : Action α} {k : α → Action β} (ha : a.Writes P s)
    (hk : ∀ x t, ((k x).perform t).2.store = t.store) : (a >>= k).Writes P s := by
  unfold Writes at ha ⊢
  rw [perform_bind]
  cases h : a.perform s with
  | mk r t =>
      rw [h] at ha
      cases r with
      | error e => exact ha
      | ok x =>
          have hx : ((k x).perform t).2.store = t.store := hk x t
          show ((k x).perform t).2.store = s.store ∨ P ((k x).perform t).2.store
          rw [hx]
          exact ha

theorem writes_change_orNothing {context : String} {statement : Statement} {f : Store → Nat × Store}
    (hf : P (f s.store).2) : (change context statement f >>= orNothing).Writes P s :=
  writes_bind (writes_change hf) fun n t => by rw [perform_orNothing]

theorem store_readWithin (extent : Extent) (context : String) (tables : List TableName)
    (f : Store → Except Fault α) (s : Session) :
    ((readWithin extent context tables f).perform s).2.store = s.store := by
  rw [perform_readWithin]
  cases s.refusal? (.select tables) extent with
  | some fault => rfl
  | none => rfl

/-- A look first does not write. -/
theorem writes_read_bind {context : String} {tables : List TableName} {f : Store → α}
    {k : α → Action β} (h : (k (f s.store)).Writes P s) :
    (read context tables f >>= k).Writes P s := by
  have hstore := store_readWithin {} context tables (fun s => .ok (f s)) s
  unfold Writes
  rw [perform_bind]
  cases hr : (read context tables f).perform s with
  | mk r t =>
      cases r with
      | error e =>
          unfold read at hr
          rw [hr] at hstore
          exact Or.inl hstore
      | ok x =>
          obtain ⟨rfl, rfl⟩ := of_perform_read hr
          exact h

theorem writes_createUser (username : String) :
    (createUser username).Writes
      (fun t => ∃ row, s.store.addUser (Text.trim username) s.now = .ok (row, t)) s := by
  unfold createUser
  dsimp only
  exact writes_guard (writes_now_bind (writes_write fun row t h => ⟨row, h⟩))

theorem writes_createCategory (user : Id) (title : String) (hide : Bool) :
    (createCategory user title hide).Writes
      (fun t => ∃ row, s.store.addCategory user (cleanTitle title) hide = .ok (row, t)) s := by
  unfold createCategory
  dsimp only
  exact writes_guard (writes_write fun row t h => ⟨row, h⟩)

/-- An offer keeps the category that it names. -/
theorem categoryId_cleanOffer (offer : FeedOffer) :
    (cleanOffer offer).categoryId = offer.categoryId := by
  dsimp only [cleanOffer]

theorem writes_createFeed (user : Id) (offer : FeedOffer) :
    (createFeed user offer).Writes
      (fun t => ∃ row, s.store.addFeed user (cleanOffer offer) = .ok (row, t)) s := by
  unfold createFeed
  dsimp only
  exact writes_guard (writes_write fun row t h => ⟨row, h⟩)

theorem writes_recordFeedError (user feed : Id) (message : String) (nextCheckAt : Int) :
    (recordFeedError user feed message nextCheckAt).Writes
      (fun t => t = (s.store.failFeed user feed message s.now nextCheckAt).2) s := by
  unfold recordFeedError
  refine writes_now_bind (writes_bind (writes_change rfl) fun count t => ?_)
  cases count with
  | none => rfl
  | some n => rfl

theorem writes_updateText (user entry : Id) (title content : String) (readingTime : Int) :
    (updateText user entry title content readingTime).Writes
      (fun t => t = (s.store.modifyEntries (Entry.isOwn user entry) fun e =>
        { e with title, content, readingTime, changedAt := s.now }).2) s := by
  unfold updateText
  exact writes_now_bind (writes_change_orNothing rfl)

theorem writes_setStatus (user : Id) (ids : List Id) (status : Status) :
    (setStatus user ids status).Writes
      (fun t => t = (s.store.setStatus user ids status s.now).2) s := by
  unfold setStatus
  split
  · exact writes_pure ()
  · refine writes_now_bind (writes_bind (writes_writeWithin fun n t h => ?_) fun _ _ => rfl)
    cases h
    rfl

theorem writes_setStatusCount (user : Id) (ids : List Id) (status : Status) :
    (setStatusCount user ids status).Writes
      (fun t => t = (s.store.setStatus user ids status s.now).2) s := by
  unfold setStatusCount
  split
  · exact writes_pure 0
  · exact writes_bind (writes_setStatus user ids status) fun _ t => store_readWithin _ _ _ _ t

theorem writes_setStar (user : Id) (ids : List Id) (starred : Bool) :
    (setStar user ids starred).Writes
      (fun t => t = (s.store.setStar user ids starred s.now).2) s := by
  unfold setStar
  split
  · exact writes_pure ()
  · refine writes_now_bind (writes_bind (writes_writeWithin fun n t h => ?_) fun n t => ?_)
    · cases h
      rfl
    · rw [perform_orNothing]

theorem writes_toggleStar (user entry : Id) :
    (toggleStar user entry).Writes
      (fun t => t = (s.store.toggleStar user entry s.now).2) s := by
  unfold toggleStar
  exact writes_now_bind (writes_change_orNothing rfl)

theorem writes_archive (status : Status) (days limit : Int) :
    (archive status days limit).Writes
      (fun t => ∃ cutoff, t = (s.store.archive status cutoff limit).2) s := by
  unfold archive
  split
  · exact writes_pure 0
  · refine writes_now_bind ?_
    cases cutoff? s.now days with
    | none => exact writes_pure 0
    | some cutoff => exact writes_change ⟨cutoff, rfl⟩

theorem writes_flushHistory (user : Id) :
    (flushHistory user).Writes (fun t => t = (s.store.flush user s.now).2) s := by
  unfold flushHistory
  exact writes_now_bind (writes_change rfl)

theorem writes_markRead (context : String) (consulted : List TableName) (user : Id)
    (p : Store → Entry → Bool) :
    (markRead context consulted user p).Writes
      (fun t => t = (s.store.markRead user (p s.store) s.now).2) s := by
  unfold markRead
  exact writes_now_bind (writes_change rfl)

theorem writes_share (user entry : Id) (drawn : String) :
    (share user entry drawn).Writes
      (fun t => ∃ n, s.store.setShareCode user entry drawn = .ok (n, t)) s := by
  unfold share fetchShareCode
  refine writes_read_bind ?_
  cases s.store.shareCode? user entry with
  | none => exact writes_pure none
  | some code =>
      dsimp only
      split
      · exact writes_pure (some code)
      · unfold storeShareCode
        exact writes_bind (writes_bind (writes_write fun n t h => ⟨n, h⟩) fun _ _ => rfl)
          fun _ _ => rfl

theorem writes_unshare (user entry : Id) :
    (unshare user entry).Writes
      (fun t => ∃ n, s.store.setShareCode user entry "" = .ok (n, t)) s := by
  unfold unshare
  refine writes_bind (writes_write fun n t h => ⟨n, h⟩) fun n t => ?_
  rw [perform_orNothing]

/-- A refresh has gone through a front part of its batch, which may be all of it. -/
theorem writes_refreshFeed (user feed : Id) (cs : List Candidate) (update : Bool) (s : Session) :
    ∃ front created, front <+: cs
      ∧ (reconcileAll user feed update front).perform s
        = (.ok created,
            { s with store := ((refreshFeed user feed cs update).perform s).2.store }) := by
  have hrest : ∀ front created t, (reconcileAll user feed update front).perform s
      = (.ok created, t) → t = { s with store := t.store } := by
    intro front created t hrun
    exact ((evolves_reconcileAll user feed update front s).of_perform hrun).rest
  cases hrun : (refreshFeed user feed cs update).perform s with
  | mk r t =>
      cases r with
      | error e =>
          -- the candidate that failed has been rolled back
          obtain ⟨k, c, created, -, hfront, -⟩ :=
            exists_of_perform_reconcileAll_error (perform_refreshFeed_error_iff.1 hrun)
          refine ⟨cs.take k, created, List.take_prefix k cs, hfront.trans ?_⟩
          rw [← hrest _ _ _ hfront]
      | ok created =>
          obtain ⟨u, hwhole, rfl⟩ := perform_refreshFeed_ok_iff.1 hrun
          refine ⟨cs, created, List.prefix_rfl, hwhole.trans ?_⟩
          rw [← hrest _ _ _ hwhole]

end Action

/-! ## Work that was put off -/

/-- What the work leaves of a store. -/
def Work.leaves (w : Work) (s : Store) : Store :=
  match w with
  | .sweep feed hashes => if hashes = [] then s else s.eraseEntries (Entry.isSweepable feed hashes)
  | .removeUser user => s.eraseUser user

/-- There is nothing for the work to do, and it says so. -/
def Work.misses (w : Work) (s : Store) : Prop :=
  match w with
  | .sweep _ _ => False
  | .removeUser user => s.users.count (·.id == user) = 0

namespace Action

theorem perform_sweep (feed : Id) (hashes : List String) {s : Session} (hr : s.Ready) :
    ∃ n, (sweep feed hashes).perform s
      = (.ok n, { s with store := (Work.sweep feed hashes).leaves s.store }) := by
  unfold sweep Work.leaves
  dsimp only
  split
  · exact ⟨0, rfl⟩
  · exact ⟨_, perform_change_of_ready hr⟩

theorem perform_doWork {w : Work} {s : Session} (hr : s.Ready) (hs : s.store.Integrity) :
    ∃ r, (doWork w).perform s = (r, { s with store := w.leaves s.store })
      ∧ (¬ w.misses s.store → r = .ok ()) := by
  cases w with
  | sweep feed hashes =>
      obtain ⟨n, hsweep⟩ := perform_sweep feed hashes hr
      refine ⟨.ok (), ?_, fun _ => rfl⟩
      show (sweep feed hashes >>= fun _ => pure ()).perform s = _
      rw [perform_bind, hsweep]
      rfl
  | removeUser user =>
      refine ⟨_, (perform_removeUserByFeeds hr hs).trans (perform_removeUser hr), fun hfound => ?_⟩
      exact if_neg hfound

end Action

/-! ## Commands -/

namespace Command

open FeedStore.Action in
/-- What the command may make of the tables. -/
def Writes (c : Command) (s : Session) (t : Store) : Prop :=
  match c with
  | createUser username => ∃ row, s.store.addUser (Text.trim username) s.now = .ok (row, t)
  | removeUser user => t = (Work.removeUser user).leaves s.store
  | removeUserLater _ => False
  | createCategory user title hide =>
    ∃ row, s.store.addCategory user (cleanTitle title) hide = .ok (row, t)
  | hideCategory user category hide => t = (s.store.hideCategory user category hide).2
  | removeCategory user category => t = (s.store.removeCategory user category).2
  | createFeed user offer => ∃ row, s.store.addFeed user (cleanOffer offer) = .ok (row, t)
  | hideFeed user feed hide =>
    t = (s.store.modifyFeed user feed fun f => { f with hideGlobally := hide }).2
  | updateFetchState user feed state => t = (s.store.modifyFeed user feed (Feed.fetched state)).2
  | recordFeedError user feed message nextCheckAt =>
    t = (s.store.failFeed user feed message s.now nextCheckAt).2
  | resetFeedErrors user => t = (s.store.resetFeedErrors user).2
  | removeFeed user feed => t = s.store.withoutFeed user feed
  | refreshFeed user feed cs update => ∃ front created, front <+: cs
      ∧ (reconcileAll user feed update front).perform s = (.ok created, { s with store := t })
  | updateText user entry title content readingTime =>
    t = (s.store.modifyEntries (Entry.isOwn user entry) fun e =>
      { e with title, content, readingTime, changedAt := s.now }).2
  | updateProgression user enclosure seconds =>
    t = (s.store.setProgression user enclosure seconds).2
  | sweep feed hashes => t = (Work.sweep feed hashes).leaves s.store
  | setStatus user ids status => t = (s.store.setStatus user ids status s.now).2
  | setStatusCount user ids status => t = (s.store.setStatus user ids status s.now).2
  | setStar user ids starred => t = (s.store.setStar user ids starred s.now).2
  | toggleStar user entry => t = (s.store.toggleStar user entry s.now).2
  | archive status _ limit => ∃ cutoff, t = (s.store.archive status cutoff limit).2
  | flushHistory user => t = (s.store.flush user s.now).2
  | markAll user => t = (s.store.markRead user (fun _ => true) s.now).2
  | markAllBefore user before =>
    t = (s.store.markRead user (fun e => decide (e.publishedAt < before)) s.now).2
  | markFeed user feed before =>
    t = (s.store.markRead user
      (fun e => e.feedId == feed && decide (e.publishedAt < before)) s.now).2
  | markCategory user category before =>
    t = (s.store.markRead user
      (fun e => decide (e.publishedAt < before) && s.store.isFeedIn user category e.feedId) s.now).2
  | markShown user =>
    t = (s.store.markRead user (fun e => s.store.isShownFeedOf user e.feedId) s.now).2
  | share user entry drawn => ∃ n, s.store.setShareCode user entry drawn = .ok (n, t)
  | unshare user entry => ∃ n, s.store.setShareCode user entry "" = .ok (n, t)
  | runPending => t = (s.behind s.jobs).store
  | setClock _ => False

/-- The command can take entries away. -/
def erases : Command → Bool
  | removeUser _ | removeCategory _ _ | removeFeed _ _ | sweep _ _ | runPending => true
  | _ => false

open FeedStore.Action in
/-- A command that can take entries away has always written what it may. -/
theorem writes_of_erases {c : Command} {s : Session} (hr : s.Ready) (hs : s.store.Integrity)
    (hc : c.erases = true) : c.Writes s (c.next s).store := by
  cases c with
  | removeUser user =>
      show ((Action.removeUser user).perform s).2.store = _
      rw [perform_removeUser hr]
      rfl
  | removeCategory user category =>
      have hrun : (Action.removeCategory user category).perform s
          = (_, { s with store := (s.store.removeCategory user category).2 }) :=
        perform_change_orNothing_of_ready hr
      show ((Action.removeCategory user category).perform s).2.store = _
      rw [hrun]
  | removeFeed user feed =>
      show ((Action.removeFeed user feed).perform s).2.store = _
      rw [perform_removeFeed hr hs]
  | sweep feed hashes =>
      obtain ⟨n, hsweep⟩ := perform_sweep feed hashes hr
      show ((Action.sweep feed hashes).perform s).2.store = _
      rw [hsweep]
  | runPending => rfl
  | _ => cases hc

theorem writes_of_action {α : Type} {c : Command} {a : Action α} {s : Session}
    (hc : c.next = after a) (h : a.Writes (c.Writes s) s) :
    (c.next s).store = s.store ∨ c.Writes s (c.next s).store := by
  rw [hc]
  exact h

open FeedStore.Action in
/-- Whatever a command answers, it has left the tables as they were or written what it may. -/
theorem writes_next (c : Command) {s : Session} (hr : s.Ready) (hs : s.store.Integrity) :
    (c.next s).store = s.store ∨ c.Writes s (c.next s).store := by
  cases c with
  | createUser username => exact writes_of_action rfl (writes_createUser username)
  | removeUser user => exact Or.inr (writes_of_erases hr hs rfl)
  | removeUserLater user => exact Or.inl rfl
  | createCategory user title hide =>
      exact writes_of_action rfl (writes_createCategory user title hide)
  | hideCategory user category hide => exact writes_of_action rfl (writes_change_orNothing rfl)
  | removeCategory user category => exact Or.inr (writes_of_erases hr hs rfl)
  | createFeed user offer => exact writes_of_action rfl (writes_createFeed user offer)
  | hideFeed user feed hide => exact writes_of_action rfl (writes_change_orNothing rfl)
  | updateFetchState user feed state => exact writes_of_action rfl (writes_change_orNothing rfl)
  | recordFeedError user feed message nextCheckAt =>
      exact writes_of_action rfl (writes_recordFeedError user feed message nextCheckAt)
  | resetFeedErrors user => exact writes_of_action rfl (writes_change rfl)
  | removeFeed user feed => exact Or.inr (writes_of_erases hr hs rfl)
  | refreshFeed user feed cs update => exact Or.inr (writes_refreshFeed user feed cs update s)
  | updateText user entry title content readingTime =>
      exact writes_of_action rfl (writes_updateText user entry title content readingTime)
  | updateProgression user enclosure seconds =>
      exact writes_of_action rfl (writes_change_orNothing rfl)
  | sweep feed hashes => exact Or.inr (writes_of_erases hr hs rfl)
  | setStatus user ids status => exact writes_of_action rfl (writes_setStatus user ids status)
  | setStatusCount user ids status =>
      exact writes_of_action rfl (writes_setStatusCount user ids status)
  | setStar user ids starred => exact writes_of_action rfl (writes_setStar user ids starred)
  | toggleStar user entry => exact writes_of_action rfl (writes_toggleStar user entry)
  | archive status days limit => exact writes_of_action rfl (writes_archive status days limit)
  | flushHistory user => exact writes_of_action rfl (writes_flushHistory user)
  | markAll user => exact writes_of_action rfl (writes_markRead _ _ user _)
  | markAllBefore user before => exact writes_of_action rfl (writes_markRead _ _ user _)
  | markFeed user feed before => exact writes_of_action rfl (writes_markRead _ _ user _)
  | markCategory user category before => exact writes_of_action rfl (writes_markRead _ _ user _)
  | markShown user => exact writes_of_action rfl (writes_markRead _ _ user _)
  | share user entry drawn => exact writes_of_action rfl (writes_share user entry drawn)
  | unshare user entry => exact writes_of_action rfl (writes_unshare user entry)
  | runPending => exact Or.inr (writes_of_erases hr hs rfl)
  | setClock now => exact Or.inl rfl

end Command

/-! ## Jobs -/

namespace Session

variable {s : Session} {job : Job}

theorem runJob_of_ready (hr : s.Ready) (hs : s.store.Integrity) (hj : job.stale = false) :
    (runJob job s).2 = { s with store := job.work.leaves s.store }
      ∧ (¬ job.work.misses s.store → (runJob job s).1 = .done) := by
  obtain ⟨r, hrun, hok⟩ := Action.perform_doWork (w := job.work) hr hs
  unfold runJob
  rw [hj, hrun]
  refine ⟨rfl, fun hfound => ?_⟩
  rw [hok hfound]
  rfl

theorem runJob_of_stale (hj : job.stale = true) : (runJob job s).2 = s := by
  unfold runJob
  rw [hj]
  rfl

/-- What every work keeps, whatever it finds, is kept when jobs are run one after the other. -/
theorem runAll_of_leaves {R : Store → Store → Prop} (refl : ∀ s, R s s)
    (trans : ∀ {s t u}, R s t → R t u → R s u) (leaves : ∀ (w : Work) (s : Store), R s (w.leaves s))
    (hr : s.Ready) (hs : s.store.Integrity) (jobs : List Job) :
    R s.store (Background.runAll (·.work.name) runJob jobs s).2.store := by
  induction jobs generalizing s with
  | nil => exact refl s.store
  | cons job jobs ih =>
      have hev : s.Evolves (runJob job s).2 := evolves_runJob
      have hfirst : R s.store (runJob job s).2.store := by
        cases hj : job.stale with
        | true =>
            rw [runJob_of_stale hj]
            exact refl s.store
        | false =>
            rw [(runJob_of_ready hr hs hj).1]
            exact leaves job.work s.store
      exact trans hfirst (ih (hev.access.trans hr) (hs.steps hev.store))

end Session

end FeedStore

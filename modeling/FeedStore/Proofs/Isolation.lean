import FeedStore.Proofs.Refresh
import FeedStore.Proofs.Tenants
import FeedStore.Proofs.Writes

/-!
# Users who keep to what is theirs

A feed can be put into the category of another user, and another user's feed can be refreshed: the
tables only ask whether the row that a new one names is there. But as long as everybody names their
own categories and feeds (`Command.isOwn`), the store stays tenanted, and a command leaves the rows
alone that it does not concern (`Command.confined_next`). So does the work that was put off
(`Session.confined_runJob`).
-/

namespace FeedStore

/-! ## A refresh -/

namespace Action

open Store

variable {user feed : Id} {update : Bool} {cs : List Candidate} {created : List EntryView}
  {s t : Session}

/-- An entry is one that was there and has seen the batch, or has been made for the user. -/
theorem Reconciles.of_mem_rows (h : Reconciles user feed update cs created s t) {e : Entry}
    (he : e ∈ t.store.entries.rows) :
    (∃ e' ∈ s.store.entries.rows, cs.foldl (Entry.seen feed update s.now) e' = e)
      ∨ e.userId = user ∧ e.feedId = feed := by
  rw [h.rows, List.mem_map] at he
  obtain ⟨e', he', rfl⟩ := he
  rcases List.mem_append.1 he' with he' | he'
  · exact Or.inl ⟨e', he', rfl⟩
  · obtain ⟨c, -, v, -, rfl⟩ := of_mem_newRows he'
    have hp := Entry.persists_foldl_seen feed update s.now (c.toEntry user feed s.now v.id) cs
    exact Or.inr ⟨hp.userId, hp.feedId⟩

/-- A batch for a feed of which every entry is the user's leaves the entries of others alone. -/
theorem Reconciles.sameBeside_entries (h : Reconciles user feed update cs created s t)
    (howned : ∀ e ∈ s.store.entries.rows, e.feedId = feed → e.userId = user) :
    Table.SameBeside Entry.userId (· = user) s.store.entries t.store.entries := by
  have hstays : ∀ e ∈ s.store.entries.rows, e.userId ≠ user →
      cs.foldl (Entry.seen feed update s.now) e = e := fun e he hne =>
    Entry.foldl_seen_of_not_mem (Or.inl fun heq => hne (howned e he heq))
  intro e hne
  constructor
  · intro he
    rcases h.of_mem_rows he with ⟨e', he', rfl⟩ | ⟨heq, -⟩
    · have hp := Entry.persists_foldl_seen feed update s.now e' cs
      rwa [hstays e' he' fun heq => hne (hp.userId.trans heq)]
    · exact absurd heq hne
  · intro he
    rw [h.rows]
    exact List.mem_map.2 ⟨e, List.mem_append_left _ he, hstays e he hne⟩

/-- Neither does it change enclosures of others, since they are attached to entries of others. -/
theorem Reconciles.sameBeside_enclosures (h : Reconciles user feed update cs created s t)
    (howned : ∀ e ∈ s.store.entries.rows, e.feedId = feed → e.userId = user)
    (hs : s.store.EnclosuresOwned) (ht : t.store.EnclosuresOwned) :
    Table.SameBeside Enclosure.userId (· = user) s.store.enclosures t.store.enclosures := by
  intro x hne
  have hattached : ∀ e ∈ s.store.entries.rows, e.isOwn x.userId x.entryId = true →
      (x ∈ t.store.enclosures.rows ↔ x ∈ s.store.enclosures.rows) := by
    intro e he hown
    obtain ⟨huser, hid⟩ := Entry.isOwn_iff.1 hown
    have hmem : x ∈ t.store.attached e.id ↔ x ∈ s.store.attached e.id := by
      rw [h.attached e he fun htold => hne (huser ▸ howned e he htold.2.1)]
    rw [mem_attached, mem_attached] at hmem
    simpa [hid] using hmem
  constructor
  · intro hx
    obtain ⟨e, he, hown⟩ := ht x hx
    have huser : e.userId = x.userId := (Entry.isOwn_iff.1 hown).1
    exact (hattached e ((h.sameBeside_entries howned e (huser ▸ hne)).1 he) hown).1 hx
  · intro hx
    obtain ⟨e, he, hown⟩ := hs x hx
    exact (hattached e he hown).2 hx

/-- A batch for a feed of the user becomes entries and enclosures of the user. -/
theorem confined_reconcileAll (hs : s.store.Integrity) (h : s.store.Tenanted)
    (hfeed : s.store.HasFeedOf user feed)
    (hrun : (reconcileAll user feed update cs).perform s = (.ok created, t)) :
    s.store.Confined (fun _ a => a = user) t.store := by
  have hrec := reconciles_reconcileAll hs hrun
  have hfeeds := hrec.spares.feeds
  have hcategories := hrec.spares.categories
  have henclosures : t.store.EnclosuresOwned :=
    h.enclosures.steps ((evolves_reconcileAll user feed update cs s).of_perform hrun).store
  have howned : ∀ e ∈ s.store.entries.rows, e.feedId = feed → e.userId = user :=
    fun e he => h.userId_eq hs hfeed he
  refine ⟨⟨fun f hf => ?_, fun e he => ?_, henclosures⟩, ?_, ?_, ?_,
    hrec.sameBeside_entries howned, hrec.sameBeside_enclosures howned h.enclosures henclosures⟩
  · unfold HasCategoryOf
    rw [hcategories]
    exact h.feeds f (hfeeds ▸ hf)
  · unfold HasFeedOf
    rw [hfeeds]
    rcases hrec.of_mem_rows he with ⟨e', he', rfl⟩ | ⟨rfl, rfl⟩
    · have hp := Entry.persists_foldl_seen feed update s.now e' cs
      rw [hp.userId, hp.feedId]
      exact h.entries e' he'
    · exact hfeed
  · rw [hrec.spares.users]
    exact fun _ _ => .rfl
  · rw [hcategories]
    exact fun _ _ => .rfl
  · rw [hfeeds]
    exact fun _ _ => .rfl

end Action

/-! ## Work that was put off -/

/-- A row of that table and that owner may be changed or taken away by the work: the removal of a
user is about the rows of that user, a sweep about entries and enclosures of the user whose feed it
is. -/
def Work.concerns (w : Work) (s : Store) (table : TableName) (owner : Id) : Prop :=
  match w with
  | .removeUser user => owner = user
  | .sweep feed _ => (table = .entries ∨ table = .enclosures) ∧ s.HasFeedOf owner feed

theorem Work.confined_leaves (w : Work) {s : Store} (hs : s.Integrity) (h : s.Tenanted) :
    s.Confined (w.concerns s) (w.leaves s) := by
  cases w with
  | removeUser user => exact h.eraseUser hs fun _ => rfl
  | sweep feed hashes =>
      unfold Work.leaves
      dsimp only
      split
      · exact .refl h
      · refine h.eraseEntries hs fun e he hp => ?_
        have hfeed : e.feedId = feed := by
          simpa using (Bool.and_eq_true_iff.1 (Bool.and_eq_true_iff.1 hp).1).1
        exact ⟨⟨Or.inl rfl, hfeed ▸ h.entries e he⟩, ⟨Or.inr rfl, hfeed ▸ h.entries e he⟩⟩

namespace Session

variable {s : Session}

/-- A job leaves the rows alone that its work does not concern. -/
theorem confined_runJob (hr : s.Ready) (hs : s.store.Integrity) (h : s.store.Tenanted) (job : Job) :
    s.store.Confined (job.work.concerns s.store) (runJob job s).2.store := by
  cases hj : job.stale with
  | true =>
      rw [runJob_of_stale hj]
      exact .refl h
  | false =>
      rw [(runJob_of_ready hr hs hj).1]
      exact job.work.confined_leaves hs h

/-- Whatever a job concerns when its turn comes it has concerned from the beginning: feeds do not
come while jobs are run. -/
theorem of_concerns_runJob (hr : s.Ready) (hs : s.store.Integrity) {job : Job} {w : Work}
    {table : TableName} {a : Id} (h : w.concerns (runJob job s).2.store table a) :
    w.concerns s.store table a := by
  have hfeeds : ∀ f ∈ (runJob job s).2.store.feeds.rows, f ∈ s.store.feeds.rows := by
    cases hj : job.stale with
    | true =>
        rw [runJob_of_stale hj]
        exact fun _ hf => hf
    | false =>
        rw [(runJob_of_ready hr hs hj).1]
        cases job.work with
        | removeUser user => exact fun _ hf => (Table.mem_rows_erase.1 hf).1
        | sweep feed hashes =>
            unfold Work.leaves
            dsimp only
            split
            · exact fun _ hf => hf
            · exact fun _ hf => hf
  cases w with
  | removeUser user => exact h
  | sweep feed hashes =>
      obtain ⟨htable, f, hf, hown⟩ := h
      exact ⟨htable, f, hfeeds f hf, hown⟩

theorem confined_runAll (hr : s.Ready) (hs : s.store.Integrity) (h : s.store.Tenanted)
    (jobs : List Job) :
    s.store.Confined (fun table a => ∃ job ∈ jobs, job.work.concerns s.store table a)
      (Background.runAll (·.work.name) runJob jobs s).2.store := by
  induction jobs generalizing s with
  | nil => exact .refl h
  | cons job jobs ih =>
      have hev : s.Evolves (runJob job s).2 := evolves_runJob
      have hfirst := (confined_runJob hr hs h job).mono fun table a hconcerns =>
        (⟨job, List.mem_cons_self, hconcerns⟩ :
          ∃ j ∈ job :: jobs, j.work.concerns s.store table a)
      refine hfirst.trans ((ih (hev.access.trans hr) (hs.steps hev.store) hfirst.tenanted).mono ?_)
      rintro table a ⟨j, hj, hconcerns⟩
      exact ⟨j, List.mem_cons_of_mem _ hj, of_concerns_runJob hr hs hconcerns⟩

end Session

/-! ## Commands -/

namespace Command

/-- Whoever creates a feed names a category of their own, and whoever refreshes one, a feed of their
own. -/
def isOwn (c : Command) (s : Session) : Bool :=
  match c with
  | createFeed user offer => s.store.categories.holds (Store.ownCategory user offer.categoryId)
  | refreshFeed user feed _ _ => s.store.feeds.holds (Store.ownFeed user feed)
  | _ => true

/-- A row of that table and that owner may be made, changed or taken away by the command. It is a
row of the user for whom the command is issued; a sweep and running what waits are for those whom
the work concerns, and archiving is for everybody. -/
def concerns (c : Command) (s : Session) (table : TableName) (owner : Id) : Prop :=
  match c with
  | createUser _ => owner = s.store.users.lastId + 1
  | removeUser user | removeUserLater user | createCategory user _ _ | hideCategory user _ _
  | removeCategory user _ | createFeed user _ | hideFeed user _ _ | updateFetchState user _ _
  | recordFeedError user _ _ _ | resetFeedErrors user | removeFeed user _ | refreshFeed user _ _ _
  | updateText user _ _ _ _ | updateProgression user _ _ | setStatus user _ _
  | setStatusCount user _ _ | setStar user _ _ | toggleStar user _ | flushHistory user
  | markAll user | markAllBefore user _ | markFeed user _ _ | markCategory user _ _ | markShown user
  | share user _ _ | unshare user _ => owner = user
  | sweep feed hashes => (Work.sweep feed hashes).concerns s.store table owner
  | archive _ _ _ => True
  | runPending => ∃ job ∈ s.jobs, job.work.concerns s.store table owner
  | setClock _ => False

open Store in
/-- A command leaves the rows alone that it does not concern. -/
theorem confined_next (c : Command) {s : Session} (hr : s.Ready) (hs : s.store.Integrity)
    (h : s.store.Tenanted) (hc : c.isOwn s = true) :
    s.store.Confined (c.concerns s) (c.next s).store := by
  rcases c.writes_next hr hs with heq | hw
  · rw [heq]
    exact .refl h
  revert hw
  generalize (c.next s).store = t
  intro hw
  cases c with
  | createUser username =>
      obtain ⟨row, hadd⟩ := hw
      obtain ⟨-, -, rfl⟩ := of_addUser hadd
      exact h.addUser rfl
  | removeUser user => exact hw ▸ h.eraseUser hs fun _ => rfl
  | removeUserLater user => exact hw.elim
  | createCategory user title hide =>
      obtain ⟨row, hadd⟩ := hw
      obtain ⟨-, -, -, rfl⟩ := of_addCategory hadd
      exact h.addCategory rfl
  | hideCategory user category hide =>
      exact hw ▸ h.modifyCategories (fun c _ hp => (ownCategory_iff.1 hp).1) fun _ => ⟨rfl, rfl⟩
  | removeCategory user category =>
      exact hw ▸ h.eraseCategories hs fun c _ hp _ => (ownCategory_iff.1 hp).1
  | createFeed user offer =>
      obtain ⟨row, hadd⟩ := hw
      have hcategory : s.store.HasCategoryOf user (Action.cleanOffer offer).categoryId := by
        rw [Action.categoryId_cleanOffer]
        exact Table.holds_iff.1 hc
      generalize Action.cleanOffer offer = clean at hadd hcategory
      obtain ⟨-, -, -, -, rfl⟩ := of_addFeed hadd
      exact h.addFeed hcategory rfl
  | hideFeed user feed hide => exact hw ▸ h.modifyFeed user feed fun _ => ⟨rfl, rfl, rfl⟩
  | updateFetchState user feed state => exact hw ▸ h.modifyFeed user feed fun _ => ⟨rfl, rfl, rfl⟩
  | recordFeedError user feed message nextCheckAt =>
      exact hw ▸ h.modifyFeed user feed fun _ => ⟨rfl, rfl, rfl⟩
  | resetFeedErrors user =>
      exact hw ▸ h.modifyFeeds (fun f _ hp => eq_of_beq hp) fun _ => ⟨rfl, rfl, rfl⟩
  | removeFeed user feed =>
      have hentries : s.store.Confined (fun _ a => a = user)
          (s.store.eraseEntries (Entry.isOf user feed)) :=
        h.eraseEntries hs fun e _ hp =>
          have howner : e.userId = user := eq_of_beq (Bool.and_eq_true_iff.1 hp).1
          ⟨howner, howner⟩
      exact hw ▸ hentries.trans (hentries.tenanted.eraseFeeds (hs.eraseEntries _)
        fun f _ hp _ => (ownFeed_iff.1 hp).1)
  | refreshFeed user feed cs update =>
      obtain ⟨front, created, -, hrun⟩ := hw
      exact Action.confined_reconcileAll hs h (Table.holds_iff.1 hc) hrun
  | updateText user entry title content readingTime =>
      exact hw ▸ h.modifyEntriesOf (fun _ hp => (Bool.and_eq_true_iff.1 hp).1)
        fun _ => ⟨rfl, rfl, rfl⟩
  | updateProgression user enclosure seconds =>
      exact hw ▸ h.modifyEnclosures (fun x _ hp => eq_of_beq (Bool.and_eq_true_iff.1 hp).1)
        fun _ => ⟨rfl, rfl⟩
  | sweep feed hashes => exact hw ▸ (Work.sweep feed hashes).confined_leaves hs h
  | setStatus user ids status => exact hw ▸ h.setStatus user ids status s.now
  | setStatusCount user ids status => exact hw ▸ h.setStatus user ids status s.now
  | setStar user ids starred =>
      exact hw ▸ h.modifyEntriesOf (fun _ hp => (Bool.and_eq_true_iff.1 hp).1)
        fun _ => ⟨rfl, rfl, rfl⟩
  | toggleStar user entry =>
      exact hw ▸ h.modifyEntriesOf (fun _ hp => (Bool.and_eq_true_iff.1 hp).1)
        fun _ => ⟨rfl, rfl, rfl⟩
  | archive status days limit =>
      obtain ⟨cutoff, rfl⟩ := hw
      exact h.modifyEntries (fun _ _ _ => trivial) fun _ => ⟨rfl, rfl, rfl⟩
  | flushHistory user =>
      exact hw ▸ h.modifyEntriesOf
        (fun _ hp => (Bool.and_eq_true_iff.1 (Bool.and_eq_true_iff.1 hp).1).1)
        fun _ => ⟨rfl, rfl, rfl⟩
  | markAll user => exact hw ▸ h.markRead user _ s.now
  | markAllBefore user before => exact hw ▸ h.markRead user _ s.now
  | markFeed user feed before => exact hw ▸ h.markRead user _ s.now
  | markCategory user category before => exact hw ▸ h.markRead user _ s.now
  | markShown user => exact hw ▸ h.markRead user _ s.now
  | share user entry drawn =>
      obtain ⟨n, hset⟩ := hw
      exact h.setShareCode hset
  | unshare user entry =>
      obtain ⟨n, hset⟩ := hw
      exact h.setShareCode hset
  | runPending => exact hw ▸ Session.confined_runAll (s := { s with jobs := [] }) hr hs h s.jobs
  | setClock now => exact hw.elim

end Command

/-! ## Runs -/

/-- The session can come out of a new one by a run of commands in which everybody keeps to their own
categories and feeds. -/
inductive ReachableByOwners : Session → Prop
  | fresh (now : Int) : ReachableByOwners { now }
  | step {s : Session} {c : Command} (own : c.isOwn s = true) :
      ReachableByOwners s → ReachableByOwners (c.next s)

/-- Everybody keeps to their own categories and feeds in the commands, one after the other. -/
def Session.isOwnRun (s : Session) : List Command → Bool
  | [] => true
  | c :: cs => c.isOwn s && (c.next s).isOwnRun cs

namespace ReachableByOwners

variable {s : Session}

theorem run (h : ReachableByOwners s) {cs : List Command} (hcs : s.isOwnRun cs = true) :
    ReachableByOwners (s.run cs) := by
  induction cs generalizing s with
  | nil => exact h
  | cons c cs ih =>
      obtain ⟨hc, hrest⟩ := Bool.and_eq_true_iff.1 hcs
      exact ih (.step hc h) hrest

theorem reachable (h : ReachableByOwners s) : Reachable s := by
  induction h with
  | fresh now => exact .fresh now
  | step _ _ ih => exact .step _ ih

theorem tenanted (h : ReachableByOwners s) : s.store.Tenanted := by
  induction h with
  | fresh now => exact ⟨by simp, by simp, fun x hx => by cases hx⟩
  | @step s c own h ih =>
      exact (c.confined_next h.reachable.ready h.reachable.integrity ih own).tenanted

end ReachableByOwners

/-- The users of the session do not get at each other's rows: a row and the row that it belongs to
have the same user, a command leaves the rows alone that it does not concern, and so does a job,
whichever jobs are run before it. -/
structure Session.IsolatesUsers (s : Session) : Prop where
  tenanted : s.store.Tenanted
  commands : ∀ c : Command, c.isOwn s = true → s.store.SameBeside (c.concerns s) (c.next s).store
  jobs : ∀ (front : List Job) (job : Job), (s.behind front).store.SameBeside
    (job.work.concerns (s.behind front).store) (Session.runJob job (s.behind front)).2.store

/-- As long as everybody keeps to their own categories and feeds, the users are isolated from each
other. -/
theorem ReachableByOwners.isolatesUsers {s : Session} (h : ReachableByOwners s) :
    s.IsolatesUsers := by
  have hr := h.reachable.ready
  have hs := h.reachable.integrity
  refine ⟨h.tenanted, fun c hc => (c.confined_next hr hs h.tenanted hc).same, fun front job => ?_⟩
  have hev := Session.evolves_runAll front { s with jobs := [] }
  have hfront := Session.confined_runAll (s := { s with jobs := [] }) hr hs h.tenanted front
  exact (Session.confined_runJob (Session.ready_behind hr front) (hs.steps hev.store)
    hfront.tenanted job).same

/-- Two users with a feed of the same address each, of whom one is about to be removed. -/
def Session.ofTwo : Session :=
  ({ now := 0 } : Session).run
    [.createUser "ann", .createUser "bob", .createCategory 1 "news" false,
      .createCategory 2 "news" true,
      .createFeed 1
        { categoryId := 1, title := "", feedUrl := "a", siteUrl := "", hideGlobally := false },
      .createFeed 2
        { categoryId := 2, title := "", feedUrl := "a", siteUrl := "", hideGlobally := false },
      .refreshFeed 1 1 [.bare "a" 10, .bare "b" 20] true, .refreshFeed 2 2 [.bare "a" 10] false,
      .setStatus 1 [2] .removed, .removeUserLater 1]

theorem ReachableByOwners.isolatesUsers_ofTwo :
    ReachableByOwners .ofTwo ∧ Session.ofTwo.IsolatesUsers := by
  have h : ReachableByOwners .ofTwo := (ReachableByOwners.fresh 0).run (by decide +kernel)
  exact ⟨h, ReachableByOwners.isolatesUsers h⟩

end FeedStore

import FeedStore.Proofs.Readable
import FeedStore.Proofs.Refresh

/-!
# When a candidate goes through

A candidate cannot fail in a ready session, as long as the user and the feed are there and the
entries of the feed are the user's (`Session.Accepts`). Comparing the candidate with the store keeps
it that way (`Session.Accepts.exists_reconcile`), so the next candidate goes through as well,
whichever refresh it belongs to.
-/

namespace FeedStore

/-- Candidates of that user for that feed go through: nothing keeps statements from running, user
and feed are there, and the entries of the feed are the user's. -/
structure Session.Accepts (user feed : Id) (s : Session) : Prop where
  ready : s.Ready
  integrity : s.store.Integrity
  readable : s.store.Readable
  hasUser : s.store.hasUser user = true
  hasFeed : s.store.hasFeed feed = true
  owned : ∀ e ∈ s.store.entries.rows, e.feedId = feed → e.userId = user

namespace Action

open Store

variable {α : Type} {s t : Session} {user feed entry : Id} {c : Candidate} {update : Bool}

theorem exists_putEnclosure {s : Store} (huser : s.hasUser user = true)
    (hentry : s.hasEntry entry = true) (url mimeType : String) (size : Int) :
    ∃ r, s.putEnclosure user entry url mimeType size = .ok r := by
  unfold putEnclosure
  split
  · exact ⟨_, rfl⟩
  · rw [huser, hentry]
    exact ⟨_, rfl⟩

theorem exists_perform_putEnclosures (hs : s.Ready) (huser : s.store.hasUser user = true)
    (hentry : s.store.hasEntry entry = true) (offers : List EnclosureOffer)
    (stored : List Enclosure) :
    ∃ xs t, (putEnclosures user entry offers stored).perform s = (.ok xs, t) := by
  induction offers generalizing stored s with
  | nil => exact ⟨stored, s, rfl⟩
  | cons offer offers ih =>
      unfold putEnclosures
      dsimp only
      split
      · exact ih hs huser hentry stored
      · obtain ⟨⟨x, store⟩, hput⟩ := exists_putEnclosure huser hentry (Text.trim offer.url)
          offer.mimeType offer.size
        have hframe := putEnclosure_frame hput
        obtain ⟨xs, t, hrest⟩ := ih (s := { s with store }) hs (by rw [hframe]; exact huser)
          (by rw [hframe]; exact hentry) (place x stored)
        refine ⟨xs, t, ?_⟩
        rw [perform_bind, perform_write_of_ready hs hput]
        exact hrest

theorem exists_perform_updateEnclosures (hs : s.Ready) (huser : s.store.hasUser user = true)
    (hentry : s.store.hasEntry entry = true) (offers : List EnclosureOffer) :
    ∃ t, (updateEnclosures user entry offers).perform s = (.ok (), t) := by
  unfold updateEnclosures
  split
  · exact ⟨s, rfl⟩
  · obtain ⟨xs, t, hput⟩ := exists_perform_putEnclosures hs huser hentry offers []
    have ht : t.Ready := by
      rw [putEnclosures_frame hput]
      exact hs
    refine ⟨{ t with
      store := (t.store.removeStaleEnclosures user entry (xs.map (·.url))).2 }, ?_⟩
    rw [perform_bind, hput]
    dsimp only
    rw [perform_bind, perform_change_of_ready ht]
    rfl

/-- A stored entry can be given to a reader. -/
theorem exists_perform_fetchEntry (hs : s.Ready) (hint : s.store.Integrity)
    (hreadable : s.store.Readable) (hentry : s.store.hasEntry entry = true) :
    ∃ v, (fetchEntry entry).perform s = (.ok v, s) := by
  obtain ⟨e, he, rfl⟩ := Table.holds_id_iff.1 hentry
  obtain ⟨l, hl, rfl⟩ := hint.exists_listed he
  obtain ⟨status, tags, hstatus, htags⟩ := hreadable _ he
  refine ⟨l.viewWith status tags, ?_⟩
  have hlisted : s.store.listedEntry l.entry.id = .ok l := by
    unfold listedEntry
    rw [hint.entries.find?_id he rfl, Option.bind_some, (of_mem_listed hl).2]
  unfold fetchEntry
  rw [perform_bind, perform_readWithin, hs.refusal? _ .empty, hlisted]
  dsimp only [Except.mapError]
  rw [Listed.view_eq hstatus htags]
  rfl

theorem exists_perform_createEntry (hs : s.Ready) (hint : s.store.Integrity)
    (hreadable : s.store.Readable) (huser : s.store.hasUser user = true)
    (hfeed : s.store.hasFeed feed = true) (hnew : c.hash ∉ s.store.hashes feed) :
    ∃ v t, (createEntry user feed c).perform s = (.ok v, t) := by
  have hitem : s.store.item? feed c.hash = none := by
    rw [← Option.not_isSome_iff_eq_none, item?_isSome]
    exact hnew
  obtain ⟨⟨id, store⟩, hadd⟩ : ∃ r, s.store.addEntry user feed c s.now = .ok r := by
    unfold addEntry
    rw [huser, hfeed]
    exact ⟨_, rfl⟩
  -- the store with the new row, and with its enclosures, is in order and readable
  have hstep : s.store.Step s.now store := .addEntry hitem hadd
  obtain ⟨-, -, hid, hstore⟩ := of_addEntry hadd
  have hrow : c.toEntry user feed s.now id ∈ store.entries.rows := by
    rw [hstore, hid, Table.rows_add]
    exact List.mem_append_right _ (List.mem_singleton_self _)
  have hentry : store.hasEntry id = true := Table.holds_id_iff.2 ⟨_, hrow, rfl⟩
  have huser' : store.hasUser user = true := by
    rw [hstore]
    exact huser
  obtain ⟨xs, t, hput⟩ := exists_perform_putEnclosures (s := { s with store }) hs huser' hentry
    c.enclosures []
  have hframe := putEnclosures_frame hput
  have hown : store.HasEntryOf user id := ⟨_, hrow, by simp [Entry.isOwn, Candidate.toEntry]⟩
  have hev : Session.Evolves { s with store } t :=
    (evolves_putEnclosures c.enclosures [] hown).of_perform hput
  have hlast : t.store.hasEntry id = true := by
    rw [hframe]
    exact hentry
  obtain ⟨v, hfetch⟩ := exists_perform_fetchEntry (by rw [hframe]; exact hs)
    ((hint.step hstep).steps hev.store) ((hreadable.step hstep).steps hev.store) hlast
  refine ⟨{ v with enclosures := xs }, t, ?_⟩
  unfold createEntry
  rw [perform_bind, perform_now]
  dsimp only
  rw [perform_bind, perform_write_of_ready hs hadd]
  dsimp only
  rw [perform_bind, hput]
  dsimp only
  rw [perform_bind, hfetch]
  rfl

/-- An entry of the user that a candidate stands for is reached. -/
theorem exists_perform_updateEntry (hs : s.Ready) (huser : s.store.hasUser user = true) {e : Entry}
    (he : e ∈ s.store.entries.rows) (hown : e.userId = user) (hitem : e.isItem feed c.hash = true) :
    ∃ t, (updateEntry user feed c).perform s = (.ok (), t) := by
  obtain ⟨id, hid⟩ : ∃ id, (s.store.refreshEntry user feed c s.now).1 = some id := by
    have hsome : (s.store.entries.rows.find? fun e =>
        e.userId == user && e.isItem feed c.hash).isSome = true := by
      rw [List.find?_isSome]
      exact ⟨e, he, by rw [hown, hitem, beq_self_eq_true, Bool.true_and]⟩
    obtain ⟨e', he'⟩ := Option.isSome_iff_exists.1 hsome
    exact ⟨e'.id, congrArg (Option.map Entry.id) he'⟩
  have hentry : (s.store.refreshEntry user feed c s.now).2.hasEntry id = true := by
    obtain ⟨e', he', rfl, -⟩ := of_refreshEntry hid
    exact (Table.holds_modify (f := Entry.refreshed c s.now) fun _ => rfl).trans
      (Table.holds_id_iff.2 ⟨e', he', rfl⟩)
  obtain ⟨t, hput⟩ := exists_perform_updateEnclosures
    (s := { s with store := (s.store.refreshEntry user feed c s.now).2 }) hs huser hentry
    c.enclosures
  refine ⟨t, ?_⟩
  unfold updateEntry
  rw [perform_bind, perform_now]
  dsimp only
  rw [perform_bind, perform_change_of_ready hs, hid]
  exact hput

/-- Comparing a candidate with a hash that is new is creating its entry. -/
theorem perform_reconcile_of_new (hs : s.Ready) (hnew : c.hash ∉ s.store.hashes feed)
    {v : EntryView} (h : (createEntry user feed c).perform s = (.ok v, t)) :
    (reconcile user feed update c).perform s = (.ok (some v), t) := by
  unfold reconcile itemExists
  rw [perform_bind, perform_read_of_ready hs]
  dsimp only
  rw [if_neg fun hsome => hnew (item?_isSome.1 hsome), perform_bind, h]
  rfl

/-- Comparing a candidate with a hash that is there is updating its entry, if that is asked for. -/
theorem perform_reconcile_of_known (hs : s.Ready) (hmem : c.hash ∈ s.store.hashes feed)
    (h : (updateEntry user feed c).perform s = (.ok (), t)) :
    (reconcile user feed true c).perform s = (.ok none, t) := by
  unfold reconcile itemExists
  rw [perform_bind, perform_read_of_ready hs]
  dsimp only
  rw [if_pos (item?_isSome.2 hmem), if_pos rfl, perform_bind, h]
  rfl

theorem exists_perform_reconcile (h : s.Accepts user feed) (update : Bool) (c : Candidate) :
    ∃ r t, (reconcile user feed update c).perform s = (.ok r, t) := by
  by_cases hmem : c.hash ∈ s.store.hashes feed
  · cases update with
    | true =>
        obtain ⟨e, he, hfeed, hhash⟩ := mem_hashes.1 hmem
        obtain ⟨t, hrun⟩ := exists_perform_updateEntry h.ready h.hasUser he (h.owned e he hfeed)
          (Entry.isItem_iff.2 ⟨hfeed, hhash⟩)
        exact ⟨none, t, perform_reconcile_of_known h.ready hmem hrun⟩
    | false =>
        refine ⟨none, s, ?_⟩
        unfold reconcile itemExists
        rw [perform_bind, perform_read_of_ready h.ready]
        dsimp only
        rw [if_pos (item?_isSome.2 hmem)]
        rfl
  · obtain ⟨v, t, hrun⟩ := exists_perform_createEntry h.ready h.integrity h.readable h.hasUser
      h.hasFeed hmem
    exact ⟨some v, t, perform_reconcile_of_new h.ready hmem hrun⟩

end Action

namespace Session.Accepts

open FeedStore.Action

variable {s : Session} {user feed : Id}

/-- A candidate goes through, and after it the session accepts candidates as before. -/
theorem exists_reconcile (h : s.Accepts user feed) (update : Bool) (c : Candidate) :
    ∃ r t, (transaction .refresh (reconcile user feed update c)).perform s = (.ok r, t)
      ∧ Settles user feed update c s t r ∧ t.Accepts user feed := by
  obtain ⟨r, t, hrun⟩ := exists_perform_reconcile h update c
  obtain ⟨hspares, -, hsettles⟩ := reconcile_settles h.integrity hrun
  have hev : s.Evolves t := (evolves_reconcile user feed update c s).of_perform hrun
  have hopen : s.access.isOpen = true := by rw [show s.access = {} from h.ready]
  refine ⟨r, t, ?_, hsettles, hev.access.trans h.ready, h.integrity.steps hev.store,
    h.readable.steps hev.store, ?_, ?_, ?_⟩
  · rw [perform_transaction, if_pos hopen, hrun]
  · rw [hspares]
    exact h.hasUser
  · rw [hspares]
    exact h.hasFeed
  · cases hsettles with
    | known _ hrows _ =>
        intro e he hfeed
        rw [hrows] at he
        obtain ⟨e', he', rfl⟩ := List.mem_map.1 he
        have hp := Entry.persists_foldl_seen feed update s.now e' [c]
        exact hp.userId.trans (h.owned e' he' (hp.feedId.symm.trans hfeed))
    | new _ hentries _ _ _ =>
        intro e he hfeed
        rw [hentries, Table.rows_add, List.mem_append, List.mem_singleton] at he
        rcases he with he | rfl
        · exact h.owned e he hfeed
        · rfl

end Session.Accepts

end FeedStore

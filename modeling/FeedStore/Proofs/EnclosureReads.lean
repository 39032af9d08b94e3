import FeedStore.Proofs.Denotation
import FeedStore.Proofs.Parts
import FeedStore.Proofs.Refresh
import FeedStore.Proofs.Tenants

/-!
# All reads of enclosures agree

The enclosures of an entry are read in three ways: with a listing, in batches and whoever's they
are; on their own, for a user; and with a new entry, as what its candidate has just stored. The
first two agree since an enclosure is its entry's user's (`Store.enclosuresOf_eq_attached`). A new
entry is shown as a query shows it (`Action.shown_createEntry`), and stays so until its refresh is
over, unless a later candidate of the batch carries its hash again
(`Action.Reconciles.shownAs`).
-/

namespace FeedStore

namespace Store

open Table

variable {s : Store}

/-- Whoever looks for the enclosures of an entry as its user misses none. -/
theorem enclosuresOf_eq_attached (hs : s.Integrity) (ho : s.EnclosuresOwned) {e : Entry}
    (he : e ∈ s.entries.rows) : s.enclosuresOf e.userId e.id = s.attached e.id := by
  refine List.filter_congr fun x hx => ?_
  rw [Bool.and_eq_right_iff_imp]
  intro hid
  have hentry : s.HasEntryOf x.userId e.id := (eq_of_beq hid : x.entryId = e.id) ▸ ho x hx
  exact beq_iff_eq.2 (HasEntryOf.userId_eq hs hentry he).symm

theorem pairwise_id_attached (hs : s.Integrity) (id : Id) :
    (s.attached id).Pairwise fun x y => x.id < y.id :=
  hs.enclosures.ascending.filter _

end Store

/-! ## Listings -/

namespace Condition

variable {cs : List Condition} {ls ms : List Listed}

/-- The rows that are found are some of those listed, in their order. -/
theorem sublist_of_select (h : select cs ls = .ok ms) : ms.Sublist ls := by
  induction ls generalizing ms with
  | nil =>
      cases h
      exact .slnil
  | cons l ls ih =>
      unfold select at h
      cases hkeep : test cs l with
      | error fault =>
          rw [hkeep] at h
          cases h
      | ok keep =>
          cases hrest : select cs ls with
          | error fault =>
              rw [hkeep, hrest] at h
              cases h
          | ok rest =>
              rw [hkeep, hrest] at h
              obtain rfl : (if keep then l :: rest else rest) = ms := Except.ok.inj h
              split
              · exact (ih hrest).cons_cons l
              · exact (ih hrest).cons l

/-- When the user is asked for first, rows of other users are passed over whatever else is asked. -/
theorem select_user (id : Id) (cs : List Condition) (ls : List Listed) :
    select (.user id :: cs) ls = select (.user id :: cs) (ls.filter (·.entry.userId == id)) := by
  induction ls with
  | nil => rfl
  | cons l ls ih =>
      by_cases huser : l.entry.userId = id
      · have hkept : (l :: ls).filter (·.entry.userId == id)
            = l :: ls.filter (·.entry.userId == id) :=
          List.filter_cons_of_pos (by simpa using huser)
        rw [hkept, select, select, ih]
      · have hpassed : (l :: ls).filter (·.entry.userId == id)
            = ls.filter (·.entry.userId == id) := List.filter_cons_of_neg (by simpa using huser)
        have htest : test (.user id :: cs) l = .ok false := by
          simp [test, isTooLong, holds, huser]
        rw [hpassed, select, htest, ih]
        cases select (.user id :: cs) (ls.filter (·.entry.userId == id)) with
        | error fault => rfl
        | ok rest => rfl

end Condition

namespace Query

variable {q : Query} {s : Store} {ls : List Listed}

/-- The user is asked for first. -/
theorem inTestOrder_allConditions (q : Query) :
    ∃ cs, Condition.inTestOrder q.allConditions = .user q.user :: cs := ⟨_, rfl⟩

/-- Whatever the limits, what is found are listed rows of the user. -/
theorem sublist_of_found (h : q.found s = .ok ls) :
    ls.Sublist (s.listed.filter (·.entry.userId == q.user)) := by
  obtain ⟨cs, hcs⟩ := q.inTestOrder_allConditions
  unfold found at h
  dsimp only at h
  rw [hcs] at h
  split at h
  · cases h
    exact List.nil_sublist _
  · rw [Condition.select_user] at h
    exact Condition.sublist_of_select h

/-- So a page holds listed rows of the user, each at most once. -/
theorem of_page (hs : s.Integrity) (h : q.page s = .ok ls) :
    (∀ l ∈ ls, l ∈ s.listed ∧ l.entry.userId = q.user) ∧ (ls.map (·.entry.id)).Nodup := by
  obtain ⟨found, hfound, rfl⟩ : ∃ found, q.found s = .ok found
      ∧ q.cut (SortTerm.sort q.terms found) = ls := by
    unfold page at h
    cases hfound : q.found s with
    | error fault =>
        rw [hfound] at h
        cases h
    | ok found =>
        rw [hfound] at h
        exact ⟨found, rfl, Except.ok.inj h⟩
  have hsub := sublist_of_found hfound
  have hcut := q.cut_sublist (SortTerm.sort q.terms found)
  constructor
  · intro l hl
    have hl := List.mem_filter.1 (hsub.subset (SortTerm.mem_sort.1 (hcut.subset hl)))
    exact ⟨hl.1, beq_iff_eq.1 hl.2⟩
  · have hfound : (found.map (·.entry.id)).Nodup :=
      (Store.nodup_id_listed hs.entries).sublist ((hsub.trans List.filter_sublist).map _)
    exact (((SortTerm.sort_perm _ _).map _).nodup_iff.2 hfound).sublist (hcut.map _)

end Query

/-- A batch that has no say in an entry leaves it as it is. -/
theorem Entry.foldl_seen_of_not_isTold {feed : Id} {update : Bool} {now : Int} {e : Entry}
    {cs : List Candidate} (h : ¬ e.IsTold feed update cs) :
    cs.foldl (Entry.seen feed update now) e = e := by
  cases update with
  | false => exact foldl_seen_false cs
  | true =>
      refine foldl_seen_of_not_mem ?_
      by_cases hfeed : e.feedId = feed
      · exact Or.inr fun hmem => h ⟨rfl, hfeed, hmem⟩
      · exact Or.inl hfeed

/-- Whatever is shown is a row of the listing. -/
theorem exists_shownAs {s : Store} {ls : List Listed} {vs : List EntryView} {v : EntryView}
    (h : List.Forall₂ (Listed.ShownAs s) ls vs) (hv : v ∈ vs) : ∃ l ∈ ls, l.ShownAs s v :=
  exists_of_forall₂ h hv

namespace Action

open Store

variable {s t : Session} {q : Query}

/-- Reads the rows of a listing. -/
def listedRows (q : Query) : Action (List Listed) :=
  readWithin q.pageExtent "unable to fetch entries" listingTables q.page

/-- A listing fails only when its rows are not to be had. What comes after that never fails, however
many rows there are. -/
theorem perform_entries_or (hs : Reachable s) (q : Query) :
    (∃ e, (listedRows q).perform s = (.error e, s) ∧ (entries q).perform s = (.error e, s))
      ∨ ∃ ls vs, (listedRows q).perform s = (.ok ls, s)
        ∧ (∀ l ∈ ls, l ∈ s.store.listed ∧ l.entry.userId = q.user)
        ∧ (entries q).perform s = (.ok vs, s) ∧ List.Forall₂ (Listed.ShownAs s.store) ls vs := by
  have hentries : entries q = listedRows q >>= fun found => views found >>= attachEnclosures := rfl
  have hsame : ((listedRows q).perform s).2 = s := by
    unfold listedRows
    rw [perform_readWithin]
    split
    · rfl
    · rfl
  rw [hentries, perform_bind]
  cases h : (listedRows q).perform s with
  | mk r t =>
      cases r with
      | error e =>
          rw [h] at hsame
          obtain rfl : t = s := hsame
          exact Or.inl ⟨e, rfl, rfl⟩
      | ok ls =>
          obtain ⟨hpage, rfl⟩ := of_perform_readWithin h
          obtain ⟨hrows, hnodup⟩ := Query.of_page hs.integrity hpage
          have hreadable : ∀ l ∈ ls, l.entry.Readable :=
            fun l hl => hs.readable _ (of_mem_listed (hrows l hl).1).1
          obtain ⟨vs, hvs, hshown⟩ := perform_views_attachEnclosures hs.ready hreadable hnodup
          exact Or.inr ⟨ls, vs, rfl, hrows, hvs, hshown⟩

/-- What is shown with an entry is what its user finds for it. -/
theorem perform_enclosures_of_shownAs (hs : Reachable s) {l : Listed} {v : EntryView}
    (hl : l ∈ s.store.listed) (h : l.ShownAs s.store v) :
    (enclosures v.userId v.id).perform s = (.ok v.enclosures, s) := by
  obtain ⟨status, tags, -, -, rfl⟩ := h
  unfold enclosures
  rw [perform_read_of_ready hs.ready]
  show (Except.ok (s.store.enclosuresOf l.entry.userId l.entry.id), s) = _
  rw [enclosuresOf_eq_attached hs.integrity hs.enclosuresOwned (of_mem_listed hl).1]

theorem perform_attachEnclosures_ok (hs : s.Ready) (vs : List EntryView) :
    ∃ ws, (attachEnclosures vs).perform s = (.ok ws, s) := by
  obtain ⟨xs, hxs, -⟩ := perform_enclosuresOfEntries hs (vs.map (·.id))
  unfold attachEnclosures
  rw [perform_bind, hxs]
  exact ⟨_, rfl⟩

/-! ## New entries -/

variable {user feed : Id} {update : Bool} {c : Candidate} {cs : List Candidate}
  {v : EntryView} {created : List EntryView}

/-- A new entry comes with the enclosures that it has in the store. -/
theorem attached_createEntry (hs : s.store.Integrity) (hnew : c.hash ∉ s.store.hashes feed)
    (h : (createEntry user feed c).perform s = (.ok v, t)) :
    v.enclosures = t.store.attached v.id := by
  have hsettles : Settles user feed false c s t (some v) := (createEntry_settles hs hnew h).2.2
  have hid : v.id = s.store.entries.lastId + 1 := by
    cases hsettles with
    | new _ _ hid _ _ => exact hid
  unfold createEntry at h
  obtain ⟨i, u, hwrite, hrest⟩ := of_perform_bind (of_perform_now_bind h)
  obtain ⟨store, hadd, rfl⟩ := of_perform_write hwrite
  obtain ⟨xs, w, hput, hrest⟩ := of_perform_bind hrest
  obtain ⟨view, w', hfetch, hlast⟩ := of_perform_bind hrest
  obtain ⟨rfl, -⟩ := of_perform_fetchEntry hfetch
  cases hlast
  have hitem : s.store.item? feed c.hash = none := by
    rw [← Option.not_isSome_iff_eq_none, item?_isSome]
    exact hnew
  have hint : store.Integrity := hs.addEntry hitem hadd
  obtain ⟨-, -, rfl, rfl⟩ := of_addEntry hadd
  have hnone : s.store.attached (s.store.entries.lastId + 1) = [] :=
    attached_eq_nil hs (Int.lt_add_one_of_le le_rfl)
  have hatt := attaches_putEnclosures hput hint hnone.symm
  rw [hid]
  exact hatt.attached

/-- A new entry is shown as a query shows it. -/
theorem shown_createEntry (hs : s.store.Integrity) (hnew : c.hash ∉ s.store.hashes feed)
    (h : (createEntry user feed c).perform s = (.ok v, t)) (ht : t.store.Integrity) :
    ∃ l ∈ t.store.listed, l.entry = c.toEntry user feed s.now v.id ∧ l.ShownAs t.store v := by
  obtain ⟨hspares, -, hsettles⟩ :
      Spares s t ∧ KeepsAttached feed false [c] s t ∧ Settles user feed false c s t (some v) :=
    createEntry_settles hs hnew h
  cases hsettles with
  | @new _ f _ hentries hid hfeed hmakes =>
      have hmem : c.toEntry user feed s.now v.id ∈ t.store.entries.rows := by
        rw [hentries, hid, Table.rows_add]
        exact List.mem_append_right _ (List.mem_singleton_self _)
      obtain ⟨l, hl, hentry⟩ := ht.exists_listed hmem
      obtain ⟨-, hfind, hcategory⟩ := of_listed? (of_mem_listed hl).2
      rw [hentry, hspares.feeds] at hfind
      obtain rfl : f = l.feed := Option.some.inj (hfeed.symm.trans hfind)
      have hfid : l.feed.id = feed := by simpa using List.find?_some hfeed
      refine ⟨l, hl, hentry, .unread, c.tags, by rw [hentry]; rfl, by rw [hentry]; rfl, ?_⟩
      rw [hmakes.view, attached_createEntry hs hnew h, Candidate.toView, Listed.viewWith, hentry,
        hcategory, hfid]
      rfl

theorem shown_reconcile (hs : s.store.Integrity)
    (h : (reconcile user feed update c).perform s = (.ok (some v), t)) (ht : t.store.Integrity) :
    ∃ l ∈ t.store.listed, l.entry = c.toEntry user feed s.now v.id ∧ l.ShownAs t.store v := by
  rcases of_perform_reconcile h with ⟨-, hnone, -⟩ | ⟨hnew, w, hsome, hcreate⟩
  · cases hnone
  · cases hsome
    exact shown_createEntry hs hnew hcreate ht

/-- What is shown stays so while candidates go by that have no say in it. -/
theorem Reconciles.shownAs (h : Reconciles user feed update cs created s t) {l : Listed}
    (hl : l ∈ s.store.listed) (htold : ¬ l.entry.IsTold feed update cs)
    (hv : l.ShownAs s.store v) : l ∈ t.store.listed ∧ l.ShownAs t.store v := by
  obtain ⟨he, hlisted⟩ := of_mem_listed hl
  have hsame : t.store.listed? l.entry = s.store.listed? l.entry := by
    unfold listed?
    rw [h.spares.feeds, h.spares.categories]
  have hkept : l.entry ∈ t.store.entries.rows := by
    rw [h.rows]
    exact List.mem_map.2
      ⟨l.entry, List.mem_append_left _ he, Entry.foldl_seen_of_not_isTold htold⟩
  refine ⟨List.mem_filterMap.2 ⟨l.entry, hkept, hsame.trans hlisted⟩, ?_⟩
  unfold Listed.ShownAs
  rw [h.attached l.entry he htold]
  exact hv

/-- If no later candidate has a say in the new entries of a batch, they are all shown as they have
been given. -/
theorem shown_reconcileAll (hs : s.store.Integrity)
    (h : (reconcileAll user feed update cs).perform s = (.ok created, t))
    (hcs : update = false ∨ (cs.map (·.hash)).Nodup) :
    ∀ v ∈ created, ∃ l ∈ t.store.listed, l.entry.userId = user ∧ l.ShownAs t.store v := by
  induction cs generalizing s created with
  | nil =>
      cases h
      intro v hv
      cases hv
  | cons c cs ih =>
      unfold reconcileAll at h
      obtain ⟨r, u, htrans, hrest⟩ := of_perform_bind h
      obtain ⟨more, w, hmore, hlast⟩ := of_perform_bind hrest
      cases hlast
      have hstep := of_perform_transaction htrans
      have hu : u.store.Integrity :=
        hs.steps ((evolves_reconcile user feed update c s).of_perform hstep).store
      have hrec := reconciles_reconcileAll hu hmore
      have hshown := ih hu hmore (hcs.imp_right fun hnodup => (List.nodup_cons.1 hnodup).2)
      intro v hv
      rcases List.mem_append.1 hv with hv | hv
      · obtain rfl : r = some v := Option.mem_toList.1 hv
        obtain ⟨l, hl, hentry, hlv⟩ := shown_reconcile hs hstep hu
        have htold : ¬ l.entry.IsTold feed update cs := by
          rintro ⟨hupdate, -, hmem⟩
          rw [hentry] at hmem
          exact hcs.elim (fun hfalse => Bool.false_ne_true (hfalse.symm.trans hupdate))
            fun hnodup => (List.nodup_cons.1 hnodup).1 hmem
        obtain ⟨hl, hlv⟩ := hrec.shownAs hl htold hlv
        exact ⟨l, hl, by rw [hentry]; rfl, hlv⟩
      · exact hshown v hv

/-- A query for a shown entry of the user by its identifier gives just that entry. -/
theorem perform_entries_of_shownAs (hs : Reachable s) {l : Listed} (hl : l ∈ s.store.listed)
    (hv : l.ShownAs s.store v) (huser : l.entry.userId = user) :
    (entries (Query.built user [.entry v.id])).perform s = (.ok [v], s)
      ∧ (firstEntry (Query.built user [.entry v.id])).perform s = (.ok (some v), s) := by
  have hcs : (Query.built user [.entry v.id]).conditions = [.entry v.id] := rfl
  have hq : (Query.built user [.entry v.id]).WithinLimits :=
    ⟨Query.conditionsFit_of_isPlain hcs rfl (by simp), Nat.zero_le _⟩
  have hdenotes := Query.denotes_sorted hs.integrity user [.entry v.id]
  have hsorted : (Query.built user [.entry v.id]).sorted s.store = [l] := by
    refine List.perm_singleton.1 ?_
    rw [List.perm_ext_iff_of_nodup (List.Nodup.of_map _ hdenotes.once) (List.nodup_singleton l)]
    intro m
    rw [List.mem_singleton]
    constructor
    · intro hm
      obtain ⟨he, -, hid⟩ := (hdenotes.mem_iff m.entry).1 ⟨m, hm, rfl⟩
      have hid : m.entry.id = l.entry.id := (List.forall_mem_singleton.1 hid).trans hv.id
      have hentry := hs.integrity.entries.distinct.eq_of_eq he (of_mem_listed hl).1 hid
      exact (hdenotes.joins m hm).eq_of_entry_eq hs.integrity (joins_of_mem_listed hl) hentry
    · rintro rfl
      refine SortTerm.mem_sort.2 ((Query.mem_matching_built hs.integrity).2 ⟨hl, huser, ?_⟩)
      exact List.forall_mem_singleton.2 hv.id.symm
  obtain ⟨vs, hvs, hshown⟩ := perform_entries hs hq
  obtain ⟨w, hw, hrel⟩ := perform_firstEntry hs hq
  rw [hsorted] at hshown hrel
  have hshown : List.Forall₂ (Listed.ShownAs s.store) [l] vs := hshown
  have hrel : Option.Rel (Listed.ShownAs s.store) (some l) w := hrel
  constructor
  · cases hshown with
    | cons hlw hnil =>
        cases hnil
        rw [hvs, hlw.unique hv]
  · cases hrel with
    | some hlw => rw [hw, hlw.unique hv]

end Action

/-! ## All reads -/

open FeedStore.Action in
/-- However the enclosures of an entry are read, they are the same. -/
structure Session.ReadsEnclosuresAlike (s : Session) : Prop where
  /-- An enclosure is its entry's user's. -/
  owned : s.store.EnclosuresOwned
  /-- No number of entries is too large. -/
  attach : ∀ vs : List EntryView, ∃ ws, (attachEnclosures vs).perform s = (.ok ws, s)
  /-- A query whose rows are to be had gives them with what is found for each of them on its own. -/
  entries : ∀ q : Query,
    (∃ e, (listedRows q).perform s = (.error e, s) ∧ (entries q).perform s = (.error e, s))
      ∨ ∃ ls vs, (listedRows q).perform s = (.ok ls, s) ∧ (entries q).perform s = (.ok vs, s)
        ∧ List.Forall₂ (Listed.ShownAs s.store) ls vs
        ∧ ∀ v ∈ vs, (enclosures v.userId v.id).perform s = (.ok v.enclosures, s)
          ∧ v.enclosures.Pairwise fun x y => x.id < y.id
  /-- So does a query that is asked for one entry. -/
  first : ∀ q v t, (firstEntry q).perform s = (.ok (some v), t) →
    (enclosures v.userId v.id).perform s = (.ok v.enclosures, s)
  /-- What a refresh gives is what a query gives for it then. -/
  refresh : ∀ user feed cs update created t,
    (refreshFeed user feed cs update).perform s = (.ok created, t) →
      (update = false ∨ (cs.map (·.hash)).Nodup) →
      ∀ v ∈ created, v.userId = user
        ∧ (Action.entries (Query.built user [.entry v.id])).perform t = (.ok [v], t)
        ∧ (firstEntry (Query.built user [.entry v.id])).perform t = (.ok (some v), t)

open FeedStore.Action in
/-- In a reachable session all reads of enclosures agree. -/
theorem Reachable.readsEnclosuresAlike {s : Session} (hs : Reachable s) :
    s.ReadsEnclosuresAlike where
  owned := hs.enclosuresOwned
  attach := perform_attachEnclosures_ok hs.ready
  entries q := by
    refine (perform_entries_or hs q).imp_right ?_
    rintro ⟨ls, vs, hrows, hlisted, hvs, hshown⟩
    refine ⟨ls, vs, hrows, hvs, hshown, fun v hv => ?_⟩
    obtain ⟨l, hl, hlv⟩ := exists_shownAs hshown hv
    refine ⟨perform_enclosures_of_shownAs hs (hlisted l hl).1 hlv, ?_⟩
    obtain ⟨-, -, -, -, rfl⟩ := hlv
    exact Store.pairwise_id_attached hs.integrity _
  first q v t h := by
    obtain ⟨vs, u, hentries, hhead⟩ := of_perform_bind h
    have hv : v ∈ vs := List.mem_of_head? (Except.ok.inj (Prod.mk.inj hhead).1)
    rcases perform_entries_or hs { q with limit := some 1 } with
      ⟨e, -, hfails⟩ | ⟨ls, ws, -, hlisted, hws, hshown⟩
    · cases hfails.symm.trans hentries
    · cases hws.symm.trans hentries
      obtain ⟨l, hl, hlv⟩ := exists_shownAs hshown hv
      exact perform_enclosures_of_shownAs hs (hlisted l hl).1 hlv
  refresh user feed cs update created t h hcs v hv := by
    have ht : Reachable t := Action.reachable_of_refreshFeed hs h
    obtain ⟨u, hrun, rfl⟩ := perform_refreshFeed_ok_iff.1 h
    obtain ⟨l, hl, huser, hlv⟩ := shown_reconcileAll hs.integrity hrun hcs v hv
    have hvuser : v.userId = user := by
      obtain ⟨-, -, -, -, rfl⟩ := hlv
      exact huser
    exact ⟨hvuser, perform_entries_of_shownAs ht hl hlv huser⟩

/-- A candidate that offers two addresses, one of them twice. -/
def Candidate.offering : Candidate :=
  { Candidate.bare "a" 1 with
    enclosures := [⟨"x", "audio", 1⟩, ⟨"y", "audio", 2⟩, ⟨" x", "video", 3⟩] }

/-- Of a batch of two candidates the first one comes with two enclosures, as a query shows it. -/
theorem Reachable.readsEnclosuresAlike_offering :
    ∃ v w t, (Action.refreshFeed 1 1 [.offering, .bare "b" 2] true).perform .subscribed
        = (.ok [v, w], t)
      ∧ v.enclosures.map (·.mimeType) = ["video", "audio"]
      ∧ (Action.entries (Query.built 1 [.entry v.id])).perform t = (.ok [v], t) := by
  obtain ⟨v, w, t, hrun, htypes⟩ : ∃ v w t,
      (Action.refreshFeed 1 1 [.offering, .bare "b" 2] true).perform .subscribed = (.ok [v, w], t)
        ∧ v.enclosures.map (·.mimeType) = ["video", "audio"] := ⟨_, _, _, by rfl, by rfl⟩
  have hdistinct : ([Candidate.offering, .bare "b" 2].map (·.hash)).Nodup := by decide
  obtain ⟨-, hentries, -⟩ := Reachable.subscribed.readsEnclosuresAlike.refresh _ _ _ _ _ _ hrun
    (Or.inr hdistinct) v List.mem_cons_self
  exact ⟨v, w, t, hrun, htypes, hentries⟩

end FeedStore

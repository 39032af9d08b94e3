import FeedStore.Proofs.Integrity

/-!
# Removing feeds and users

Removing a feed takes its entries away in batches before the feed itself, and the removal of a
user that was put off takes feeds away, one after the other, before the user. Neither way
around makes a difference to what is left: the batches come to one deletion
(`Action.perform_eraseEntries`), and removing the feeds first comes to removing the user
(`Action.perform_removeUserByFeeds`). What makes these work is that taking something away first
that would go anyway changes nothing (`Store.eraseEntries_absorbs`, `Store.eraseUser_absorbs`).
-/

namespace FeedStore

/-- The entry is of the feed and the user's. -/
def Entry.isOf (user feed : Id) (e : Entry) : Bool := e.userId == user && e.feedId == feed

namespace Store

open Table

variable {s t : Store} {user feed : Id}

/-! ## Taking away first what would go anyway -/

theorem eraseEntries_congr {p q : Entry → Bool} (h : ∀ e ∈ s.entries.rows, p e = q e) :
    s.eraseEntries p = s.eraseEntries q := by
  have hids : s.entryIds p = s.entryIds q := by
    unfold entryIds select
    rw [List.filter_congr h]
  unfold eraseEntries
  rw [hids, erase_congr h]

/-- The second store is without the entries that satisfy `p` and without their enclosures. -/
structure Without (s t : Store) (p : Entry → Bool) : Prop where
  entries : t.entries = s.entries.erase p
  enclosures : t.enclosures = s.enclosures.erase fun x => (s.entryIds p).contains x.entryId

/-- Entries that go one after the other might have gone at once. -/
theorem Without.trans {u : Store} {p q w : Entry → Bool} (h : s.Without t p) (h' : t.Without u q)
    (hw : ∀ e ∈ s.entries.rows, w e = true ↔ p e = true ∨ q e = true) : s.Without u w := by
  refine ⟨?_, ?_⟩
  · rw [h'.entries, h.entries, erase_erase hw]
  · have hids : t.entryIds q = ((s.entries.erase p).select q).map (·.id) := by
      rw [entryIds, h.entries]
    rw [h'.enclosures, h.enclosures, hids]
    refine erase_erase fun x _ => ?_
    simp only [List.contains_eq_mem, decide_eq_true_eq]
    exact mem_map_select_erase hw

theorem eraseEntries_absorbs {p q : Entry → Bool}
    (h : ∀ e ∈ s.entries.rows, q e = true → p e = true) :
    (s.eraseEntries q).eraseEntries p = s.eraseEntries p := by
  have hfirst : s.Without (s.eraseEntries q) q := ⟨rfl, rfl⟩
  have hboth : s.Without ((s.eraseEntries q).eraseEntries p) p := by
    refine hfirst.trans ⟨rfl, rfl⟩ fun e he => ?_
    exact ⟨Or.inr, fun hor => hor.elim (h e he) fun hp => hp⟩
  show ({ s with
    entries := ((s.eraseEntries q).eraseEntries p).entries
    enclosures := ((s.eraseEntries q).eraseEntries p).enclosures } : Store) = _
  rw [hboth.entries, hboth.enclosures]
  rfl

/-- Feeds and entries that go with a user may as well be taken away first, as long as no feed
is taken away without its entries. -/
theorem eraseUser_absorbs {pf : Feed → Bool} {pe : Entry → Bool}
    (hfeeds : ∀ f ∈ s.feeds.rows, pf f = true →
      feedGoesWith user (s.categoryIds (categoryGoesWith user)) f = true)
    (hentries : ∀ e ∈ s.entries.rows, pe e = true → entryGoesWith user
      (s.feedIds (feedGoesWith user (s.categoryIds (categoryGoesWith user)))) e = true)
    (hcascade : ∀ e ∈ s.entries.rows, e.feedId ∈ s.feedIds pf → pe e = true) :
    ({ s with
        feeds := s.feeds.erase pf
        entries := s.entries.erase pe
        enclosures := s.enclosures.erase fun x => (s.entryIds pe).contains x.entryId }
          : Store).eraseUser user
      = s.eraseUser user := by
  let fgo := feedGoesWith user (s.categoryIds (categoryGoesWith user))
  let fleft := ((s.feeds.erase pf).select fgo).map (·.id)
  let eleft := ((s.entries.erase pe).select (entryGoesWith user fleft)).map (·.id)
  have hf : ∀ f ∈ s.feeds.rows, fgo f = true ↔ pf f = true ∨ fgo f = true := by
    intro f hf
    exact ⟨Or.inr, fun hor => hor.elim (hfeeds f hf) fun hgo => hgo⟩
  have hids : ∀ i, i ∈ s.feedIds fgo ↔ i ∈ s.feedIds pf ∨ i ∈ fleft :=
    fun i => mem_map_select_erase hf
  have he : ∀ e ∈ s.entries.rows, entryGoesWith user (s.feedIds fgo) e = true
      ↔ pe e = true ∨ entryGoesWith user fleft e = true := by
    intro e he
    constructor
    · intro hgo
      simp only [entryGoesWith, Bool.or_eq_true, beq_iff_eq, List.contains_eq_mem,
        decide_eq_true_eq, hids] at hgo ⊢
      rcases hgo with huser | hgone | hleft
      · exact Or.inr (Or.inl huser)
      · exact Or.inl (hcascade e he hgone)
      · exact Or.inr (Or.inr hleft)
    · rintro (hpe | hgo)
      · exact hentries e he hpe
      · simp only [entryGoesWith, Bool.or_eq_true, beq_iff_eq, List.contains_eq_mem,
          decide_eq_true_eq, hids] at hgo ⊢
        exact hgo.imp_right Or.inr
  have hx : (s.enclosures.erase fun x => (s.entryIds pe).contains x.entryId).erase
        (enclosureGoesWith user eleft)
      = s.enclosures.erase
          (enclosureGoesWith user (s.entryIds (entryGoesWith user (s.feedIds fgo)))) := by
    refine erase_erase fun x _ => ?_
    have hmem : x.entryId ∈ s.entryIds (entryGoesWith user (s.feedIds fgo))
        ↔ x.entryId ∈ s.entryIds pe ∨ x.entryId ∈ eleft := mem_map_select_erase he
    simp only [enclosureGoesWith, Bool.or_eq_true, beq_iff_eq, List.contains_eq_mem,
      decide_eq_true_eq, hmem]
    exact or_left_comm
  show ({ s.eraseUser user with
    feeds := (s.feeds.erase pf).erase fgo
    entries := (s.entries.erase pe).erase (entryGoesWith user fleft)
    enclosures := (s.enclosures.erase fun x => (s.entryIds pe).contains x.entryId).erase
      (enclosureGoesWith user eleft) } : Store) = _
  rw [erase_erase hf, erase_erase he, hx]
  rfl

theorem eraseUser_eraseEntries {p : Entry → Bool}
    (h : ∀ e ∈ s.entries.rows, p e = true → e.userId = user) :
    (s.eraseEntries p).eraseUser user = s.eraseUser user := by
  have hnone : s.feeds.erase (fun _ => false) = s.feeds := erase_eq_self fun _ _ => rfl
  have habsorbs : ({ s with
      feeds := s.feeds.erase fun _ => false
      entries := s.entries.erase p
      enclosures := s.enclosures.erase fun x => (s.entryIds p).contains x.entryId }
        : Store).eraseUser user = s.eraseUser user := by
    refine eraseUser_absorbs (fun _ _ hf => by cases hf) (fun e he hp => ?_) fun e _ hmem => ?_
    · simp [entryGoesWith, h e he hp]
    · obtain ⟨f, -, hf, -⟩ := mem_feedIds.1 hmem
      cases hf
  rw [hnone] at habsorbs
  exact habsorbs

theorem eraseUser_eraseFeeds {p : Feed → Bool}
    (h : ∀ f ∈ s.feeds.rows, p f = true → f.userId = user) :
    (s.eraseFeeds p).eraseUser user = s.eraseUser user := by
  have hgo : ∀ f ∈ s.feeds.rows, p f = true →
      feedGoesWith user (s.categoryIds (categoryGoesWith user)) f = true := by
    intro f hf hp
    simp [feedGoesWith, h f hf hp]
  refine eraseUser_absorbs hgo (fun e _ hmem => ?_) fun e _ hmem => by simpa using hmem
  obtain ⟨f, hf, hp, hid⟩ := mem_feedIds.1 (List.contains_iff_mem.1 hmem)
  have hgone : e.feedId ∈ s.feedIds
      (feedGoesWith user (s.categoryIds (categoryGoesWith user))) :=
    mem_feedIds.2 ⟨f, hf, hgo f hf hp, hid⟩
  simp [entryGoesWith, hgone]

/-- What is left when a feed has been removed: the user's own entries of it are gone, and the
feed with all of its entries if it is the user's. -/
def withoutFeed (s : Store) (user feed : Id) : Store :=
  (s.eraseEntries (Entry.isOf user feed)).eraseFeeds (ownFeed user feed)

theorem eraseUser_withoutFeed (s : Store) (user feed : Id) :
    (s.withoutFeed user feed).eraseUser user = s.eraseUser user := by
  unfold withoutFeed
  rw [eraseUser_eraseFeeds, eraseUser_eraseEntries]
  · intro e _ he
    simpa using (Bool.and_eq_true_iff.1 he).1
  · intro f _ hf
    simpa using (Bool.and_eq_true_iff.1 hf).1

/-! ## Identifiers of feeds -/

theorem nodup_feedIds (hs : s.Integrity) (p : Feed → Bool) : (s.feedIds p).Nodup :=
  List.pairwise_map.2 ((hs.feeds.ascending.filter _).imp fun hlt => ne_of_lt hlt)

/-- The user has the feeds that are listed for the user, and no others. -/
theorem exists_ownFeed_iff {i : Id} :
    (∃ f ∈ s.feeds.rows, ownFeed user i f = true) ↔ i ∈ s.feedIds (·.userId == user) := by
  rw [mem_feedIds]
  exact exists_congr fun f => and_congr_right fun _ => Bool.and_eq_true_iff.trans (by simp)

/-! ## A batch of entries -/

/-- What a batch takes away is some of what is to go. -/
theorem of_mem_batch {p : Entry → Bool} {size : Nat} (hs : s.entries.Numbered (·.id)) :
    ∀ e ∈ s.entries.rows, ((s.entryIds p).take size).contains e.id = true → p e = true := by
  intro e he hmem
  have hmem : e.id ∈ s.entryIds p := List.mem_of_mem_take (List.contains_iff_mem.1 hmem)
  obtain ⟨e', he', hp, hid⟩ := mem_entryIds.1 hmem
  rwa [hs.distinct.eq_of_eq he he' hid.symm]

/-- A batch finds nothing only if nothing is to go. -/
theorem batch_eq_zero {p : Entry → Bool} {size : Nat} (hsize : 0 < size)
    (h : (s.removeEntriesUpTo size p).1 = 0) : ∀ e ∈ s.entries.rows, p e = false := by
  have hnone : ∀ e ∈ s.entries.rows, ¬ ((s.entryIds p).take size).contains e.id = true :=
    List.countP_eq_zero.1 h
  have hempty : s.entryIds p = [] := by
    cases hids : s.entryIds p with
    | nil => rfl
    | cons i is =>
        obtain ⟨e, he, -, hid⟩ := mem_entryIds.1 (hids ▸ List.mem_cons_self : i ∈ s.entryIds p)
        refine absurd ?_ (hnone e he)
        obtain ⟨n, rfl⟩ := Nat.exists_eq_add_of_lt hsize
        simp [hids, hid]
  intro e he
  by_contra hp
  have hmem : e.id ∈ s.entryIds p := mem_entryIds.2 ⟨e, he, by simpa using hp, rfl⟩
  rw [hempty] at hmem
  cases hmem

/-- A batch that finds something leaves less to go. -/
theorem count_batch_lt {p : Entry → Bool} {size : Nat} (hs : s.entries.Numbered (·.id))
    (h : (s.removeEntriesUpTo size p).1 ≠ 0) :
    (s.removeEntriesUpTo size p).2.entries.count p < s.entries.count p := by
  obtain ⟨e, he, hmem⟩ := List.countP_pos_iff.1 (Nat.pos_of_ne_zero h)
  have hp := of_mem_batch hs e he hmem
  let q := fun e : Entry => ((s.entryIds p).take size).contains e.id
  have hgone : 0 < (s.entries.rows.filter q).countP p :=
    List.countP_pos_iff.2 ⟨e, List.mem_filter.2 ⟨he, hmem⟩, hp⟩
  have hsplit := List.countP_eq_countP_filter_add s.entries.rows p q
  show (s.entries.rows.filter fun e => !q e).countP p < s.entries.rows.countP p
  omega

end Store

namespace Action

open Store

variable {user feed : Id} {s : Session}

/-! ## A feed -/

/-- Enough batches come to one deletion. -/
theorem perform_eraseEntries {batches : Nat} (hr : s.Ready) (hs : s.store.Integrity)
    (hb : s.store.entries.count (Entry.isOf user feed) < batches) :
    (eraseEntries user feed batches).perform s
      = (.ok (), { s with store := s.store.eraseEntries (Entry.isOf user feed) }) := by
  induction batches generalizing s with
  | zero => cases hb
  | succ batches ih =>
      let p := Entry.isOf user feed
      let u := (s.store.removeEntriesUpTo eraseBatch p).2
      have hbatch : ∀ e ∈ s.store.entries.rows,
          ((s.store.entryIds p).take eraseBatch).contains e.id = true → p e = true :=
        of_mem_batch hs.entries
      have habsorbs : u.eraseEntries p = s.store.eraseEntries p := eraseEntries_absorbs hbatch
      unfold eraseEntries
      rw [perform_bind, perform_change_of_ready hr]
      show ((if (s.store.removeEntriesUpTo eraseBatch p).1 = 0 then pure ()
        else eraseEntries user feed batches).perform { s with store := u }) = _
      split
      · rename_i hzero
        -- the last batch has found nothing, so there is nothing to go
        have hnone := batch_eq_zero (by decide) hzero
        have hu : u = s.store.eraseEntries p := by
          refine eraseEntries_congr fun e he => ?_
          rw [hnone e he]
          exact Bool.eq_false_iff.2 fun hmem =>
            Bool.false_ne_true ((hnone e he).symm.trans (hbatch e he hmem))
        rw [hu]
        rfl
      · rename_i hsome
        have hless := count_batch_lt hs.entries hsome
        have hrest := ih (s := { s with store := u }) hr (hs.eraseEntries _)
          (Nat.lt_of_lt_of_le hless (Nat.le_of_lt_succ hb))
        rw [hrest]
        show (_, { s with store := u.eraseEntries p }) = _
        rw [habsorbs]

theorem perform_removeFeed (hr : s.Ready) (hs : s.store.Integrity) :
    (removeFeed user feed).perform s
      = (if s.store.feeds.count (ownFeed user feed) = 0 then .error .nothingUpdated else .ok (),
          { s with store := s.store.withoutFeed user feed }) := by
  have hcount : s.store.entries.count (Entry.isOf user feed)
      < s.store.entries.rows.length + 1 := Nat.lt_succ_of_le List.countP_le_length
  show ((eraseEntries user feed (s.store.entries.rows.length + 1)) >>= _).perform s = _
  rw [perform_bind, perform_eraseEntries hr hs hcount]
  exact perform_change_orNothing_of_ready hr

/-! ## A user -/

/-- Feeds of a user that are removed one after the other are all found, and their removal makes
no difference to that of the user. -/
theorem perform_removeFeeds {feeds : List Id} (hr : s.Ready) (hs : s.store.Integrity)
    (hd : feeds.Nodup)
    (hown : ∀ i ∈ feeds, ∃ f ∈ s.store.feeds.rows, ownFeed user i f = true) :
    ∃ t, (removeFeeds user feeds).perform s = (.ok (), { s with store := t })
      ∧ t.Integrity ∧ t.users = s.store.users ∧ t.eraseUser user = s.store.eraseUser user := by
  induction feeds generalizing s with
  | nil => exact ⟨s.store, rfl, hs, rfl, rfl⟩
  | cons feed feeds ih =>
      obtain ⟨hnot, hd⟩ := List.nodup_cons.1 hd
      obtain ⟨f, hf, hfown⟩ := hown feed List.mem_cons_self
      have hpos : s.store.feeds.count (ownFeed user feed) ≠ 0 :=
        Nat.ne_of_gt (List.countP_pos_iff.2 ⟨f, hf, hfown⟩)
      have hint : (s.store.withoutFeed user feed).Integrity := (hs.eraseEntries _).eraseFeeds _
      have hleft : ∀ i ∈ feeds,
          ∃ f ∈ (s.store.withoutFeed user feed).feeds.rows, ownFeed user i f = true := by
        intro i hi
        obtain ⟨f, hf, hfown⟩ := hown i (List.mem_cons_of_mem _ hi)
        refine ⟨f, Table.mem_rows_erase.2 ⟨hf, ?_⟩, hfown⟩
        rw [Bool.eq_false_iff]
        intro hfeed
        have hid : f.id = i := by simpa using (Bool.and_eq_true_iff.1 hfown).2
        have hid' : f.id = feed := by simpa using (Bool.and_eq_true_iff.1 hfeed).2
        exact hnot (hid' ▸ hid ▸ hi)
      obtain ⟨t, hrun, ht, husers, herase⟩ :=
        ih (s := { s with store := s.store.withoutFeed user feed }) hr hint hd hleft
      refine ⟨t, ?_, ht, husers, herase.trans (eraseUser_withoutFeed s.store user feed)⟩
      show (removeFeed user feed >>= fun _ => removeFeeds user feeds).perform s = _
      rw [perform_bind, perform_removeFeed hr hs, if_neg hpos]
      exact hrun

theorem perform_removeUser (hr : s.Ready) :
    (removeUser user).perform s
      = (if s.store.users.count (·.id == user) = 0 then .error .nothingUpdated else .ok (),
          { s with store := s.store.eraseUser user }) :=
  perform_change_orNothing_of_ready hr

/-- Removing a user feed by feed comes to removing the user at once. -/
theorem perform_removeUserByFeeds (hr : s.Ready) (hs : s.store.Integrity) :
    (removeUserByFeeds user).perform s = (removeUser user).perform s := by
  obtain ⟨t, hrun, -, husers, herase⟩ :=
    perform_removeFeeds hr hs (nodup_feedIds hs _) fun i hi => exists_ownFeed_iff.2 hi
  show (feedIds user >>= fun feeds => removeFeeds user feeds >>= fun _ => removeUser user).perform s
    = _
  rw [perform_bind, show (feedIds user).perform s = _ from perform_read_of_ready hr]
  dsimp only
  rw [perform_bind, hrun]
  dsimp only
  rw [perform_removeUser (s := { s with store := t }) hr, perform_removeUser hr, husers, herase]

end Action

end FeedStore

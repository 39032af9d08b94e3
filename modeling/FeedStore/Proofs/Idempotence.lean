import FeedStore.Proofs.EnclosureUpdates

/-!
# Refreshing again

After a refresh every hash of its batch is stored, so without updates the same refresh finds
nothing to do. With updates it takes another way than the first one did: what was created then is
updated now. But an entry that reflects its candidate (`Store.Reflects`) is left as it is by
updating it once more, and so are its enclosures; only identifiers of enclosures are used up
(`Action.perform_reconcile_of_reflects`). Creating and updating both lead there, and candidates of
other hashes leave it at that (`Action.reflects_reconcileAll`). So the whole batch can be gone
through again without changing a row (`Reachable.refreshes_again`).
-/

namespace FeedStore

open Store EnclosureOffer

/-! ## What an update has nothing to add to -/

namespace Store

variable {s t : Store} {user feed entry : Id} {now : Int} {c : Candidate} {e : Entry}
  {offers : List EnclosureOffer}

/-- The entry has just the enclosures that are on offer, each as it is offered last. -/
structure Carries (entry : Id) (offers : List EnclosureOffer) (s : Store) : Prop where
  urls : (s.urls entry).Perm (addresses offers)
  last : ∀ x ∈ s.attached entry,
    ∃ o, last? x.url offers = some o ∧ x.mimeType = o.mimeType ∧ x.size = o.size

/-- The entry shows the candidate since the given time, and has what the candidate offers, if that
is anything. -/
structure Reflects (user feed : Id) (now : Int) (c : Candidate) (s : Store) (e : Entry) :
    Prop where
  mem : e ∈ s.entries.rows
  owner : e.userId = user
  item : e.isItem feed c.hash = true
  shown : e.refreshed c now = e
  enclosures : addresses c.enclosures ≠ [] → s.Carries e.id c.enclosures

theorem InLine.carries (h : InLine user entry offers s t) : t.Carries entry offers :=
  ⟨h.urls, h.last⟩

/-- Bringing an entry in line with what it carries keeps each of its enclosures. -/
theorem InLine.attached_subset (h : InLine user entry offers s t) (hs : s.Carries entry offers) :
    s.attached entry ⊆ t.attached entry := by
  intro x hx
  have hurl : x.url ∈ addresses offers := hs.urls.subset (List.mem_map_of_mem hx)
  obtain ⟨y, hy, heq⟩ := h.kept x hx hurl
  have hyurl : y.url = x.url := by rw [heq]
  obtain ⟨o, ho, hmime, hsize⟩ := h.last y hy
  obtain ⟨o', ho', hmime', hsize'⟩ := hs.last x hx
  rw [hyurl, ho'] at ho
  obtain rfl := Option.some.inj ho
  have hsame : y = x := by
    rw [heq, hmime, hsize, ← hmime', ← hsize']
  exact hsame ▸ hy

/-- So no row changes, of that entry or of any other. -/
theorem InLine.enclosures_eq (h : InLine user entry offers s t) (hs : s.Integrity)
    (ht : t.Integrity) (hc : s.Carries entry offers) :
    t.enclosures
      = { s.enclosures with lastId := s.enclosures.lastId + usable offers } := by
  have hsub := h.attached_subset hc
  have hatt : t.attached entry ⊆ s.attached entry := by
    intro y hy
    have hurl : y.url ∈ s.urls entry :=
      hc.urls.symm.subset (h.urls.subset (List.mem_map_of_mem hy))
    obtain ⟨x, hx, hxurl⟩ := List.mem_map.1 hurl
    have hsame : x = y := List.inj_on_of_nodup_map (nodup_urls ht entry) (hsub hx) hy hxurl
    exact hsame ▸ hx
  have hmem : ∀ x, x ∈ t.enclosures.rows ↔ x ∈ s.enclosures.rows := by
    intro x
    have hrow (u : Store) : x ∈ u.enclosures.rows ↔ x ∈ u.attached x.entryId := by
      rw [mem_attached, and_iff_left rfl]
    rw [hrow t, hrow s]
    by_cases hentry : x.entryId = entry
    · rw [hentry]
      exact ⟨fun hx => hatt hx, fun hx => hsub hx⟩
    · rw [h.others x.entryId hentry]
  show t.enclosures = ⟨s.enclosures.rows, _⟩
  rw [← ht.enclosures.rows_eq hs.enclosures hmem, ← h.lastId]

theorem usable_eq_zero (h : addresses offers = []) : usable offers = 0 := by
  refine List.countP_eq_zero.2 fun o ho => ?_
  simp [addresses_eq_nil_iff.1 h o ho]

/-- What the candidate of another hash finds in the store makes no difference. -/
theorem Reflects.of_kept (h : s.Reflects user feed now c e) (hmem : e ∈ t.entries.rows)
    (hatt : t.attached e.id = s.attached e.id) : t.Reflects user feed now c e := by
  refine ⟨hmem, h.owner, h.item, h.shown, fun hne => ?_⟩
  obtain ⟨hurls, hlast⟩ := h.enclosures hne
  refine ⟨?_, ?_⟩
  · rw [urls, hatt]
    exact hurls
  · rw [hatt]
    exact hlast

end Store

/-! ## One candidate once more -/

/-- The session after that many identifiers of enclosures have been used up. -/
def Session.skipping (s : Session) (n : Nat) : Session :=
  { s with store := { s.store with
    enclosures := { s.store.enclosures with lastId := s.store.enclosures.lastId + n } } }

theorem Session.skipping_skipping (s : Session) (m n : Nat) :
    (s.skipping m).skipping n = s.skipping (m + n) := by
  simp only [skipping, Int.natCast_add, Int.add_assoc]

namespace Action

variable {user feed : Id} {now : Int} {c d : Candidate} {cs : List Candidate} {e : Entry}
  {s t : Session}

/-- Only an entry of the user is ever updated. -/
theorem exists_own_of_updateEntry (h : (updateEntry user feed c).perform s = (.ok (), t)) :
    ∃ e ∈ s.store.entries.rows, e.userId = user ∧ e.isItem feed c.hash = true := by
  unfold updateEntry at h
  obtain ⟨id, u, hchange, hrest⟩ := of_perform_bind (of_perform_now_bind h)
  obtain ⟨hid, -⟩ := of_perform_change hchange
  cases id with
  | none => cases hrest
  | some i =>
      obtain ⟨e, he, -⟩ := Option.map_eq_some_iff.1 hid.symm
      have hp := List.find?_some he
      obtain ⟨howner, hitem⟩ := Bool.and_eq_true_iff.1 hp
      exact ⟨e, List.mem_of_find?_eq_some he, eq_of_beq howner, hitem⟩

/-- Where the store reflects the candidate, updating once more changes nothing but the counter of
enclosures. -/
theorem perform_reconcile_of_reflects (hr : s.Ready) (hs : s.store.Integrity)
    (howned : s.store.EnclosuresOwned) (h : s.store.Reflects user feed s.now c e) :
    (reconcile user feed true c).perform s = (.ok none, s.skipping (usable c.enclosures)) := by
  have huser : s.store.hasUser user = true := h.owner ▸ hs.entryUser e h.mem
  obtain ⟨t, hupdate⟩ := exists_perform_updateEntry hr huser h.mem h.owner h.item
  obtain ⟨hfeed, hhash⟩ := Entry.isItem_iff.1 h.item
  have hknown : c.hash ∈ s.store.hashes feed := mem_hashes.2 ⟨e, h.mem, hfeed, hhash⟩
  obtain ⟨hspares, -, hsettles⟩ := updateEntry_settles hs hknown hupdate
  have hentries : t.store.entries = s.store.entries := by
    cases hsettles with
    | known _ hrows hlast =>
        have hseen : ∀ e' ∈ s.store.entries.rows, e'.seen feed true s.now c = e' := by
          intro e' he'
          by_cases hitem : e'.isItem feed c.hash = true
          · obtain ⟨hfeed', hhash'⟩ := Entry.isItem_iff.1 hitem
            have hsame : e' = e := hs.items.eq_of_eq he' h.mem (by
              rw [hfeed, hhash, hfeed', hhash'])
            rw [hsame, Entry.seen, h.item]
            exact h.shown
          · exact Entry.seen_of_not_isItem (Bool.not_eq_true _ ▸ hitem)
        rw [List.map_congr_left hseen, List.map_id'] at hrows
        show t.store.entries = ⟨s.store.entries.rows, s.store.entries.lastId⟩
        rw [← hrows, ← hlast]
  have henclosures : t.store.enclosures = { s.store.enclosures with
      lastId := s.store.enclosures.lastId + usable c.enclosures } := by
    obtain ⟨hnone, hline⟩ := inLine_updateEntry hs howned h.mem h.owner h.item hupdate
    by_cases hblank : addresses c.enclosures = []
    · rw [hnone hblank, usable_eq_zero hblank]
      exact congrArg (Table.mk _) (Int.add_zero _).symm
    · have hev : s.Evolves t := (evolves_updateEntry user feed c s).of_perform hupdate
      exact (hline hblank).enclosures_eq hs (hs.steps hev.store) (h.enclosures hblank)
  have ht : t = s.skipping (usable c.enclosures) := by
    rw [hspares, hentries, henclosures]
    rfl
  rw [perform_reconcile_of_known hr hknown hupdate, ht]

/-- Whichever way a candidate has gone through, the store reflects it afterwards. -/
theorem reflects_reconcile (hs : s.store.Integrity) (howned : s.store.EnclosuresOwned)
    {r : Option EntryView} (h : (reconcile user feed true c).perform s = (.ok r, t)) :
    ∃ e, t.store.Reflects user feed s.now c e := by
  rcases of_perform_reconcile h with ⟨hmem, -, hupdate, -⟩ | ⟨hnew, v, -, hcreate⟩
  · have hupdate := hupdate rfl
    obtain ⟨e, he, howner, hitem⟩ := exists_own_of_updateEntry hupdate
    obtain ⟨-, hline⟩ := inLine_updateEntry hs howned he howner hitem hupdate
    refine ⟨e.refreshed c s.now, ?_, howner, hitem, rfl, fun hne => (hline hne).carries⟩
    cases (updateEntry_settles hs hmem hupdate).2.2 with
    | known _ hrows _ =>
        rw [hrows]
        refine List.mem_map.2 ⟨e, he, ?_⟩
        rw [Entry.seen, hitem]
        rfl
  · obtain ⟨-, hline⟩ := inLine_createEntry hs hnew hcreate
    have hsettles : Settles user feed true c s t (some v) :=
      (createEntry_settles hs hnew hcreate).2.2
    cases hsettles with
    | new _ hentries hid _ _ =>
        refine ⟨c.toEntry user feed s.now v.id, ?_, rfl, Entry.isItem_iff.2 ⟨rfl, rfl⟩, rfl,
          fun _ => hline.carries⟩
        rw [hentries, Table.rows_add, hid]
        exact List.mem_append_right _ (List.mem_singleton_self _)

/-! ## The batch once more -/

/-- Candidates of other hashes leave it at that. -/
theorem reflects_of_reconcileAll {created : List EntryView} (hs : s.store.Integrity)
    (h : (reconcileAll user feed true cs).perform s = (.ok created, t))
    (hd : s.store.Reflects user feed now d e) (hother : d.hash ∉ cs.map (·.hash)) :
    t.store.Reflects user feed now d e := by
  have hrec := reconciles_reconcileAll hs h
  obtain ⟨-, hhash⟩ := Entry.isItem_iff.1 hd.item
  have htold : ¬ e.IsTold feed true cs := fun ⟨_, _, hmem⟩ => hother (hhash ▸ hmem)
  refine hd.of_kept ?_ (hrec.attached e hd.mem htold)
  rw [hrec.rows]
  exact List.mem_map.2 ⟨e, List.mem_append_left _ hd.mem, Entry.foldl_seen_of_not_isTold htold⟩

/-- After a batch of different hashes the store reflects all its candidates. -/
theorem reflects_reconcileAll {created : List EntryView} (hs : s.store.Integrity)
    (howned : s.store.EnclosuresOwned)
    (h : (reconcileAll user feed true cs).perform s = (.ok created, t))
    (hcs : (cs.map (·.hash)).Nodup) : ∀ c ∈ cs, ∃ e, t.store.Reflects user feed s.now c e := by
  induction cs generalizing s created with
  | nil => exact fun c hc => by cases hc
  | cons c cs ih =>
      obtain ⟨hother, hcs⟩ := List.nodup_cons.1 hcs
      unfold reconcileAll at h
      obtain ⟨r, u, htrans, hrest⟩ := of_perform_bind h
      obtain ⟨more, w, hmore, hlast⟩ := of_perform_bind hrest
      cases hlast
      have hstep := of_perform_transaction htrans
      have hev := (evolves_reconcile user feed true c s).of_perform hstep
      have hu : u.store.Integrity := hs.steps hev.store
      refine List.forall_mem_cons.2 ⟨?_, ?_⟩
      · obtain ⟨e, he⟩ := reflects_reconcile hs howned hstep
        exact ⟨e, reflects_of_reconcileAll hu hmore he hother⟩
      · rw [← hev.now]
        exact ih hu (howned.steps hev.store) hmore hcs

/-- Going through candidates that the store reflects changes nothing but the counter of
enclosures. -/
theorem perform_reconcileAll_of_reflects (hr : s.Ready) (hs : s.store.Integrity)
    (howned : s.store.EnclosuresOwned) (h : ∀ c ∈ cs, ∃ e, s.store.Reflects user feed s.now c e) :
    (reconcileAll user feed true cs).perform s
      = (.ok [], s.skipping (cs.map (usable ·.enclosures)).sum) := by
  induction cs generalizing s with
  | nil =>
      have hself : s.skipping 0 = s := by
        simp only [Session.skipping, Int.natCast_zero, Int.add_zero]
      rw [List.map_nil, List.sum_nil, hself]
      rfl
  | cons c cs ih =>
      rw [List.forall_mem_cons] at h
      obtain ⟨⟨e, he⟩, h⟩ := h
      have hopen : s.access.isOpen = true := by rw [show s.access = {} from hr]
      have hrec := perform_reconcile_of_reflects hr hs howned he
      have hev := (evolves_reconcile user feed true c s).of_perform hrec
      have hrest := ih (s := s.skipping (usable c.enclosures)) hr (hs.steps hev.store)
        (howned.steps hev.store) fun d hd => by
          obtain ⟨e', he'⟩ := h d hd
          exact ⟨e', he'.of_kept he'.mem rfl⟩
      rw [reconcileAll, perform_bind, perform_transaction, if_pos hopen, hrec]
      dsimp only
      rw [perform_bind, hrest, Session.skipping_skipping, List.map_cons, List.sum_cons]
      rfl

/-- Without updates, candidates whose hashes are all stored are passed over. -/
theorem perform_reconcileAll_of_known (hr : s.Ready)
    (h : ∀ c ∈ cs, c.hash ∈ s.store.hashes feed) :
    (reconcileAll user feed false cs).perform s = (.ok [], s) := by
  induction cs with
  | nil => rfl
  | cons c cs ih =>
      rw [List.forall_mem_cons] at h
      have hopen : s.access.isOpen = true := by rw [show s.access = {} from hr]
      have hrec : (reconcile user feed false c).perform s = (.ok none, s) := by
        unfold reconcile itemExists
        rw [perform_bind, perform_read_of_ready hr]
        dsimp only
        rw [if_pos (item?_isSome.2 h.1)]
        rfl
      rw [reconcileAll, perform_bind, perform_transaction, if_pos hopen, hrec]
      dsimp only
      rw [perform_bind, ih h.2]
      rfl

end Action

/-- The session after a sweep for the batch has been put off. -/
def Session.awaitingSweep (s : Session) (feed : Id) (cs : List Candidate) : Session :=
  { s with jobs := s.jobs ++ [{ work := .sweep feed (cs.map (·.hash)) }] }

open FeedStore.Action in
/-- A refresh that has gone through goes through again and creates nothing. Without updates it then
leaves the store as it is, whatever the time. With updates, if the hashes of the batch are
different, it does so at the same time, up to the counter of enclosures: one identifier for each
offer with an address has been used up. -/
theorem Reachable.refreshes_again {s t : Session} (hs : Reachable s) {user feed : Id}
    {cs : List Candidate} {update : Bool} {created : List EntryView}
    (h : (refreshFeed user feed cs update).perform s = (.ok created, t)) :
    (update = false → ∀ now, (refreshFeed user feed cs update).perform { t with now }
        = (.ok [], { t with now }.awaitingSweep feed cs))
      ∧ (update = true → (cs.map (·.hash)).Nodup → (refreshFeed user feed cs update).perform t
          = (.ok [],
            (t.skipping (cs.map (usable ·.enclosures)).sum).awaitingSweep feed cs)) := by
  have ht : Reachable t := reachable_of_refreshFeed hs h
  obtain ⟨u, hrec, rfl⟩ := perform_refreshFeed_ok_iff.1 h
  constructor
  · rintro rfl now
    have hmem := (reconciles_reconcileAll hs.integrity hrec).mem_hashes
    rw [perform_refreshFeed, perform_reconcileAll_of_known]
    · rfl
    · exact ht.ready
    · exact fun c hc => (hmem c.hash).2 (Or.inr (List.mem_map_of_mem hc))
  · rintro rfl hcs
    have hnow : u.now = s.now :=
      ((evolves_reconcileAll user feed true cs s).of_perform hrec).now
    have hreflects := reflects_reconcileAll hs.integrity hs.enclosuresOwned hrec hcs
    rw [perform_refreshFeed,
      perform_reconcileAll_of_reflects ht.ready ht.integrity ht.enclosuresOwned]
    · rfl
    · intro c hc
      rw [show ({ u with jobs := _ } : Session).now = s.now from hnow]
      exact hreflects c hc

/-- Two entries are created, one of them with two enclosures by three offers. Going through the
batch again uses up three more identifiers of enclosures, and nothing else happens. -/
theorem Reachable.refreshes_again_offering :
    ∃ created t,
      (Action.refreshFeed 1 1 [.offering, .bare "b" 2] true).perform .subscribed = (.ok created, t)
        ∧ created.length = 2
        ∧ (Action.refreshFeed 1 1 [.offering, .bare "b" 2] true).perform t
          = (.ok [], (t.skipping 3).awaitingSweep 1 [.offering, .bare "b" 2]) := by
  have hfirst : ((Action.refreshFeed 1 1 [.offering, .bare "b" 2] true).perform .subscribed).1.map
      (·.length) = .ok 2 := by decide +kernel
  have husable : (([.offering, .bare "b" 2] : List Candidate).map (usable ·.enclosures)).sum
      = 3 := by decide +kernel
  cases hrun : (Action.refreshFeed 1 1 [.offering, .bare "b" 2] true).perform .subscribed with
  | mk r t =>
      rw [hrun] at hfirst
      cases r with
      | error e => cases hfirst
      | ok created =>
          obtain ⟨-, hagain⟩ := Reachable.subscribed.refreshes_again hrun
          refine ⟨created, t, rfl, Except.ok.inj hfirst, ?_⟩
          rw [hagain rfl (by decide), husable]

end FeedStore

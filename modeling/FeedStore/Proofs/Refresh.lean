import FeedStore.Proofs.Attachments
import FeedStore.Proofs.Batch
import FeedStore.Proofs.Views

/-!
# What a refresh does to the entries of a feed

Newcomers become entries, and with updates every entry shows the last candidate of its hash.
The invariant that carries the batch is one equation for the rows (`Action.Reconciles.rows`):
those before and the new ones, each having seen every candidate. It goes through because a new
entry is not changed by the candidate that it was made from.
-/

namespace FeedStore

/-- The hashes of the entries of a feed. -/
def Store.hashes (s : Store) (feed : Id) : List String :=
  (s.entries.select (·.feedId == feed)).map (·.hash)

/-! ## One candidate -/

/-- The entry that a candidate has become, as a reader gets it. -/
def Candidate.toView (c : Candidate) (user : Id) (feed : Feed) (now : Int) (id : Id)
    (enclosures : List Enclosure) : EntryView :=
  { id
    userId := user
    feedId := feed.id
    hash := c.hash
    title := c.title
    url := c.url
    commentsUrl := c.commentsUrl
    author := c.author
    content := c.content
    tags := c.tags
    readingTime := c.readingTime
    publishedAt := c.publishedAt
    createdAt := now
    changedAt := now
    status := .unread
    starred := false
    shareCode := ""
    feedTitle := feed.title
    categoryId := feed.categoryId
    enclosures }

/-- The view is that of a new entry of a feed, made from the candidate: unread, with neither
star nor share code, and with the enclosures that the candidate offers. -/
structure Candidate.Makes (user : Id) (feed : Feed) (now : Int) (c : Candidate) (v : EntryView) :
    Prop where
  view : v = c.toView user feed now v.id v.enclosures
  offers : v.enclosures.map Enclosure.offer = EnclosureOffer.merged c.enclosures
  enclosures : ∀ x ∈ v.enclosures, x.entryId = v.id ∧ x.IsUnplayedOf user

namespace Store

open Table

variable {s t : Store} {user feed : Id} {c : Candidate} {now : Int}

theorem mem_hashes {hash : String} :
    hash ∈ s.hashes feed ↔ ∃ e ∈ s.entries.rows, e.feedId = feed ∧ e.hash = hash := by
  simp [hashes, select, and_assoc]

theorem item?_isSome : (s.item? feed c.hash).isSome = true ↔ c.hash ∈ s.hashes feed := by
  rw [mem_hashes]
  simp [item?, Table.find?, List.find?_isSome, Entry.isItem]

theorem of_refreshEntry {i : Id} (h : (s.refreshEntry user feed c now).1 = some i) :
    ∃ e ∈ s.entries.rows, e.id = i ∧ e.isItem feed c.hash = true := by
  obtain ⟨e, he, hid⟩ := Option.map_eq_some_iff.1 h
  have hp := List.find?_some he
  exact ⟨e, List.mem_of_find?_eq_some he, hid, (Bool.and_eq_true_iff.1 hp).2⟩

/-- A refresh that reaches an entry reaches the one with that hash, and nothing else. -/
theorem refreshEntry_eq (hs : s.Integrity) {i : Id}
    (h : (s.refreshEntry user feed c now).1 = some i) :
    (s.refreshEntry user feed c now).2
      = { s with
          entries := s.entries.modify (Entry.isItem feed c.hash) (Entry.refreshed c now) } := by
  obtain ⟨e₀, he₀, -⟩ := Option.map_eq_some_iff.1 h
  have hp := List.find?_some he₀
  rw [Bool.and_eq_true, beq_iff_eq, Entry.isItem_iff] at hp
  have hcongr : ∀ e ∈ s.entries.rows,
      (e.userId == user && e.isItem feed c.hash) = e.isItem feed c.hash := fun e he => by
    by_cases hitem : e.isItem feed c.hash = true
    · have heq : e = e₀ := hs.items.eq_of_eq he (List.mem_of_find?_eq_some he₀) (by
        obtain ⟨hfeed, hhash⟩ := Entry.isItem_iff.1 hitem
        rw [hfeed, hhash, hp.2.1, hp.2.2])
      rw [heq, hp.1, beq_self_eq_true, Bool.true_and]
    · rw [Bool.not_eq_true] at hitem
      rw [hitem, Bool.and_false]
  show ({ s with entries := s.entries.modify _ _ } : Store) = _
  rw [modify_congr hcongr]

/-- The row of a new entry is found by its identifier. -/
theorem find?_addEntry (hs : s.Integrity) :
    (s.entries.add (c.toEntry user feed now)).2.find? (·.id == s.entries.lastId + 1)
      = some (c.toEntry user feed now (s.entries.lastId + 1)) :=
  (hs.entries.add fun _ => rfl).find?_id (by simp) rfl

theorem of_listedEntry {id : Id} {l : Listed} (h : s.listedEntry id = .ok l) :
    ∃ e, s.entries.find? (·.id == id) = some e ∧ s.listed? e = some l := by
  unfold listedEntry at h
  split at h
  · rename_i l' hl
    cases h
    exact Option.bind_eq_some_iff.1 hl
  · cases h

end Store

namespace Action

open Store

variable {user feed : Id} {update : Bool} {c : Candidate} {cs : List Candidate} {s t : Session}

theorem of_perform_fetchEntry {id : Id} {v : EntryView}
    (h : (fetchEntry id).perform s = (.ok v, t)) :
    t = s ∧ ∃ e l, s.store.entries.find? (·.id == id) = some e ∧ s.store.listed? e = some l
      ∧ l.view = .ok v := by
  unfold fetchEntry at h
  obtain ⟨l, u, hread, hview⟩ := of_perform_bind h
  obtain ⟨hlisted, rfl⟩ := of_perform_readWithin hread
  obtain ⟨e, he, hl⟩ := of_listedEntry hlisted
  cases hv : l.view with
  | error err =>
      rw [hv] at hview
      cases hview
  | ok v' =>
      rw [hv] at hview
      cases hview
      exact ⟨rfl, e, l, he, hl, hv⟩

/-- What a candidate has done to the rows of entries: an entry that was there has seen it, or
it has become a new one. -/
inductive Settles (user feed : Id) (update : Bool) (c : Candidate) (s t : Session) :
    Option EntryView → Prop
  | known (hmem : c.hash ∈ s.store.hashes feed)
      (rows : t.store.entries.rows
        = s.store.entries.rows.map fun e => e.seen feed update s.now c)
      (lastId : t.store.entries.lastId = s.store.entries.lastId) :
      Settles user feed update c s t none
  | new {v : EntryView} {f : Feed} (hnew : c.hash ∉ s.store.hashes feed)
      (entries : t.store.entries = (s.store.entries.add (c.toEntry user feed s.now)).2)
      (id : v.id = s.store.entries.lastId + 1)
      (hfeed : s.store.feeds.find? (·.id == feed) = some f)
      (makes : c.Makes user f s.now v) : Settles user feed update c s t (some v)

/-- The second session differs from the first one in entries and enclosures only. -/
def Spares (s t : Session) : Prop :=
  t = { s with store := { s.store with
    entries := t.store.entries, enclosures := t.store.enclosures } }

/-- Entries in which the batch has no say keep their enclosures. -/
def KeepsAttached (feed : Id) (update : Bool) (cs : List Candidate) (s t : Session) : Prop :=
  ∀ e ∈ s.store.entries.rows, ¬ e.IsTold feed update cs →
    t.store.attached e.id = s.store.attached e.id

theorem Settles.mem_rows {r : Option EntryView} (h : Settles user feed update c s t r) {e : Entry}
    (he : e ∈ s.store.entries.rows) (htold : ¬ e.IsTold feed update [c]) :
    e ∈ t.store.entries.rows := by
  cases h with
  | known hmem rows lastId =>
      rw [rows]
      exact List.mem_map.2 ⟨e, he, Entry.seen_of_not_isTold htold⟩
  | new hnew entries id hfeed makes =>
      rw [entries, Table.rows_add]
      exact List.mem_append_left _ he

/-- What a candidate leaves alone and the rest of its batch as well, the whole batch leaves
alone. -/
theorem Settles.keepsAttached {u : Session} {r : Option EntryView}
    (h : Settles user feed update c s t r) (hfirst : KeepsAttached feed update [c] s t)
    (hrest : KeepsAttached feed update cs t u) : KeepsAttached feed update (c :: cs) s u := by
  intro e he htold
  have htold₁ : ¬ e.IsTold feed update [c] := fun ⟨hupdate, hfeed, hhash⟩ =>
    htold ⟨hupdate, hfeed, List.mem_cons.2 (Or.inl (List.mem_singleton.1 hhash))⟩
  have htold₂ : ¬ e.IsTold feed update cs := fun ⟨hupdate, hfeed, hhash⟩ =>
    htold ⟨hupdate, hfeed, List.mem_cons_of_mem _ hhash⟩
  rw [hrest e (h.mem_rows he htold₁) htold₂, hfirst e he htold₁]

theorem createEntry_settles (hs : s.store.Integrity) {v : EntryView}
    (hnew : c.hash ∉ s.store.hashes feed)
    (h : (createEntry user feed c).perform s = (.ok v, t)) :
    Spares s t ∧ KeepsAttached feed update [c] s t ∧ Settles user feed update c s t (some v) := by
  unfold createEntry at h
  obtain ⟨i, u, hwrite, hrest⟩ := of_perform_bind (of_perform_now_bind h)
  obtain ⟨store, hadd, rfl⟩ := of_perform_write hwrite
  obtain ⟨xs, w, hput, hrest⟩ := of_perform_bind hrest
  obtain ⟨view, w', hfetch, hlast⟩ := of_perform_bind hrest
  obtain ⟨rfl, e, l, he, hl, hv⟩ := of_perform_fetchEntry hfetch
  cases hlast
  have hitem : s.store.item? feed c.hash = none := by
    rw [← Option.not_isSome_iff_eq_none, item?_isSome]
    exact hnew
  have hint : store.Integrity := hs.addEntry hitem hadd
  obtain ⟨-, -, rfl, rfl⟩ := of_addEntry hadd
  -- the store when the entry is read is the one it was written to, up to enclosures
  have hframe := putEnclosures_frame hput
  have hentries : t.store.entries = (s.store.entries.add (c.toEntry user feed s.now)).2 := by
    rw [hframe]
  have hfeeds : t.store.feeds = s.store.feeds := by
    rw [hframe]
  rw [hentries, find?_addEntry hs] at he
  cases he
  obtain ⟨hentry, hfeed, hcategory⟩ := of_listed? hl
  have hview : l.view = .ok (l.viewWith .unread c.tags) :=
    Listed.view_eq (by rw [hentry]; rfl) (by rw [hentry]; rfl)
  rw [hview] at hv
  cases hv
  replace hfeed : s.store.feeds.find? (·.id == feed) = some l.feed := hfeeds ▸ hfeed
  have hfid : l.feed.id = feed := by simpa using List.find?_some hfeed
  have hnone : s.store.attached (s.store.entries.lastId + 1) = [] :=
    attached_eq_nil hs (Int.lt_add_one_of_le le_rfl)
  have hatt := attaches_putEnclosures hput hint hnone.symm
  refine ⟨by rw [Spares, hframe], fun e he _ => ?_,
    .new hnew hentries (by rw [Listed.viewWith, hentry]; rfl) hfeed ⟨?_, ?_, ?_⟩⟩
  · -- the identifier is new, so no entry that was there has it
    have hne : e.id ≠ s.store.entries.lastId + 1 :=
      ne_of_lt (Int.lt_add_one_of_le (hs.entries.bounded e he))
    exact attached_putEnclosures_of_ne hput hne
  · rw [Listed.viewWith, Candidate.toView, hentry, hcategory, hfid]
    rfl
  · show xs.map Enclosure.offer = _
    rw [hatt.offers]
    show List.foldl _ ((s.store.attached _).map _) _ = _
    rw [hnone]
    rfl
  · intro x hx
    have hx : x ∈ xs := hx
    refine ⟨?_, hatt.unplayed (fun y hy => ?_) x hx⟩
    · show x.entryId = l.entry.id
      rw [hentry]
      exact (mem_attached.1 (hatt.attached ▸ hx)).2
    · have hy : y ∈ s.store.attached (s.store.entries.lastId + 1) := hy
      rw [hnone] at hy
      cases hy

theorem updateEntry_settles (hs : s.store.Integrity) (hmem : c.hash ∈ s.store.hashes feed)
    (h : (updateEntry user feed c).perform s = (.ok (), t)) :
    Spares s t ∧ KeepsAttached feed true [c] s t ∧ Settles user feed true c s t none := by
  unfold updateEntry at h
  obtain ⟨id, u, hchange, hrest⟩ := of_perform_bind (of_perform_now_bind h)
  obtain ⟨hid, rfl⟩ := of_perform_change hchange
  cases id with
  | none => cases hrest
  | some i =>
      have hframe := updateEnclosures_frame hrest
      rw [refreshEntry_eq hs hid.symm] at hframe
      refine ⟨by rw [Spares, hframe], fun e he htold => ?_,
        .known hmem ?_ (by rw [hframe]; rfl)⟩
      · obtain ⟨e₀, he₀, rfl, hitem⟩ := of_refreshEntry hid.symm
        have hne : e.id ≠ e₀.id := fun heq => by
          obtain rfl := hs.entries.distinct.eq_of_eq he he₀ heq
          obtain ⟨hfeed, hhash⟩ := Entry.isItem_iff.1 hitem
          exact htold ⟨rfl, hfeed, by simp [hhash]⟩
        exact attached_updateEnclosures_of_ne hrest hne
      · rw [hframe]
        exact List.map_congr_left fun e _ => by simp [Entry.seen]

/-- Comparing a candidate that goes through updates the entry that there is, if that is asked for,
or creates one. -/
theorem of_perform_reconcile {r : Option EntryView}
    (h : (reconcile user feed update c).perform s = (.ok r, t)) :
    (c.hash ∈ s.store.hashes feed ∧ r = none
        ∧ (update = true → (updateEntry user feed c).perform s = (.ok (), t))
        ∧ (update = false → t = s))
      ∨ c.hash ∉ s.store.hashes feed
        ∧ ∃ v, r = some v ∧ (createEntry user feed c).perform s = (.ok v, t) := by
  unfold reconcile at h
  obtain ⟨found, u, hread, hrest⟩ := of_perform_bind h
  obtain ⟨rfl, rfl⟩ := of_perform_read hread
  by_cases hmem : c.hash ∈ u.store.hashes feed
  · rw [if_pos (item?_isSome.2 hmem)] at hrest
    refine Or.inl ⟨hmem, ?_⟩
    cases update with
    | true =>
        dsimp only at hrest
        rw [if_pos rfl] at hrest
        obtain ⟨⟨⟩, v, hupdate, hlast⟩ := of_perform_bind hrest
        cases hlast
        exact ⟨rfl, fun _ => hupdate, fun hfalse => Bool.noConfusion hfalse⟩
    | false =>
        cases hrest
        exact ⟨rfl, fun htrue => Bool.noConfusion htrue, fun _ => rfl⟩
  · rw [if_neg fun hsome => hmem (item?_isSome.1 hsome)] at hrest
    obtain ⟨v, w, hcreate, hlast⟩ := of_perform_bind hrest
    cases hlast
    exact Or.inr ⟨hmem, v, rfl, hcreate⟩

/-- A candidate that goes through either shows an entry again or becomes one. -/
theorem reconcile_settles (hs : s.store.Integrity) {r : Option EntryView}
    (h : (reconcile user feed update c).perform s = (.ok r, t)) :
    Spares s t ∧ KeepsAttached feed update [c] s t ∧ Settles user feed update c s t r := by
  rcases of_perform_reconcile h with ⟨hmem, rfl, hupdate, hsame⟩ | ⟨hnew, v, rfl, hcreate⟩
  · cases update with
    | true => exact updateEntry_settles hs hmem (hupdate rfl)
    | false =>
        obtain rfl := hsame rfl
        refine ⟨rfl, fun _ _ _ => rfl, .known hmem ?_ rfl⟩
        conv => lhs; rw [← List.map_id t.store.entries.rows]
        exact List.map_congr_left fun e _ => Entry.seen_false.symm
  · exact createEntry_settles hs hnew hcreate

/-! ## A batch -/

/-- The rows of the entries that candidates have become. -/
def newRows (user feed : Id) (now : Int) (cs : List Candidate) (created : List EntryView) :
    List Entry :=
  List.zipWith (fun c v => c.toEntry user feed now v.id) cs created

theorem of_mem_newRows {now : Int} {created : List EntryView} {e : Entry}
    (h : e ∈ newRows user feed now cs created) :
    ∃ c ∈ cs, ∃ v ∈ created, e = c.toEntry user feed now v.id := by
  induction cs generalizing created with
  | nil => cases h
  | cons c cs ih =>
      cases created with
      | nil => cases h
      | cons v created =>
          rcases List.mem_cons.1 h with rfl | h
          · exact ⟨c, List.mem_cons_self, v, List.mem_cons_self, rfl⟩
          · obtain ⟨d, hd, w, hw, he⟩ := ih h
            exact ⟨d, List.mem_cons_of_mem _ hd, w, List.mem_cons_of_mem _ hw, he⟩

theorem mem_hash_newRows {now : Int} {created : List EntryView}
    (hlen : cs.length = created.length) {x : String} :
    (∃ e ∈ newRows user feed now cs created, e.feedId = feed ∧ e.hash = x)
      ↔ x ∈ cs.map (·.hash) := by
  induction cs generalizing created with
  | nil => simp [newRows]
  | cons c cs ih =>
      cases created with
      | nil => cases hlen
      | cons v created =>
          have hrest := ih (Nat.succ.inj hlen)
          rw [List.map_cons, List.mem_cons, ← hrest]
          constructor
          · rintro ⟨e, he, hfeed, rfl⟩
            rcases List.mem_cons.1 he with rfl | he
            · exact Or.inl rfl
            · exact Or.inr ⟨e, he, hfeed, rfl⟩
          · rintro (rfl | ⟨e, he, hfeed, hhash⟩)
            · exact ⟨_, List.mem_cons_self, rfl, rfl⟩
            · exact ⟨e, List.mem_cons_of_mem _ he, hfeed, hhash⟩

/-- What a batch that went through has done: newcomers became entries under new identifiers,
and every row, old or new, has seen every candidate. -/
structure Reconciles (user feed : Id) (update : Bool) (cs : List Candidate)
    (created : List EntryView) (s t : Session) : Prop where
  spares : Spares s t
  makes : List.Forall₂
    (fun c v => ∃ f, s.store.feeds.find? (·.id == feed) = some f ∧ c.Makes user f s.now v)
    (Candidate.newcomers (s.store.hashes feed) cs) created
  ascending : created.Pairwise fun v w => v.id < w.id
  fresh : ∀ v ∈ created, s.store.entries.lastId < v.id
  attached : KeepsAttached feed update cs s t
  rows : t.store.entries.rows
    = (s.store.entries.rows
        ++ newRows user feed s.now (Candidate.newcomers (s.store.hashes feed) cs) created).map
      fun e => cs.foldl (Entry.seen feed update s.now) e

theorem reconciles_nil : Reconciles user feed update [] [] s s where
  spares := rfl
  makes := .nil
  ascending := .nil
  fresh := fun v hv => by cases hv
  attached := fun _ _ _ => rfl
  rows := by simp [newRows]

theorem hashes_of_known {t : Session} {now : Int}
    (h : t.store.entries.rows = s.store.entries.rows.map fun e => e.seen feed update now c)
    (x : String) :
    x ∈ t.store.hashes feed ↔ x ∈ s.store.hashes feed := by
  have hseen : ∀ e : Entry, (e.seen feed update now c).feedId = e.feedId
      ∧ (e.seen feed update now c).hash = e.hash := fun e => Entry.foldl_seen_item [c]
  simp [mem_hashes, h, hseen]

theorem hashes_of_new {now : Int}
    (h : t.store.entries = (s.store.entries.add (c.toEntry user feed now)).2) (x : String) :
    x ∈ t.store.hashes feed ↔ x ∈ c.hash :: s.store.hashes feed := by
  rw [mem_hashes, h, List.mem_cons, mem_hashes]
  constructor
  · rintro ⟨e, he, hfeed, hhash⟩
    rw [Table.rows_add, List.mem_append, List.mem_singleton] at he
    rcases he with he | rfl
    · exact Or.inr ⟨e, he, hfeed, hhash⟩
    · exact Or.inl hhash.symm
  · rintro (rfl | ⟨e, he, hfeed, hhash⟩)
    · exact ⟨_, by rw [Table.rows_add]; exact List.mem_append_right _ (List.mem_singleton_self _),
        rfl, rfl⟩
    · exact ⟨e, by rw [Table.rows_add]; exact List.mem_append_left _ he, hfeed, hhash⟩

theorem Spares.trans {u : Session} (h : Spares s t) (h' : Spares t u) : Spares s u := by
  unfold Spares at h h' ⊢
  rw [h', h]

theorem Spares.users (h : Spares s t) : t.store.users = s.store.users := by rw [h]

theorem Spares.categories (h : Spares s t) : t.store.categories = s.store.categories := by rw [h]

theorem Spares.feeds (h : Spares s t) : t.store.feeds = s.store.feeds := by rw [h]

/-- The new rows of a batch do not see a candidate whose hash is known. -/
theorem seen_of_mem_newRows {known : List String} {now : Int} {created : List EntryView}
    {e : Entry} (hc : c.hash ∈ known)
    (he : e ∈ newRows user feed now (Candidate.newcomers known cs) created) :
    e.seen feed update now c = e := by
  obtain ⟨d, hd, v, -, rfl⟩ := of_mem_newRows he
  refine Entry.seen_of_not_isItem ?_
  rw [Bool.eq_false_iff]
  intro hitem
  have hhash : d.hash = c.hash := (Entry.isItem_iff.1 hitem).2
  exact Candidate.hash_not_mem_of_mem_newcomers hd (hhash ▸ hc)

/-- The entries that are given carry the hashes of the newcomers. -/
theorem Reconciles.map_hash {created : List EntryView}
    (h : Reconciles user feed update cs created s t) :
    created.map (·.hash) = (Candidate.newcomers (s.store.hashes feed) cs).map (·.hash) := by
  have hhash : List.Forall₂ (fun c v => c.hash = v.hash)
      (Candidate.newcomers (s.store.hashes feed) cs) created :=
    h.makes.imp fun c v ⟨f, _, hmakes⟩ => (congrArg EntryView.hash hmakes.view).symm
  have heq := List.forall₂_map_right_iff.2 (List.forall₂_map_left_iff.2 hhash)
  rw [List.forall₂_eq_eq_eq] at heq
  exact heq.symm

theorem Reconciles.cons_known {u : Session} {created : List EntryView} (hspares : Spares s t)
    (hattached : KeepsAttached feed update (c :: cs) s u) (hmem : c.hash ∈ s.store.hashes feed)
    (hrows : t.store.entries.rows = s.store.entries.rows.map fun e => e.seen feed update s.now c)
    (hlast : t.store.entries.lastId = s.store.entries.lastId)
    (h : Reconciles user feed update cs created t u) :
    Reconciles user feed update (c :: cs) created s u := by
  have hnow : t.now = s.now := by rw [hspares]
  have hfeeds : t.store.feeds = s.store.feeds := by rw [hspares]
  have hcs : Candidate.newcomers (s.store.hashes feed) (c :: cs)
      = Candidate.newcomers (t.store.hashes feed) cs := by
    rw [Candidate.newcomers, if_pos hmem]
    exact (Candidate.newcomers_congr (hashes_of_known hrows) cs).symm
  refine ⟨hspares.trans h.spares, ?_, h.ascending, ?_, hattached, ?_⟩
  · rw [hcs]
    simpa only [hnow, hfeeds] using h.makes
  · exact fun v hv => hlast ▸ h.fresh v hv
  · rw [h.rows, hcs, hrows, hnow, List.map_append, List.map_append, List.map_map]
    congr 1
    refine List.map_congr_left fun e he => ?_
    rw [List.foldl_cons, seen_of_mem_newRows ((hashes_of_known hrows _).2 hmem) he]

theorem Reconciles.cons_new {u : Session} {created : List EntryView} {v : EntryView} {f : Feed}
    (hspares : Spares s t) (hattached : KeepsAttached feed update (c :: cs) s u)
    (hnew : c.hash ∉ s.store.hashes feed)
    (hentries : t.store.entries = (s.store.entries.add (c.toEntry user feed s.now)).2)
    (hid : v.id = s.store.entries.lastId + 1)
    (hfeed : s.store.feeds.find? (·.id == feed) = some f) (hmakes : c.Makes user f s.now v)
    (h : Reconciles user feed update cs created t u) :
    Reconciles user feed update (c :: cs) (v :: created) s u := by
  have hnow : t.now = s.now := by rw [hspares]
  have hfeeds : t.store.feeds = s.store.feeds := by rw [hspares]
  have hlast : t.store.entries.lastId = v.id := by rw [hentries, hid]; rfl
  have hcs : Candidate.newcomers (s.store.hashes feed) (c :: cs)
      = c :: Candidate.newcomers (t.store.hashes feed) cs := by
    rw [Candidate.newcomers, if_neg hnew]
    rw [Candidate.newcomers_congr (hashes_of_new hentries) cs]
  have hlt : s.store.entries.lastId < v.id := by
    rw [hid]
    exact Int.lt_add_one_of_le le_rfl
  refine ⟨hspares.trans h.spares, ?_, ?_, ?_, hattached, ?_⟩
  · rw [hcs]
    refine .cons ⟨f, hfeed, hmakes⟩ ?_
    simpa only [hnow, hfeeds] using h.makes
  · exact List.pairwise_cons.2 ⟨fun w hw => hlast ▸ h.fresh w hw, h.ascending⟩
  · rw [List.forall_mem_cons]
    exact ⟨hlt, fun w hw => lt_trans hlt (hlast ▸ h.fresh w hw)⟩
  · have hrows : t.store.entries.rows
        = s.store.entries.rows ++ [c.toEntry user feed s.now v.id] := by
      rw [hentries, hid]
      rfl
    have hnews : newRows user feed s.now (c :: Candidate.newcomers (t.store.hashes feed) cs)
        (v :: created) = c.toEntry user feed s.now v.id
          :: newRows user feed s.now (Candidate.newcomers (t.store.hashes feed) cs) created := rfl
    rw [h.rows, hcs, hnews, hrows, hnow, List.append_assoc, List.singleton_append]
    -- neither the rows that were there nor the new ones see the candidate
    refine List.map_congr_left fun e he => ?_
    have hseen : e.seen feed update s.now c = e := by
      rcases List.mem_append.1 he with he | he
      · refine Entry.seen_of_not_isItem ?_
        rw [Bool.eq_false_iff]
        exact fun hitem => hnew (mem_hashes.2 ⟨e, he, Entry.isItem_iff.1 hitem⟩)
      · rcases List.mem_cons.1 he with rfl | he
        · exact Entry.seen_toEntry user v.id
        · exact seen_of_mem_newRows ((hashes_of_new hentries _).2 List.mem_cons_self) he
    rw [List.foldl_cons, hseen]

/-- What the batch does, candidate by candidate. -/
theorem reconciles_reconcileAll {created : List EntryView} (hs : s.store.Integrity)
    (h : (reconcileAll user feed update cs).perform s = (.ok created, t)) :
    Reconciles user feed update cs created s t := by
  induction cs generalizing s created with
  | nil =>
      cases h
      exact reconciles_nil
  | cons c cs ih =>
      unfold reconcileAll at h
      obtain ⟨r, u, htrans, hrest⟩ := of_perform_bind h
      obtain ⟨more, w, hmore, hlast⟩ := of_perform_bind hrest
      cases hlast
      have hstep := of_perform_transaction htrans
      have hu : u.store.Integrity :=
        hs.steps ((evolves_reconcile user feed update c s).of_perform hstep).store
      obtain ⟨hspares, hfirst, hsettles⟩ := reconcile_settles hs hstep
      have hbatch := ih hu hmore
      have hattached := hsettles.keepsAttached hfirst hbatch.attached
      cases hsettles with
      | known hmem hrows hlast => exact hbatch.cons_known hspares hattached hmem hrows hlast
      | new hnew hentries hid hfeed hmakes =>
          exact hbatch.cons_new hspares hattached hnew hentries hid hfeed hmakes

/-- No hash is lost, and every hash of the batch is there afterwards. -/
theorem Reconciles.mem_hashes {created : List EntryView}
    (h : Reconciles user feed update cs created s t) (x : String) :
    x ∈ t.store.hashes feed ↔ x ∈ s.store.hashes feed ∨ x ∈ cs.map (·.hash) := by
  have hnew : (∃ e ∈ newRows user feed s.now
      (Candidate.newcomers (s.store.hashes feed) cs) created, e.feedId = feed ∧ e.hash = x)
        ↔ x ∉ s.store.hashes feed ∧ x ∈ cs.map (·.hash) := by
    rw [mem_hash_newRows h.makes.length_eq, Candidate.mem_map_hash_newcomers]
  have hseen : ∀ e : Entry, (cs.foldl (Entry.seen feed update s.now) e).feedId = e.feedId
      ∧ (cs.foldl (Entry.seen feed update s.now) e).hash = e.hash :=
    fun e => Entry.foldl_seen_item cs
  rw [Store.mem_hashes, h.rows]
  constructor
  · rintro ⟨e', hmem, hitem⟩
    obtain ⟨e, he, rfl⟩ := List.mem_map.1 hmem
    rw [(hseen e).1, (hseen e).2] at hitem
    rcases List.mem_append.1 he with he | he
    · exact Or.inl (Store.mem_hashes.2 ⟨e, he, hitem⟩)
    · exact Or.inr (hnew.1 ⟨e, he, hitem⟩).2
  · intro hx
    obtain ⟨e, he, hitem⟩ : ∃ e ∈ s.store.entries.rows ++ newRows user feed s.now
        (Candidate.newcomers (s.store.hashes feed) cs) created, e.feedId = feed ∧ e.hash = x := by
      by_cases hknown : x ∈ s.store.hashes feed
      · obtain ⟨e, he, hitem⟩ := Store.mem_hashes.1 hknown
        exact ⟨e, List.mem_append_left _ he, hitem⟩
      · obtain ⟨e, he, hitem⟩ := hnew.2 ⟨hknown, hx.resolve_left hknown⟩
        exact ⟨e, List.mem_append_right _ he, hitem⟩
    refine ⟨_, List.mem_map_of_mem he, ?_⟩
    rw [(hseen e).1, (hseen e).2]
    exact hitem

/-- A refresh that goes through adds the newcomers of its batch under identifiers that no
entry has had, and with updates every entry that the batch names shows its last candidate;
whatever else an entry is stays, and without updates all of it, enclosures included. -/
theorem refreshFeed_reconciles {created : List EntryView} (hs : Reachable s)
    (h : (refreshFeed user feed cs update).perform s = (.ok created, t)) :
    (∀ hash, hash ∈ t.store.hashes feed ↔ hash ∈ s.store.hashes feed ∨ hash ∈ cs.map (·.hash))
      ∧ List.Forall₂
          (fun c v => ∃ f, s.store.feeds.find? (·.id == feed) = some f ∧ c.Makes user f s.now v)
          (Candidate.newcomers (s.store.hashes feed) cs) created
      ∧ (created.map (·.hash)).Nodup
      ∧ (∀ hash, hash ∈ created.map (·.hash)
          ↔ hash ∉ s.store.hashes feed ∧ hash ∈ cs.map (·.hash))
      ∧ created.Pairwise (fun v w => v.id < w.id)
      ∧ (∀ v ∈ created, ∀ r : Session, Reachable r → r.Leads s →
          ∀ e ∈ r.store.entries.rows, e.id < v.id)
      ∧ (update = false → t.store.entries.rows = s.store.entries.rows
          ++ newRows user feed s.now (Candidate.newcomers (s.store.hashes feed) cs) created)
      ∧ (∀ e ∈ s.store.entries.rows, ¬ e.IsTold feed update cs →
          t.store.attached e.id = s.store.attached e.id)
      ∧ (update = true → List.Forall₂ (Entry.Updates feed cs s.now)
          (s.store.entries.rows
            ++ newRows user feed s.now (Candidate.newcomers (s.store.hashes feed) cs) created)
          t.store.entries.rows) := by
  obtain ⟨u, hrec, rfl⟩ : ∃ u, (reconcileAll user feed update cs).perform s = (.ok created, u)
      ∧ t = { u with jobs := u.jobs ++ [{ work := .sweep feed (cs.map (·.hash)) }] } := by
    rw [perform_refreshFeed] at h
    split at h
    · rename_i hrec
      cases h
      exact ⟨_, hrec, rfl⟩
    · cases h
  have hrec := reconciles_reconcileAll hs.integrity hrec
  refine ⟨hrec.mem_hashes, hrec.makes, ?_, fun hash => ?_, hrec.ascending,
    fun v hv r hr hl e he => ?_, ?_, hrec.attached, ?_⟩
  · rw [hrec.map_hash]
    exact List.pairwise_map.2 (Candidate.pairwise_hash_newcomers _ cs)
  · rw [hrec.map_hash]
    exact Candidate.mem_map_hash_newcomers
  · have hbound : e.id ≤ r.store.entries.lastId := hr.integrity.entries.bounded e he
    exact lt_of_le_of_lt (hbound.trans hl.counted.entries) (hrec.fresh v hv)
  · rintro rfl
    show u.store.entries.rows = _
    rw [hrec.rows]
    simp only [Entry.foldl_seen_false, List.map_id']
  · rintro rfl
    show List.Forall₂ _ _ u.store.entries.rows
    rw [hrec.rows, List.forall₂_map_right_iff]
    exact List.forall₂_same.2 fun e _ => Entry.updates_foldl_seen cs

/-- One batch that names a new hash twice and a stored one at another time. -/
theorem refreshFeed_reconciles_repeated_hash :
    ∃ s created t, Reachable s
      ∧ (refreshFeed 1 1 [.bare "b" 2, .bare "a" 3, .bare "b" 4] true).perform s = (.ok created, t)
      ∧ created.length = 1
      ∧ List.Forall₂ (Entry.Updates 1 [.bare "b" 2, .bare "a" 3, .bare "b" 4] s.now)
          (s.store.entries.rows ++ newRows 1 1 s.now
            (Candidate.newcomers (s.store.hashes 1)
              [.bare "b" 2, .bare "a" 3, .bare "b" 4]) created)
          t.store.entries.rows := by
  have hs : Reachable
      (Session.subscribed.run [.refreshFeed 1 1 [.bare "a" 1] false, .setClock 5]) :=
    Reachable.subscribed.run _
  exact ⟨_, _, _, hs, by rfl, by rfl, (refreshFeed_reconciles hs (by rfl)).2.2.2.2.2.2.2.2 rfl⟩

end Action

end FeedStore

import FeedStore.Proofs.Commuting
import FeedStore.Proofs.EnclosureReads

/-!
# What the answers to a user depend on

A question about the entries of a user is answered from these entries, the feed of each and the
category of that feed, and from the enclosures of what is shown. So in two stores that look alike to
the user (`Store.LooksAlike`), whatever else they hold, the answers are the same, error or not
(`Store.LooksAlike.answersAlike`). The engine's limits make no difference: they depend on the
question, and a pattern that is too long is only noticed at a row of the user.
-/

namespace FeedStore

/-! ## Finding rows -/

namespace Table

variable {α : Type} {t : Table α} {id : α → Id} {p q : α → Bool} {f : α → α}

/-- At most one row has an identifier, so whatever else is asked is asked of that row. -/
theorem Numbered.holds_and (h : t.Numbered id) (i : Id) (q : α → Bool) :
    (t.holds fun r => id r == i && q r) = (t.find? fun r => id r == i).any q := by
  rw [Bool.eq_iff_iff, holds_iff, Option.any_eq_true]
  constructor
  · rintro ⟨r, hr, hp⟩
    obtain ⟨hid, hq⟩ := Bool.and_eq_true_iff.1 hp
    exact ⟨r, h.find?_id hr (eq_of_beq hid), hq⟩
  · rintro ⟨r, hfind, hq⟩
    have hid := List.find?_some hfind
    exact ⟨r, List.mem_of_find?_eq_some hfind, Bool.and_eq_true_iff.2 ⟨hid, hq⟩⟩

/-- A row that does not change is found as before. -/
theorem find?_modify_of_not (hp : ∀ r ∈ t.rows, q r = true → p r = false)
    (hf : ∀ r, q (f r) = q r) : (t.modify p f).find? q = t.find? q := by
  have hq : (q ∘ fun r => if p r then f r else r) = q := by
    funext r
    show q (if p r then f r else r) = q r
    rw [apply_ite q, hf, ite_self]
  unfold find?
  rw [rows_modify, List.find?_map, hq]
  cases hfind : t.rows.find? q with
  | none => rfl
  | some r =>
      have hstays := hp r (List.mem_of_find?_eq_some hfind) (List.find?_some hfind)
      simp [hstays]

/-- A row that does not go is found as before. -/
theorem find?_erase_of_not (hp : ∀ r ∈ t.rows, q r = true → p r = false) :
    (t.erase p).find? q = t.find? q := by
  unfold find?
  rw [← List.head?_filter, ← List.head?_filter, rows_erase, List.filter_filter]
  refine congrArg List.head? (List.filter_congr fun r hr => ?_)
  cases hq : q r with
  | false => rfl
  | true => rw [hp r hr hq]; rfl

end Table

/-! ## Stores that look alike -/

namespace Store

/-- The user has the same entries in both stores, each of them in the same feed, which is in the
same category, and with the same enclosures. -/
structure LooksAlike (user : Id) (s t : Store) : Prop where
  entries : t.entries.rows.filter (·.userId == user) = s.entries.rows.filter (·.userId == user)
  feeds : ∀ e ∈ s.entries.rows, e.userId = user →
    t.feeds.find? (·.id == e.feedId) = s.feeds.find? (·.id == e.feedId)
  categories : ∀ e ∈ s.entries.rows, e.userId = user →
    ∀ f, s.feeds.find? (·.id == e.feedId) = some f →
      t.categories.find? (·.id == f.categoryId) = s.categories.find? (·.id == f.categoryId)
  attached : ∀ e ∈ s.entries.rows, e.userId = user → t.attached e.id = s.attached e.id

theorem filter_listed (s : Store) (user : Id) :
    s.listed.filter (·.entry.userId == user)
      = (s.entries.rows.filter (·.userId == user)).filterMap s.listed? := by
  unfold listed
  rw [List.filter_filterMap, List.filterMap_filter]
  refine List.filterMap_congr fun e _ => ?_
  cases hl : s.listed? e with
  | none => simp
  | some l => simp [(of_listed? hl).1, Option.filter_some]

/-- Setting a status changes nothing about which listed entries are shown. -/
theorem countShown_setStatus (s : Store) (user : Id) (ids : List Id) (status : Status)
    (now : Int) :
    (s.setStatus user ids status now).2.countShown user ids = s.countShown user ids := by
  have hrow : ∀ e : Entry, (s.setStatus user ids status now).2.countsShown user ids
      (if e.isListed user ids then e.withStatus status now else e)
        = s.countsShown user ids e := by
    intro e
    split
    · exact countsShown_congr rfl rfl rfl rfl rfl
    · exact countsShown_congr rfl rfl rfl rfl rfl
  rw [countShown_eq, countShown_eq]
  show (List.map _ s.entries.rows).countP _ = _
  rw [List.countP_map]
  exact congrArg (List.countP · s.entries.rows) (funext hrow)

namespace LooksAlike

variable {user : Id} {s t : Store} {e : Entry} {q : Query} {trail : Trail} {side : Side}
  {time : Int} {ids : List Id}

theorem listed?_eq (h : s.LooksAlike user t) (he : e ∈ s.entries.rows) (huser : e.userId = user) :
    t.listed? e = s.listed? e := by
  unfold listed?
  rw [h.feeds e he huser]
  cases hf : s.feeds.find? (·.id == e.feedId) with
  | none => rfl
  | some f =>
      dsimp only [Option.bind_eq_bind, Option.bind_some]
      rw [h.categories e he huser f hf]

theorem filter_listed_eq (h : s.LooksAlike user t) :
    t.listed.filter (·.entry.userId == user) = s.listed.filter (·.entry.userId == user) := by
  rw [filter_listed, filter_listed, h.entries]
  refine List.filterMap_congr fun e he => ?_
  obtain ⟨he, huser⟩ := List.mem_filter.1 he
  exact h.listed?_eq he (eq_of_beq huser)

/-! ### Questions -/

theorem found_eq (h : s.LooksAlike user t) (hq : q.user = user) : q.found t = q.found s := by
  obtain ⟨cs, hcs⟩ := q.inTestOrder_allConditions
  unfold Query.found
  dsimp only
  rw [hcs, Condition.select_user _ _ t.listed, Condition.select_user _ _ s.listed, hq,
    h.filter_listed_eq]

theorem page_eq (h : s.LooksAlike user t) (hq : q.user = user) : q.page t = q.page s := by
  unfold Query.page
  rw [h.found_eq hq]

theorem anchorTime?_eq (h : s.LooksAlike user t) (htrail : trail.user = user) :
    trail.anchorTime? t = trail.anchorTime? s := by
  have hfind : ∀ u : Store, (u.entries.find? fun e => e.id == trail.anchor && e.userId == user)
      = (u.entries.rows.filter (·.userId == user)).find? (·.id == trail.anchor) := by
    intro u
    rw [List.find?_filter]
    refine congrArg (fun p => u.entries.rows.find? p) (funext fun e => ?_)
    rw [Bool.eq_iff_iff]
    simp [and_comm]
  unfold Trail.anchorTime?
  rw [htrail, hfind, hfind, h.entries]

theorem neighbour?_eq (h : s.LooksAlike user t) (htrail : trail.user = user) :
    trail.neighbour? side time t = trail.neighbour? side time s := by
  obtain ⟨cs, hcs⟩ := trail.query.inTestOrder_allConditions
  have hquery : trail.query.user = user := htrail
  unfold Trail.neighbour? Trail.found
  dsimp only
  rw [hcs, hquery]
  cases trail.isIndexed with
  | true =>
      rw [if_pos rfl, if_pos rfl, Condition.select_user _ _ (t.listed.filter _),
        Condition.select_user _ _ (s.listed.filter _), List.filter_comm, h.filter_listed_eq,
        List.filter_comm]
  | false =>
      rw [if_neg Bool.false_ne_true, if_neg Bool.false_ne_true, Condition.select_user _ _ t.listed,
        Condition.select_user _ _ s.listed, h.filter_listed_eq]

/-! ### Global lists -/

/-- What only holds of entries of the user is counted alike. -/
theorem countP_eq (h : s.LooksAlike user t) {p q : Entry → Bool}
    (hp : ∀ e, p e = true → e.userId = user) (hq : ∀ e, q e = true → e.userId = user)
    (hpq : ∀ e ∈ s.entries.rows, e.userId = user → q e = p e) :
    t.entries.rows.countP q = s.entries.rows.countP p := by
  have hown : ∀ (r : Entry → Bool) (rows : List Entry), (∀ e, r e = true → e.userId = user) →
      rows.countP r = (rows.filter (·.userId == user)).countP r := by
    intro r rows hr
    rw [List.countP_filter]
    refine List.countP_congr fun e _ => ?_
    simpa using hr e
  rw [hown q _ hq, hown p _ hp, h.entries]
  refine List.countP_congr fun e he => ?_
  obtain ⟨he, huser⟩ := List.mem_filter.1 he
  rw [hpq e he (eq_of_beq huser)]

theorem shownGlobally_eq (h : s.LooksAlike user t) (hs : s.Integrity) (ht : t.Integrity)
    (he : e ∈ s.entries.rows) (huser : e.userId = user) {f : Feed}
    (hf : s.feeds.find? (·.id == e.feedId) = some f) : t.shownGlobally f = s.shownGlobally f := by
  unfold shownGlobally
  rw [hs.categories.holds_and, ht.categories.holds_and, h.categories e he huser f hf]

theorem isShownFeedOf_eq (h : s.LooksAlike user t) (hs : s.Integrity) (ht : t.Integrity)
    (he : e ∈ s.entries.rows) (huser : e.userId = user) :
    t.isShownFeedOf user e.feedId = s.isShownFeedOf user e.feedId := by
  unfold isShownFeedOf
  simp only [Bool.and_assoc]
  rw [hs.feeds.holds_and, ht.feeds.holds_and, h.feeds e he huser]
  cases hf : s.feeds.find? (·.id == e.feedId) with
  | none => rfl
  | some f => rw [Option.any_some, Option.any_some, h.shownGlobally_eq hs ht he huser hf]

theorem countShown_eq (h : s.LooksAlike user t) (hs : s.Integrity) (ht : t.Integrity) :
    t.countShown user ids = s.countShown user ids := by
  have hlisted : ∀ (u : Store) (e : Entry), u.countsShown user ids e = true → e.userId = user := by
    intro u e hshown
    by_contra hne
    have hnot : e.isListed user ids = false := by simp [Entry.isListed, hne]
    rw [countsShown_of_not_isListed hnot] at hshown
    cases hshown
  rw [Store.countShown_eq, Store.countShown_eq]
  refine h.countP_eq (hlisted s) (hlisted t) fun e he huser => ?_
  unfold countsShown
  rw [h.listed?_eq he huser]
  cases hl : s.listed? e with
  | none => rfl
  | some l =>
      have hfeed := (of_listed? hl).2.1
      simp [h.shownGlobally_eq hs ht he huser hfeed]

end LooksAlike

end Store

/-! ## Sessions that answer alike -/

namespace Action

variable {α β : Type} {s t : Session}

/-- The action answers the same in both sessions and changes neither. -/
def ReadsAlike (a : Action α) (s t : Session) : Prop :=
  ∃ r, a.perform s = (r, s) ∧ a.perform t = (r, t)

theorem readsAlike_pure (a : α) : (pure a : Action α).ReadsAlike s t := ⟨.ok a, rfl, rfl⟩

theorem ReadsAlike.bind {a : Action α} {k : α → Action β} (ha : a.ReadsAlike s t)
    (hk : ∀ x, (k x).ReadsAlike s t) : (a >>= k).ReadsAlike s t := by
  obtain ⟨r, hs, ht⟩ := ha
  unfold ReadsAlike
  rw [perform_bind, perform_bind, hs, ht]
  cases r with
  | error e => exact ⟨.error e, rfl, rfl⟩
  | ok x => exact hk x

theorem readsAlike_readWithin {extent : Extent} {context : String} {tables : List TableName}
    {f : Store → Except Fault α} (haccess : t.access = s.access) (hf : f t.store = f s.store) :
    (readWithin extent context tables f).ReadsAlike s t := by
  unfold ReadsAlike
  rw [perform_readWithin, perform_readWithin, Session.refusal?_congr haccess, hf]
  cases s.refusal? (.select tables) extent with
  | some fault => exact ⟨_, rfl, rfl⟩
  | none => exact ⟨_, rfl, rfl⟩

theorem ReadsAlike.transaction {a : Action α} (haccess : t.access = s.access)
    (ha : a.ReadsAlike s t) (purpose : Purpose) :
    (Action.transaction purpose a).ReadsAlike s t := by
  obtain ⟨r, hs, ht⟩ := ha
  unfold ReadsAlike
  rw [perform_transaction, perform_transaction, haccess, hs, ht]
  cases s.access.isOpen with
  | false => exact ⟨_, rfl, rfl⟩
  | true =>
      cases r with
      | error e => exact ⟨.error e, rfl, rfl⟩
      | ok x => exact ⟨.ok x, rfl, rfl⟩

end Action

open FeedStore.Action in
/-- Whatever is asked about the entries of the user, also about those on global lists, is answered
alike. -/
structure Session.AnswersAlike (user : Id) (s t : Session) : Prop where
  count : ∀ q : Query, q.user = user → (countEntries q).ReadsAlike s t
  ids : ∀ q : Query, q.user = user → (entryIds q).ReadsAlike s t
  entries : ∀ q : Query, q.user = user → (entries q).ReadsAlike s t
  first : ∀ q : Query, q.user = user → (firstEntry q).ReadsAlike s t
  neighbours : ∀ trail : Trail, trail.user = user → (neighbours trail).ReadsAlike s t
  unread : (countUnread user).ReadsAlike s t
  /-- The number of entries on global lists among those whose status has just been set. -/
  setStatusCount : ∀ ids status,
    ((setStatusCount user ids status).perform t).1 = ((setStatusCount user ids status).perform s).1
  /-- The number of entries on global lists that have just been marked as read. -/
  markShown : ((markShown user).perform t).1 = ((markShown user).perform s).1

namespace Store.LooksAlike

open FeedStore.Action

variable {user : Id} {s t : Session} {q : Query}

theorem readsAlike_countEntries (h : s.store.LooksAlike user t.store) (hr : s.Ready)
    (ht : t.Ready) (hq : q.user = user) : (countEntries q).ReadsAlike s t :=
  readsAlike_readWithin (ht.trans hr.symm) (by rw [h.found_eq hq])

theorem readsAlike_listedRows (h : s.store.LooksAlike user t.store) (hr : s.Ready) (ht : t.Ready)
    (hq : q.user = user) : (listedRows q).ReadsAlike s t :=
  readsAlike_readWithin (ht.trans hr.symm) (h.page_eq hq)

/-- A row of the user is shown in the same way. -/
theorem shownAs_iff (h : s.store.LooksAlike user t.store) {l : Listed} {v : EntryView}
    (hl : l ∈ s.store.listed) (huser : l.entry.userId = user) :
    l.ShownAs t.store v ↔ l.ShownAs s.store v := by
  unfold Listed.ShownAs
  rw [h.attached l.entry (of_mem_listed hl).1 huser]

theorem readsAlike_entries (h : s.store.LooksAlike user t.store) (hs : Reachable s)
    (ht : Reachable t) (hq : q.user = user) : (Action.entries q).ReadsAlike s t := by
  obtain ⟨r, hrs, hrt⟩ := h.readsAlike_listedRows hs.ready ht.ready hq
  rcases perform_entries_or hs q with ⟨e, hrows, hentries⟩ | ⟨ls, vs, hrows, hls, hentries, hshown⟩
  · obtain rfl : r = .error e := congrArg Prod.fst (hrs.symm.trans hrows)
    rcases perform_entries_or ht q with ⟨e', hrows', hentries'⟩ | ⟨ls, vs, hrows', -⟩
    · cases hrt.symm.trans hrows'
      exact ⟨.error e, hentries, hentries'⟩
    · cases hrt.symm.trans hrows'
  · obtain rfl : r = .ok ls := congrArg Prod.fst (hrs.symm.trans hrows)
    rcases perform_entries_or ht q with ⟨e', hrows', -⟩ | ⟨ls', vs', hrows', -, hentries', hshown'⟩
    · cases hrt.symm.trans hrows'
    · cases hrt.symm.trans hrows'
      have hshown' : List.Forall₂ (Listed.ShownAs s.store) ls vs' := by
        refine ((List.forall₂_and_left _ _).2 ⟨hls, hshown'⟩).imp ?_
        rintro l v ⟨⟨hl, huser⟩, hlv⟩
        exact (h.shownAs_iff hl (huser.trans hq)).1 hlv
      obtain rfl := List.right_unique_forall₂' (fun _ _ _ hv hw => hv.unique hw) hshown hshown'
      exact ⟨.ok vs, hentries, hentries'⟩

theorem readsAlike_neighbours (h : s.store.LooksAlike user t.store) (hr : s.Ready) (ht : t.Ready)
    {trail : Trail} (htrail : trail.user = user) : (Action.neighbours trail).ReadsAlike s t := by
  have haccess : t.access = s.access := ht.trans hr.symm
  have hside : ∀ side time, (neighbour trail side time).ReadsAlike s t :=
    fun side time => readsAlike_readWithin haccess (h.neighbour?_eq htrail)
  have hboth : (ascendingNeighbours trail).ReadsAlike s t := by
    unfold ascendingNeighbours
    refine ReadsAlike.bind (readsAlike_readWithin haccess ?_) fun time => ?_
    · rw [h.anchorTime?_eq htrail]
    · cases time with
      | none => exact readsAlike_pure _
      | some time =>
          exact (hside _ time).bind fun _ => (hside _ time).bind fun _ => readsAlike_pure _
  unfold Action.neighbours
  refine (hboth.transaction haccess .pagination).bind fun pair => ?_
  obtain ⟨before, after⟩ := pair
  dsimp only
  cases trail.direction with
  | ascending => exact readsAlike_pure _
  | descending => exact readsAlike_pure _

theorem setStatusCount_eq (h : s.store.LooksAlike user t.store) (hs : Reachable s)
    (ht : Reachable t) (ids : List Id) (status : Status) :
    ((Action.setStatusCount user ids status).perform t).1
      = ((Action.setStatusCount user ids status).perform s).1 := by
  have haccess : t.access = s.access := ht.ready.trans hs.ready.symm
  have hrefusal := Session.refusal?_congr haccess (.update .entries []) { values := ids.length + 3 }
  unfold Action.setStatusCount Action.setStatus
  split
  · rfl
  · rw [perform_bind, perform_bind, perform_bind, perform_bind, perform_now, perform_now]
    dsimp only
    rw [perform_bind, perform_bind, perform_writeWithin, perform_writeWithin, hrefusal]
    cases s.refusal? (.update .entries []) { values := ids.length + 3 } with
    | some fault => rfl
    | none =>
        dsimp only
        rw [perform_pure, perform_pure]
        have hcount : (t.store.setStatus user ids status t.now).2.countShown user ids
            = (s.store.setStatus user ids status s.now).2.countShown user ids := by
          rw [countShown_setStatus, countShown_setStatus,
            h.countShown_eq hs.integrity ht.integrity]
        obtain ⟨r, hrs, hrt⟩ := readsAlike_readWithin
          (s := { s with store := (s.store.setStatus user ids status s.now).2 })
          (t := { t with store := (t.store.setStatus user ids status t.now).2 })
          (f := fun u => .ok (u.countShown user ids)) haccess (congrArg Except.ok hcount)
        dsimp only
        rw [hrs, hrt]

theorem markShown_eq (h : s.store.LooksAlike user t.store) (hs : Reachable s) (ht : Reachable t) :
    ((Action.markShown user).perform t).1 = ((Action.markShown user).perform s).1 := by
  have hcount : ∀ {u : Session}, u.Ready → ((Action.markShown user).perform u).1
      = .ok (u.store.entries.rows.countP fun e =>
          e.isUnreadOf user && u.store.isShownFeedOf user e.feedId) := by
    intro u hu
    unfold Action.markShown Action.markRead
    rw [perform_bind, perform_now]
    dsimp only
    rw [perform_change_of_ready hu]
    rfl
  have hown : ∀ (u : Store) (e : Entry),
      (e.isUnreadOf user && u.isShownFeedOf user e.feedId) = true → e.userId = user := by
    intro u e hp
    exact eq_of_beq (Bool.and_eq_true_iff.1 (Bool.and_eq_true_iff.1 hp).1).1
  rw [hcount ht.ready, hcount hs.ready]
  refine congrArg Except.ok (h.countP_eq (hown _) (hown _) fun e he huser => ?_)
  rw [h.isShownFeedOf_eq hs.integrity ht.integrity he huser]

/-- To a user to whom two stores look alike they answer alike. -/
theorem answersAlike (h : s.store.LooksAlike user t.store) (hs : Reachable s) (ht : Reachable t) :
    s.AnswersAlike user t where
  count q hq := h.readsAlike_countEntries hs.ready ht.ready hq
  ids q hq := readsAlike_readWithin (ht.ready.trans hs.ready.symm) (by rw [h.page_eq hq])
  entries q hq := h.readsAlike_entries hs ht hq
  first q hq := (h.readsAlike_entries (q := { q with limit := some 1 }) hs ht hq).bind fun _ =>
    readsAlike_pure _
  neighbours trail htrail := h.readsAlike_neighbours hs.ready ht.ready htrail
  unread := h.readsAlike_countEntries hs.ready ht.ready rfl
  setStatusCount ids status := h.setStatusCount_eq hs ht ids status
  markShown := h.markShown_eq hs ht

end Store.LooksAlike

end FeedStore

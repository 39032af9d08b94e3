import FeedStore.Proofs.Marking

/-!
# Numbers of all entries and the users' listings

The numbers of all entries are read off one table, while a query joins an entry with its feed and
the category of that. In a store that is in order both see the same: every entry has a user who is
there and is joined with a feed and a category, so the listings of the users, one behind the other,
make up the entries, each once (`Store.perm_flatMap_sorted`). What holds of the numbers follows by
taking lengths (`Reachable.adds_up`).
-/

namespace FeedStore

/-- The number for one status. -/
def EntryCounts.number (counts : EntryCounts) : Status → Nat
  | .unread => counts.unread
  | .read => counts.read
  | .removed => counts.removed

namespace Store

variable {s : Store} {user : Id} {as : List Addition} {p : Entry → Bool}

theorem mem_ids_sorted (hs : s.Integrity) {id : Id} :
    id ∈ ((Query.built user as).sorted s).map (·.entry.id)
      ↔ ∃ e ∈ s.entries.rows, e.id = id ∧ Query.Asks user as s e := by
  have hdenotes := Query.denotes_sorted hs user as
  rw [List.mem_map]
  constructor
  · rintro ⟨l, hl, rfl⟩
    obtain ⟨he, hasks⟩ := (hdenotes.mem_iff l.entry).1 ⟨l, hl, rfl⟩
    exact ⟨l.entry, he, rfl, hasks⟩
  · rintro ⟨e, he, rfl, hasks⟩
    obtain ⟨l, hl, rfl⟩ := (hdenotes.mem_iff e).2 ⟨he, hasks⟩
    exact ⟨l, hl, rfl⟩

/-- No entry is on the listings of two users. -/
theorem disjoint_ids_sorted (hs : s.Integrity) {other : Id} (hne : user ≠ other) :
    (((Query.built user as).sorted s).map (·.entry.id)).Disjoint
      (((Query.built other as).sorted s).map (·.entry.id)) := by
  rw [List.disjoint_left]
  intro id hmine hother
  obtain ⟨e, he, rfl, huser, -⟩ := (mem_ids_sorted hs).1 hmine
  obtain ⟨e', he', hid, huser', -⟩ := (mem_ids_sorted hs).1 hother
  obtain rfl : e' = e := hs.entries.distinct.eq_of_eq he' he hid
  exact hne (huser.symm.trans huser')

/-- The listings of all users, one behind the other, hold every entry that is asked for once. -/
theorem perm_flatMap_sorted (hs : s.Integrity)
    (hp : ∀ e ∈ s.entries.rows, p e = true ↔ ∀ a ∈ as, a.Admits s e) :
    (s.users.rows.flatMap fun u => ((Query.built u.id as).sorted s).map (·.entry.id)).Perm
      (s.entryIds p) := by
  have hlistings : (s.users.rows.flatMap fun u =>
      ((Query.built u.id as).sorted s).map (·.entry.id)).Nodup := by
    refine List.nodup_flatMap.2 ⟨fun u _ => Query.nodup_id_sorted _ hs, ?_⟩
    exact hs.users.distinct.imp fun hne => disjoint_ids_sorted hs hne
  have hids : (s.entryIds p).Nodup :=
    List.pairwise_map.2 (hs.entries.distinct.filter _)
  rw [List.perm_ext_iff_of_nodup hlistings hids]
  intro id
  rw [List.mem_flatMap, mem_entryIds]
  constructor
  · rintro ⟨u, -, hid⟩
    obtain ⟨e, he, rfl, -, hadmits⟩ := (mem_ids_sorted hs).1 hid
    exact ⟨e, he, (hp e he).2 hadmits, rfl⟩
  · rintro ⟨e, he, hpe, rfl⟩
    obtain ⟨u, hu, huser⟩ := Table.holds_id_iff.1 (hs.entryUser e he)
    exact ⟨u, hu, (mem_ids_sorted hs).2 ⟨e, he, rfl, huser.symm, (hp e he).1 hpe⟩⟩

/-- So the lengths of the listings add up to the number of entries that are asked for. -/
theorem count_eq_sum_sorted (hs : s.Integrity)
    (hp : ∀ e ∈ s.entries.rows, p e = true ↔ ∀ a ∈ as, a.Admits s e) :
    s.entries.count p
      = (s.users.rows.map fun u => ((Query.built u.id as).sorted s).length).sum := by
  have hlength := (perm_flatMap_sorted hs hp).length_eq
  rw [List.length_flatMap, entryIds, List.length_map, Table.select,
    ← List.countP_eq_length_filter] at hlength
  rw [Table.count, ← hlength]
  simp only [List.length_map]

/-- Where every entry is readable, no status gets in the way of counting. -/
theorem entryCounts_eq (hs : s.Readable) :
    s.entryCounts = .ok {
      unread := s.entries.count (Entry.hasStatus .unread)
      read := s.entries.count (Entry.hasStatus .read)
      removed := s.entries.count (Entry.hasStatus .removed)
      total := s.entries.rows.length } := by
  have hstray : s.strayStatuses = [] := by
    refine List.filterMap_eq_nil_iff.2 fun e he => ?_
    obtain ⟨status, -, hstatus, -⟩ := hs e he
    rw [hstatus]
  unfold entryCounts
  rw [hstray, List.mergeSort_nil, List.head?_nil]

/-- Every readable entry has one of the three statuses. -/
theorem length_eq_countP_statuses {es : List Entry} (h : ∀ e ∈ es, e.Readable) :
    es.length = es.countP (Entry.hasStatus .unread) + es.countP (Entry.hasStatus .read)
      + es.countP (Entry.hasStatus .removed) := by
  induction es with
  | nil => rfl
  | cons e es ih =>
      rw [List.forall_mem_cons] at h
      obtain ⟨⟨status, -, hstatus, -⟩, hes⟩ := h
      have ih := ih hes
      simp only [List.countP_cons, List.length_cons, Entry.hasStatus, hstatus, beq_iff_eq,
        StoredStatus.known.injEq] at ih ⊢
      cases status with
      | unread =>
          simp only [if_true, reduceCtorEq, if_false]
          omega
      | read =>
          simp only [if_true, reduceCtorEq, if_false]
          omega
      | removed =>
          simp only [if_true, reduceCtorEq, if_false]
          omega

end Store

/-- How the numbers of all entries come about: `ids` are the entries that the query of each user
lists, and `number` says how many of them have a status. -/
structure Session.AddsUp (s : Session) (counts : EntryCounts) (ids : Id → List Id)
    (number : Status → Id → Nat) : Prop where
  counted : Action.countAll.perform s = (.ok counts, s)
  byStatus : counts.total = counts.unread + counts.read + counts.removed
  stored : counts.total = s.store.entries.rows.length
  lists : ∀ user, (Action.entryIds { user }).perform s = (.ok (ids user), s)
  counting : ∀ user, (Action.countEntries { user }).perform s = (.ok (ids user).length, s)
  total : counts.total = (s.store.users.rows.map fun u => (ids u.id).length).sum
  disjoint : ∀ user other, user ≠ other → (ids user).Disjoint (ids other)
  union : ∀ id, (∃ u ∈ s.store.users.rows, id ∈ ids u.id)
    ↔ ∃ e ∈ s.store.entries.rows, e.id = id
  countingStatus : ∀ status user,
    (Action.countEntries (({ user } : Query).withStatus status)).perform s
      = (.ok (number status user), s)
  totals : ∀ status,
    counts.number status = (s.store.users.rows.map fun u => number status u.id).sum

namespace Action

theorem perform_countAll {s : Session} (hs : s.Ready) {counts : EntryCounts}
    (h : s.store.entryCounts = .ok counts) : countAll.perform s = (.ok counts, s) := by
  unfold countAll
  rw [perform_bind, perform_read_of_ready hs, h]
  rfl

end Action

/-- In a reachable session every entry is on the listing of exactly one user, so the numbers of all
entries are what the users' queries count together, as a whole and status by status. -/
theorem Reachable.adds_up {s : Session} (hs : Reachable s) :
    ∃ counts ids number, s.AddsUp counts ids number := by
  have hint := hs.integrity
  have hall : ∀ user, (Query.built user []).WithinLimits :=
    fun user => ⟨Query.conditionsFit_of_isPlain rfl rfl (Nat.zero_le _), Nat.zero_le _⟩
  have hone : ∀ user status, (Query.built user [.filter (.status status)]).ConditionsFit :=
    fun user status => Query.conditionsFit_of_isPlain
      (show (Query.built user [.filter (.status status)]).conditions = [.status status] from rfl)
      rfl (Nat.le_of_ble_eq_true rfl)
  have htotal : s.store.entries.rows.length
      = (s.store.users.rows.map fun u => ((Query.built u.id []).sorted s.store).length).sum := by
    rw [← Store.count_eq_sum_sorted hint (p := fun _ => true) (by simp), Table.count,
      List.countP_true]
  have hstatus : ∀ status, s.store.entries.count (Entry.hasStatus status)
      = (s.store.users.rows.map fun u =>
          ((Query.built u.id [.filter (.status status)]).sorted s.store).length).sum := by
    intro status
    refine Store.count_eq_sum_sorted hint fun e _ => ?_
    simp [Addition.Admits, Filter.Admits, Entry.hasStatus]
  refine ⟨_, fun user => ((Query.built user []).sorted s.store).map (·.entry.id),
    fun status user => ((Query.built user [.filter (.status status)]).sorted s.store).length, {
    counted := Action.perform_countAll hs.ready (Store.entryCounts_eq hs.readable)
    byStatus := Store.length_eq_countP_statuses hs.readable
    stored := rfl
    lists := fun user => ?_
    counting := fun user => ?_
    total := ?_
    disjoint := fun user other hne => Store.disjoint_ids_sorted hint hne
    union := fun id => ?_
    countingStatus := fun status user => Action.perform_countEntries hs.ready (hone user status)
    totals := fun status => ?_ }⟩
  · exact Action.perform_entryIds hs.ready (hall user)
  · rw [List.length_map]
    exact Action.perform_countEntries hs.ready (hall user).toConditionsFit
  · simpa only [List.length_map] using htotal
  · constructor
    · rintro ⟨u, -, hid⟩
      obtain ⟨e, he, hid, -⟩ := (Store.mem_ids_sorted hint).1 hid
      exact ⟨e, he, hid⟩
    · rintro ⟨e, he, rfl⟩
      obtain ⟨u, hu, huser⟩ := Table.holds_id_iff.1 (hint.entryUser e he)
      exact ⟨u, hu, (Store.mem_ids_sorted hint).2 ⟨e, he, rfl, huser.symm, by simp⟩⟩
  · cases status with
    | unread => exact hstatus .unread
    | read => exact hstatus .read
    | removed => exact hstatus .removed

/-- Two users with two entries and one. -/
theorem Reachable.adds_up_of_two :
    ∃ s counts ids number, Reachable s ∧ s.AddsUp counts ids number
      ∧ counts.total = 3 ∧ (ids 1).length = 2 ∧ (ids 2).length = 1 := by
  let s := Session.subscribed.run
    [.createUser "bob", .createCategory 2 "news" false, .createFeed 2 (.bare 2 "b"),
      .refreshFeed 1 1 [.bare "a" 1] false, .refreshFeed 2 2 [.bare "a" 1] false,
      .refreshFeed 1 1 [.bare "b" 2] false]
  have hs : Reachable s := Reachable.subscribed.run _
  obtain ⟨counts, ids, number, hadds⟩ := hs.adds_up
  have hstored : s.store.entries.rows.length = 3 := by decide +kernel
  have hann : ((Action.countEntries { user := 1 }).perform s).1 = .ok 2 := by decide +kernel
  have hbob : ((Action.countEntries { user := 2 }).perform s).1 = .ok 1 := by decide +kernel
  rw [hadds.counting] at hann hbob
  exact ⟨s, counts, ids, number, hs, hadds, hadds.stored.trans hstored, Except.ok.inj hann,
    Except.ok.inj hbob⟩

end FeedStore

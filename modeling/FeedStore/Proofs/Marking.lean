import FeedStore.Proofs.Denotation
import FeedStore.Proofs.StatusMoves
import FeedStore.Proofs.Tenants

/-!
# Marking as read and the unread lists

What a reader marks as read is what a query for the unread entries of the same scope lists: as
many as it counts, each of them and no other entry, and afterwards it counts none
(`Action.MarksAsked`). The statement that marks says on its own account which rows it reaches
(`Action.marksAsked_markRead`). For a category it looks for a feed of the user, where the query
joins an entry with whatever feed it is in, so the two agree as long as the entries of the user
lie in feeds of the user (`Reachable.marks_unread`).
-/

namespace FeedStore

/-! ## What a chain asks for -/

/-- Of a store, an addition looks at feeds and categories only. -/
theorem Addition.admits_congr {s t : Store} (hfeeds : t.feeds = s.feeds)
    (hcategories : t.categories = s.categories) (a : Addition) (e : Entry) :
    a.Admits t e ↔ a.Admits s e := by
  cases a with
  | filter f => cases f <;> simp only [Admits, Filter.Admits, hfeeds, hcategories]
  | _ => exact Iff.rfl

namespace Query

variable {user : Id} {as : List Addition} {s : Store} {ls : List Listed}

/-- The chain of additions asks for the entry. -/
def Asks (user : Id) (as : List Addition) (s : Store) (e : Entry) : Prop :=
  e.userId = user ∧ ∀ a ∈ as, a.Admits s e

/-- As many rows are listed as entries are asked for. -/
theorem Denotes.length_eq (h : Denotes user as s ls) (hs : s.Integrity) {p : Entry → Bool}
    (hp : ∀ e ∈ s.entries.rows, p e = true ↔ Asks user as s e) :
    ls.length = s.entries.count p := by
  have hnodup : (s.entryIds p).Nodup :=
    List.pairwise_map.2 ((hs.entries.ascending.filter _).imp fun hlt => ne_of_lt hlt)
  have hids : (ls.map (·.entry.id)).Perm (s.entryIds p) := by
    rw [List.perm_ext_iff_of_nodup h.once hnodup]
    intro i
    rw [List.mem_map, Store.mem_entryIds]
    constructor
    · rintro ⟨l, hl, rfl⟩
      obtain ⟨he, hasks⟩ := (h.mem_iff l.entry).1 ⟨l, hl, rfl⟩
      exact ⟨l.entry, he, (hp l.entry he).2 hasks, rfl⟩
    · rintro ⟨e, he, hpe, rfl⟩
      obtain ⟨l, hl, rfl⟩ := (h.mem_iff e).2 ⟨he, (hp e he).1 hpe⟩
      exact ⟨l, hl, rfl⟩
  have hlength := hids.length_eq
  rwa [List.length_map, Store.entryIds, List.length_map, Table.select,
    ← List.countP_eq_length_filter] at hlength

end Query

/-! ## Marking what a chain asks for -/

/-- The rows that a chain of additions asks for have been marked as read, and nothing else has
changed: the chain counted `n` of them before and counts none any more. -/
structure Session.MarkedAs (s : Session) (user : Id) (as : List Addition) (n : Nat) (t : Session) :
    Prop where
  before : (Action.countEntries (Query.built user as)).perform s = (.ok n, s)
  after : (Action.countEntries (Query.built user as)).perform t = (.ok 0, t)
  rows : List.Forall₂
    (fun e e' =>
      Query.Asks user as s.store e ∧ e' = { e with status := .known .read, changedAt := s.now }
        ∨ ¬ Query.Asks user as s.store e ∧ e' = e)
    s.store.entries.rows t.store.entries.rows
  rest : t = { s with store := { s.store with
    entries := { s.store.entries with rows := t.store.entries.rows } } }

/-- The session after the entries that satisfy `p` have been given the status. -/
def Session.moving (s : Session) (status : Status) (p : Entry → Bool) : Session :=
  { s with store := { s.store with
    entries := s.store.entries.modify p (Entry.withStatus status s.now) } }

/-- The rows that are meant are given the status, and no others. -/
theorem Session.forall₂_moving {s : Session} {status : Status} {p : Entry → Bool}
    {P : Entry → Prop} (hp : ∀ e ∈ s.store.entries.rows, p e = true ↔ P e) :
    List.Forall₂
      (fun e e' => P e ∧ e' = { e with status := .known status, changedAt := s.now }
        ∨ ¬ P e ∧ e' = e)
      s.store.entries.rows (s.moving status p).store.entries.rows := by
  refine List.forall₂_map_right_iff.2 (List.forall₂_same.2 fun e he => ?_)
  cases hpe : p e with
  | true => exact Or.inl ⟨(hp e he).1 hpe, rfl⟩
  | false =>
      have hnot : ¬ P e := fun h => Bool.false_ne_true (hpe.symm.trans ((hp e he).2 h))
      exact Or.inr ⟨hnot, rfl⟩

namespace Action

variable {s : Session} {user : Id} {as : List Addition}

theorem perform_markRead {context : String} {consulted : List TableName}
    {p : Store → Entry → Bool} (hr : s.Ready) :
    (markRead context consulted user p).perform s
      = (.ok (s.store.entries.count fun e => e.isUnreadOf user && p s.store e),
        s.moving .read fun e => e.isUnreadOf user && p s.store e) := by
  unfold markRead
  rw [perform_bind, perform_now]
  exact perform_change_of_ready hr

/-- The action marks as read what a chain of additions asks for, and answers with their number. -/
def MarksAsked (a : Action Nat) (user : Id) (as : List Addition) (s : Session) : Prop :=
  ∃ n t, a.perform s = (.ok n, t) ∧ s.MarkedAs user as n t

/-- Marking reaches the rows that a chain asks for if the chain asks for unread entries and the
statement's own condition comes to the same. -/
theorem marksAsked_markRead {context : String} {consulted : List TableName}
    {p : Store → Entry → Bool} (hs : Reachable s) (hq : (Query.built user as).ConditionsFit)
    (hunread : .filter (.status .unread) ∈ as)
    (hp : ∀ e ∈ s.store.entries.rows,
      (e.isUnreadOf user && p s.store e) = true ↔ Query.Asks user as s.store e) :
    (markRead context consulted user p).MarksAsked user as s := by
  let q := fun e : Entry => e.isUnreadOf user && p s.store e
  let t : Session := s.moving .read q
  have hint : t.store.Integrity := hs.integrity.modifyKept q fun _ => ⟨rfl, rfl, rfl, rfl, rfl⟩
  -- what has been marked is not unread, and the others were not asked for before either
  have hnone : ∀ e ∈ t.store.entries.rows, false = true ↔ Query.Asks user as t.store e := by
    intro e he
    refine ⟨fun hfalse => absurd hfalse Bool.false_ne_true, fun hasks => ?_⟩
    obtain ⟨e', he', rfl⟩ := Table.mem_rows_modify.1 he
    cases hqe : q e' with
    | true =>
        rw [hqe] at hasks
        have hstatus : StoredStatus.known .read = .known .unread := hasks.2 _ hunread
        cases hstatus
    | false =>
        rw [hqe] at hasks
        have hasked : Query.Asks user as s.store e' :=
          ⟨hasks.1, fun a ha => (a.admits_congr rfl rfl e').1 (hasks.2 a ha)⟩
        exact hqe.symm.trans ((hp e' he').2 hasked)
  refine ⟨_, t, perform_markRead hs.ready, ?_, ?_, s.forall₂_moving hp, rfl⟩
  · rw [perform_countEntries hs.ready hq,
      (Query.denotes_sorted hs.integrity user as).length_eq hs.integrity hp]
  · have hready : t.Ready := hs.ready
    rw [perform_countEntries hready hq, (Query.denotes_sorted hint user as).length_eq hint hnone]
    have hzero : t.store.entries.count (fun _ => false) = 0 :=
      List.countP_eq_zero.2 fun _ _ => Bool.false_ne_true
    rw [hzero]

/-! ### The scopes -/

theorem isUnreadOf_iff {e : Entry} :
    e.isUnreadOf user = true ↔ e.userId = user ∧ e.status = .known .unread := by
  simp [Entry.isUnreadOf, Entry.hasStatus]

theorem marksAsked_markAll (hs : Reachable s) (user : Id) :
    (markAll user).MarksAsked user [.filter (.status .unread)] s := by
  have hcs : (Query.built user [.filter (.status .unread)]).conditions = [.status .unread] := rfl
  refine marksAsked_markRead hs (Query.conditionsFit_of_isPlain hcs rfl (by simp))
    List.mem_cons_self fun e _ => ?_
  simp [isUnreadOf_iff, Query.Asks, Addition.Admits, Filter.Admits]

theorem marksAsked_markAllBefore (hs : Reachable s) (user : Id) (time : Int) :
    (markAllBefore user time).MarksAsked user
      [.filter (.status .unread), .publishedBefore time] s := by
  have hcs : (Query.built user [.filter (.status .unread), .publishedBefore time]).conditions
      = [.status .unread, .publishedBefore time] := rfl
  refine marksAsked_markRead hs (Query.conditionsFit_of_isPlain hcs rfl (by simp))
    List.mem_cons_self fun e _ => ?_
  simp [isUnreadOf_iff, Query.Asks, Addition.Admits, Filter.Admits, and_assoc]

theorem marksAsked_markFeed (hs : Reachable s) (user : Id) {feed : Id} (hfeed : 0 < feed)
    (time : Int) : (markFeed user feed time).MarksAsked user
      [.filter (.status .unread), .filter (.feed feed), .publishedBefore time] s := by
  have hcs : (Query.built user [.filter (.status .unread), .filter (.feed feed),
      .publishedBefore time]).conditions
        = [.status .unread, .feed feed, .publishedBefore time] := by
    simp [Query.built_eq, Addition.conditions, Filter.conditions, Int.not_le.2 hfeed]
  refine marksAsked_markRead hs (Query.conditionsFit_of_isPlain hcs rfl (by simp))
    List.mem_cons_self fun e _ => ?_
  simp [isUnreadOf_iff, Query.Asks, Addition.Admits, Filter.Admits, hfeed, and_assoc]

/-- For a user whose entries lie in feeds of the user, the feeds of the user in a category hold what
the user has in the category. -/
theorem marksAsked_markCategory (hs : Reachable s)
    (hown : ∀ e ∈ s.store.entries.rows, e.userId = user → s.store.HasFeedOf user e.feedId)
    {category : Id} (hcategory : 0 < category) (time : Int) :
    (markCategory user category time).MarksAsked user
      [.filter (.status .unread), .filter (.category category), .publishedBefore time] s := by
  have hcs : (Query.built user [.filter (.status .unread), .filter (.category category),
      .publishedBefore time]).conditions
        = [.status .unread, .category category, .publishedBefore time] := by
    simp [Query.built_eq, Addition.conditions, Filter.conditions, Int.not_le.2 hcategory]
  refine marksAsked_markRead hs (Query.conditionsFit_of_isPlain hcs rfl (by simp))
    List.mem_cons_self fun e he => ?_
  have hfeeds : e.userId = user → (s.store.isFeedIn user category e.feedId = true
      ↔ ∃ f ∈ s.store.feeds.rows, f.id = e.feedId ∧ f.categoryId = category) := by
    intro huser
    rw [Store.isFeedIn_iff]
    constructor
    · rintro ⟨f, hf, hid, -, hin⟩
      exact ⟨f, hf, hid, hin⟩
    · rintro ⟨f, hf, hid, hin⟩
      have howner := Store.HasFeedOf.userId_eq hs.integrity (hid ▸ hown e he huser) hf
      exact ⟨f, hf, hid, howner, hin⟩
  have hasks : Query.Asks user
        [.filter (.status .unread), .filter (.category category), .publishedBefore time] s.store e
      ↔ (e.userId = user ∧ e.status = .known .unread)
        ∧ (∃ f ∈ s.store.feeds.rows, f.id = e.feedId ∧ f.categoryId = category)
        ∧ e.publishedAt < time := by
    simp [Query.Asks, Addition.Admits, Filter.Admits, hcategory, and_assoc]
  rw [hasks, Bool.and_eq_true, isUnreadOf_iff, Bool.and_comm, Bool.and_eq_true, decide_eq_true_eq]
  exact and_congr_right fun hunread => and_congr_left fun _ => hfeeds hunread.1

end Action

open FeedStore.Action in
/-- Marking as read agrees with the unread lists: for everything, for what was published before a
moment, and for what of that is in a feed. For what is in a category it does if the entries of the
user lie in feeds of the user. -/
theorem Reachable.marks_unread {s : Session} (hs : Reachable s) (user : Id) :
    (markAll user).MarksAsked user [.filter (.status .unread)] s
      ∧ (∀ time, (markAllBefore user time).MarksAsked user
          [.filter (.status .unread), .publishedBefore time] s)
      ∧ (∀ feed time, 0 < feed → (markFeed user feed time).MarksAsked user
          [.filter (.status .unread), .filter (.feed feed), .publishedBefore time] s)
      ∧ ((∀ e ∈ s.store.entries.rows, e.userId = user → s.store.HasFeedOf user e.feedId) →
          ∀ category time, 0 < category → (markCategory user category time).MarksAsked user
            [.filter (.status .unread), .filter (.category category), .publishedBefore time] s) :=
  ⟨marksAsked_markAll hs user, marksAsked_markAllBefore hs user,
    fun _ time hfeed => marksAsked_markFeed hs user hfeed time,
    fun hown _ time hcategory => marksAsked_markCategory hs hown hcategory time⟩

/-- Of three entries one has been read and one was published too late. -/
theorem Reachable.marks_unread_in_category :
    ∃ s t, Reachable s ∧ (Action.markCategory 1 1 25).perform s = (.ok 1, t)
      ∧ s.MarkedAs 1
          [.filter (.status .unread), .filter (.category 1), .publishedBefore 25] 1 t := by
  let s := Session.subscribed.run
    [.refreshFeed 1 1 [.bare "a" 10, .bare "b" 20, .bare "c" 30] false, .setStatus 1 [2] .read]
  have hs : Reachable s := Reachable.subscribed.run _
  have hown : ∀ e ∈ s.store.entries.rows, e.userId = 1 → s.store.HasFeedOf 1 e.feedId := by
    unfold Store.HasFeedOf
    decide +kernel
  have hanswer : ((Action.markCategory 1 1 25).perform s).1 = .ok 1 := by decide +kernel
  obtain ⟨-, -, -, hcategory⟩ := hs.marks_unread 1
  obtain ⟨n, t, hperform, hmarked⟩ := hcategory hown 1 25 (by decide)
  rw [hperform] at hanswer
  obtain rfl : n = 1 := Except.ok.inj hanswer
  exact ⟨s, t, hs, hperform, hmarked⟩

end FeedStore

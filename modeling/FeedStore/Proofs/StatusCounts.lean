import FeedStore.Proofs.Answers
import FeedStore.Proofs.Marking
import FeedStore.Proofs.Refusals

/-!
# Setting a status and counting what is shown

Setting a status with the count takes two statements, and only the first one can be refused: the
second one binds fewer values and takes no lock, so it goes through whenever the first one has
(`Action.FailsOnlyUnchanged`). What is counted are the listed entries of the user that are shown on
global lists, each once however often it is listed, and whatever status it had; the query for these
entries counts the same (`Reachable.counts_status`).
-/

namespace FeedStore

/-- The additions that ask for the listed entries that are shown on global lists. -/
def Addition.listedShown (ids : List Id) : List Addition := [.entries ids, .filter .shown]

/-! ## What is counted -/

namespace Store

variable {s : Store} {user : Id} {ids : List Id} {e : Entry}

/-- A listed row is shown on global lists exactly when the filter admits its entry. -/
theorem Joins.shownGlobally_iff {l : Listed} (hs : s.Integrity) (h : s.Joins l) :
    s.shownGlobally l.feed = true ↔ Filter.shown.Admits s l.entry := by
  rw [← Filter.forall_holds_iff hs h]
  have hcategory := h.exists_category_iff hs (P := fun c => c.hideGlobally = false)
  simp [shownGlobally, Table.holds_iff, Filter.conditions, Condition.holds, hcategory]

theorem countsShown_iff (hs : s.Integrity) (he : e ∈ s.entries.rows) :
    s.countsShown user ids e = true ↔ Query.Asks user (Addition.listedShown ids) s e := by
  obtain ⟨l, hl, rfl⟩ := hs.exists_listed he
  have hshown := (joins_of_mem_listed hl).shownGlobally_iff hs
  rw [countsShown, (of_mem_listed hl).2, Option.map_some, Option.getD_some, Bool.and_eq_true,
    hshown]
  simp [Entry.isListed, Query.Asks, Addition.listedShown, Addition.Admits, and_assoc]

end Store

/-! ## The two statements -/

namespace Query

theorem values_listedShown (user : Id) (ids : List Id) :
    (built user (Addition.listedShown ids)).values = ids.length + 1 := by
  have hall : (built user (Addition.listedShown ids)).allConditions
      = [.user user, .entryIn ids, .shown] := rfl
  simp [values, hall, Condition.values, Nat.add_comm]

/-- The engine takes the query for as many entries as it sets the status of. -/
theorem conditionsFit_listedShown (user : Id) {ids : List Id} (hfew : ids.length + 3 ≤ maxValues) :
    (built user (Addition.listedShown ids)).ConditionsFit := by
  refine ⟨?_, ?_, fun c hc => ?_⟩
  · rw [values_listedShown]
    exact hfew
  · have hdepth : Condition.depth [.user user, .entryIn ids, .shown] ≤ maxDepth := by
      cases ids with
      | nil => exact Nat.le_of_ble_eq_true rfl
      | cons i ids => exact Nat.le_of_ble_eq_true rfl
    exact hdepth
  · rcases List.mem_pair.1 hc with rfl | rfl
    · rfl
    · rfl

end Query

namespace Action

variable {s t : Session} {user : Id} {ids : List Id} {status : Status}

theorem perform_setStatus (user : Id) (status : Status)
    (h : s.refusal? (.update .entries []) { values := ids.length + 3 } = none) :
    (setStatus user ids status).perform s
      = (.ok (), s.moving status (Entry.isListed user ids)) := by
  unfold setStatus
  split
  · subst ids
    have hnone : s.store.entries.count (Entry.isListed user []) = 0 :=
      List.countP_eq_zero.2 fun e _ => by simp [Entry.isListed]
    rw [perform_pure, Session.moving, Table.modify_of_count_eq_zero _ hnone]
  · rw [perform_bind, perform_now]
    dsimp only
    rw [perform_bind, perform_writeWithin, h]
    rfl

theorem perform_setStatus_of_refusal (user : Id) (status : Status) (hids : ids ≠ []) {fault : Fault}
    (h : s.refusal? (.update .entries []) { values := ids.length + 3 } = some fault) :
    (setStatus user ids status).perform s
      = (.error (.ofFault ("unable to update entries statuses " ++ idList ids) fault), s) := by
  unfold setStatus
  rw [if_neg hids, perform_bind, perform_now]
  dsimp only
  rw [perform_bind, perform_writeWithin, h]

/-- Nothing is counted where the status cannot be set. -/
theorem perform_setStatusCount_of_error {e : StoreError}
    (h : (setStatus user ids status).perform s = (.error e, t)) :
    (setStatusCount user ids status).perform s = (.error e, t) := by
  unfold setStatusCount
  split
  · subst ids
    cases h
  · rw [perform_bind, h]

/-- Counting reads what setting the status has left behind. -/
theorem perform_setStatusCount (h : (setStatus user ids status).perform s = (.ok (), t))
    (hcount : t.refusal? (.select [.entries, .feeds, .categories]) { values := ids.length + 1 }
      = none) :
    (setStatusCount user ids status).perform s = (.ok (t.store.countShown user ids), t) := by
  unfold setStatusCount
  split
  · subst ids
    obtain ⟨-, rfl⟩ := Prod.mk.inj h
    have hzero : s.store.countShown user [] = 0 :=
      List.countP_eq_zero.2 fun l _ => by simp [Entry.isListed]
    rw [perform_pure, hzero]
  · rw [perform_bind, h]
    dsimp only
    rw [perform_readWithin, hcount]
    rfl

/-- Where no table is missing, what lets the status be set lets the entries be counted. -/
theorem refusal?_select_of_update (hmissing : s.access.missing = []) (tables : List TableName)
    {n : Nat} (h : s.refusal? (.update .entries []) { values := n + 3 } = none) :
    s.refusal? (.select tables) { values := n + 1 } = none := by
  obtain ⟨hopen, hextent, -, -⟩ := Session.refusal?_eq_none_iff.1 h
  have hvalues : n + 3 ≤ maxValues := hextent.values
  have hfew : n + 1 ≤ maxValues := by omega
  refine Session.refusal?_eq_none_iff.2 ⟨hopen, .of_values hfew, fun _ _ => ?_, rfl⟩
  simp [Access.has, hmissing]

/-- Either neither of the two statements goes through and nothing changes, or setting the status
goes through and so does counting. -/
def FailsOnlyUnchanged (user : Id) (ids : List Id) (status : Status) (s : Session) : Prop :=
  (∃ e, (setStatus user ids status).perform s = (.error e, s)
      ∧ (setStatusCount user ids status).perform s = (.error e, s))
    ∨ ∃ n t, (setStatus user ids status).perform s = (.ok (), t)
      ∧ (setStatusCount user ids status).perform s = (.ok n, t)

theorem failsOnlyUnchanged (hmissing : s.access.missing = []) :
    FailsOnlyUnchanged user ids status s := by
  by_cases hids : ids = []
  · subst ids
    exact Or.inr ⟨0, s, rfl, rfl⟩
  cases hrefusal : s.refusal? (.update .entries []) { values := ids.length + 3 } with
  | some fault =>
      have hset := perform_setStatus_of_refusal user status hids hrefusal
      exact Or.inl ⟨_, hset, perform_setStatusCount_of_error hset⟩
  | none =>
      have hset := perform_setStatus user status hrefusal
      have hcount := refusal?_select_of_update hmissing [.entries, .feeds, .categories] hrefusal
      exact Or.inr ⟨_, _, hset, perform_setStatusCount hset hcount⟩

end Action

/-! ## The number -/

/-- The listed entries of the user have been given the status and nothing else has changed; `n` is
the number of different ones among them that are shown on global lists, as the query counts them. -/
structure Session.SetsStatus (s : Session) (user : Id) (ids : List Id) (status : Status) (n : Nat)
    (t : Session) : Prop where
  rows : List.Forall₂
    (fun e e' =>
      (e.userId = user ∧ e.id ∈ ids) ∧ e' = { e with status := .known status, changedAt := s.now }
        ∨ ¬ (e.userId = user ∧ e.id ∈ ids) ∧ e' = e)
    s.store.entries.rows t.store.entries.rows
  rest : t = { s with store := { s.store with
    entries := { s.store.entries with rows := t.store.entries.rows } } }
  different : ∃ shown : List Id, shown.Nodup ∧ shown.length = n
    ∧ ∀ i, i ∈ shown ↔ i ∈ ids ∧ ∃ e ∈ s.store.entries.rows,
        e.id = i ∧ e.userId = user ∧ Filter.shown.Admits s.store e
  asked : (Action.countEntries (Query.built user (Addition.listedShown ids))).perform t = (.ok n, t)

/-- Where the status of the listed entries has been set, the entries counted are the different ones
that are shown. -/
theorem Session.setsStatus_moving {s : Session} (hs : Reachable s) {user : Id} {ids : List Id}
    {status : Status} (hfew : ids.length + 3 ≤ maxValues) :
    let t := s.moving status (Entry.isListed user ids)
    s.SetsStatus user ids status (t.store.countShown user ids) t := by
  intro t
  have hint : t.store.Integrity := hs.integrity.modifyKept _ fun _ => ⟨rfl, rfl, rfl, rfl, rfl⟩
  have hready : t.Ready := hs.ready
  have hcount : t.store.countShown user ids = s.store.countShown user ids :=
    Store.countShown_setStatus s.store user ids status s.now
  refine ⟨Session.forall₂_moving fun e _ => by simp [Entry.isListed], rfl, ?_, ?_⟩
  · refine ⟨s.store.entryIds (s.store.countsShown user ids), ?_, ?_, fun i => ?_⟩
    · exact List.pairwise_map.2 ((hs.integrity.entries.ascending.filter _).imp fun hlt =>
        ne_of_lt hlt)
    · rw [hcount, Store.countShown_eq, Store.entryIds, List.length_map, Table.select,
        List.countP_eq_length_filter]
    · rw [Store.mem_entryIds]
      constructor
      · rintro ⟨e, he, hcounts, rfl⟩
        obtain ⟨howner, hadmits⟩ := (Store.countsShown_iff hs.integrity he).1 hcounts
        exact ⟨hadmits _ List.mem_cons_self, e, he, rfl, howner,
          hadmits (.filter .shown) (List.mem_cons_of_mem _ List.mem_cons_self)⟩
      · rintro ⟨hi, e, he, rfl, howner, hshown⟩
        refine ⟨e, he, (Store.countsShown_iff hs.integrity he).2 ⟨howner, ?_⟩, rfl⟩
        exact List.forall_mem_cons.2 ⟨hi, List.forall_mem_cons.2 ⟨hshown, by simp⟩⟩
  · rw [Action.perform_countEntries hready (Query.conditionsFit_listedShown user hfew),
      (Query.denotes_sorted hint user _).length_eq hint fun e he => Store.countsShown_iff hint he,
      Store.countShown_eq]
    rfl

open FeedStore.Action in
/-- Setting a status with the count is one step: it fails and changes nothing if the identifiers are
too many, and otherwise sets the status of all the listed entries of the user and answers with the
number of those that are shown. Neither a lock nor a closed store gets between the two
statements. -/
theorem Reachable.counts_status {s : Session} (hs : Reachable s) (user : Id) (ids : List Id)
    (status : Status) :
    (maxValues < ids.length + 3 →
        (setStatusCount user ids status).perform s =
          (.error (.query ("unable to update entries statuses " ++ idList ids) .tooManyValues), s))
      ∧ (ids.length + 3 ≤ maxValues → ∃ n t, (setStatusCount user ids status).perform s = (.ok n, t)
          ∧ s.SetsStatus user ids status n t)
      ∧ ∀ access : Access, access.missing = [] →
          FailsOnlyUnchanged user ids status { s with access } := by
  refine ⟨fun hmany => ?_, fun hfew => ?_, fun access hmissing => failsOnlyUnchanged hmissing⟩
  · have hids : ids ≠ [] := by
      rintro rfl
      exact absurd hmany (by decide)
    exact perform_setStatusCount_of_error
      (perform_setStatus_of_refusal user status hids (hs.ready.refusal?_of_lt hmany))
  · have hupdate : s.refusal? (.update .entries []) { values := ids.length + 3 } = none :=
      hs.ready.refusal? _ (.of_values hfew)
    have hmissing : s.access.missing = [] := by rw [show s.access = {} from hs.ready]
    have hcount := refusal?_select_of_update hmissing [.entries, .feeds, .categories] hupdate
    exact ⟨_, _, perform_setStatusCount (perform_setStatus user status hupdate) hcount,
      Session.setsStatus_moving hs hfew⟩

/-- Of five identifiers one is listed twice, one is of an entry in a hidden feed, one of somebody
else's entry and one of none. -/
theorem Reachable.counts_status_mixed :
    ∃ s t, Reachable s
      ∧ (Action.setStatusCount 1 [1, 1, 2, 3, 99] .removed).perform s = (.ok 1, t)
      ∧ s.SetsStatus 1 [1, 1, 2, 3, 99] .removed 1 t := by
  let s := Session.subscribed.run
    [.createFeed 1 { FeedOffer.bare 1 "b" with hideGlobally := true },
      .createUser "bob", .createCategory 2 "news" false, .createFeed 2 (.bare 2 "a"),
      .refreshFeed 1 1 [.bare "a" 10] false, .refreshFeed 1 2 [.bare "a" 10] false,
      .refreshFeed 2 3 [.bare "a" 10] false]
  have hs : Reachable s := Reachable.subscribed.run _
  have hcount : ((Action.setStatusCount 1 [1, 1, 2, 3, 99] .removed).perform s).1 = .ok 1 := by
    decide +kernel
  obtain ⟨-, hsets, -⟩ := hs.counts_status 1 [1, 1, 2, 3, 99] .removed
  obtain ⟨n, t, hperform, hsets⟩ := hsets (by decide)
  rw [hperform] at hcount
  obtain rfl := Except.ok.inj hcount
  exact ⟨s, t, hs, hperform, hsets⟩

end FeedStore

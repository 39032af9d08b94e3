import FeedStore.Proofs.EntryChanges

/-!
# What is archived

Archiving takes the oldest of the entries that may be archived, as many as the limit allows, and
removes them; it leaves everything else alone, even their times of change. Which of several entries
of one time are taken is left open (`OldestOf`). Nothing is done if the moment before which they have
to have been created cannot be represented (`Reachable.archives_oldest`).
-/

namespace FeedStore

/-- The number fits into a signed word of 64 bits. -/
def InWord (n : Int) : Prop := -(2 ^ 63) ≤ n ∧ n < 2 ^ 63

instance (n : Int) : Decidable (InWord n) := inferInstanceAs (Decidable (_ ∧ _))

/-- The entry has the status, neither a star nor a share code protects it, and it was created before
the moment. -/
def Entry.Eligible (status : Status) (before : Int) (e : Entry) : Prop :=
  e.status = .known status ∧ e.starred = false ∧ e.shareCode = "" ∧ e.createdAt < before

instance (status : Status) (before : Int) : DecidablePred (Entry.Eligible status before) :=
  fun _ => inferInstanceAs (Decidable (_ ∧ _ ∧ _ ∧ _))

/-- The entries of all users that may be archived. -/
def Store.eligible (s : Store) (status : Status) (before : Int) : List Entry :=
  s.entries.rows.filter fun e => e.Eligible status before

/-- As many of the entries as the limit allows are taken, and none that is left out is older than
one that is taken. -/
structure OldestOf (es : List Entry) (limit : Int) (taken : List Id) : Prop where
  nodup : taken.Nodup
  among : ∀ i ∈ taken, ∃ e ∈ es, e.id = i
  length : taken.length = min limit.toNat es.length
  oldest : ∀ a ∈ es, ∀ b ∈ es, a.id ∈ taken → b.id ∉ taken → a.createdAt ≤ b.createdAt

/-- The entry, removed if its identifier is listed; all its other fields are kept. -/
def Entry.removedIn (ids : List Id) (e : Entry) : Entry :=
  if e.id ∈ ids then { e with status := .known .removed } else e

/-- The session with some entries removed, and nothing else changed. -/
def Session.removing (s : Session) (ids : List Id) : Session :=
  { s with store := { s.store with entries := { s.store.entries with
      rows := s.store.entries.rows.map (Entry.removedIn ids) } } }

/-! ## The moment before which entries are archived -/

namespace Action

theorem isWord_iff {n : Int} : isWord n = true ↔ InWord n := by
  unfold isWord InWord
  rw [Bool.and_eq_true, decide_eq_true_iff, decide_eq_true_iff]
  exact Iff.rfl

theorem cutoff?_eq (now days : Int) :
    cutoff? now days = if InWord (days * 86400) ∧ InWord (now - days * 86400)
      then some (now - days * 86400) else none := by
  unfold cutoff?
  simp only [Bool.and_eq_true, isWord_iff]
  rfl

end Action

/-- The entries that may be archived after so many days: there are none if the moment that many days
ago cannot be represented. -/
def Session.eligible (s : Session) (status : Status) (days : Int) : List Entry :=
  if 0 ≤ days ∧ InWord (days * 86400) ∧ InWord (s.now - days * 86400)
  then s.store.eligible status (s.now - days * 86400) else []

/-! ## The oldest of some entries -/

theorem Entry.isOlder_iff {a b : Entry} :
    a.isOlder b = true ↔ a.createdAt < b.createdAt ∨ a.createdAt = b.createdAt ∧ a.id ≤ b.id := by
  unfold isOlder
  simp only [Ordering.isLE_then_iff_or, Std.isLE_compare, Std.compare_eq_lt, compare_eq_iff_eq]

/-- The identifiers of the oldest entries, of entries of one time those that were stored first. -/
def oldestIds (es : List Entry) (limit : Int) : List Id :=
  ((es.mergeSort Entry.isOlder).take limit.toNat).map (·.id)

theorem oldestIds_nil (limit : Int) : oldestIds [] limit = [] := by
  rw [oldestIds, List.mergeSort_nil, List.take_nil, List.map_nil]

section Oldest

variable {es : List Entry} {limit : Int} {taken : List Id}

theorem pairwise_isOlder_mergeSort (es : List Entry) :
    (es.mergeSort Entry.isOlder).Pairwise fun a b => a.createdAt ≤ b.createdAt := by
  have hsorted : (es.mergeSort Entry.isOlder).Pairwise fun a b => a.isOlder b = true := by
    refine List.pairwise_mergeSort (fun a b c hab hbc => ?_) (fun a b => ?_) es
    · rw [Entry.isOlder_iff] at hab hbc ⊢
      grind
    · rw [Bool.or_eq_true, Entry.isOlder_iff, Entry.isOlder_iff]
      grind
  exact hsorted.imp fun hab => (Entry.isOlder_iff.1 hab).elim le_of_lt fun h => h.1.le

theorem oldestOf_oldestIds (hes : (es.map (·.id)).Nodup) (limit : Int) :
    OldestOf es limit (oldestIds es limit) := by
  have hperm := es.mergeSort_perm Entry.isOlder
  have htake := List.take_sublist limit.toNat (es.mergeSort Entry.isOlder)
  constructor
  · exact ((hperm.map _).nodup_iff.2 hes).sublist (htake.map _)
  · intro i hi
    obtain ⟨e, he, rfl⟩ := List.mem_map.1 hi
    exact ⟨e, hperm.mem_iff.1 (htake.subset he), rfl⟩
  · unfold oldestIds
    rw [List.length_map, List.length_take, hperm.length_eq]
  · intro a ha b hb htaken hleft
    obtain ⟨a', ha', hid⟩ := List.mem_map.1 htaken
    obtain rfl : a' = a :=
      List.inj_on_of_nodup_map hes (hperm.mem_iff.1 (htake.subset ha')) ha hid
    -- what is left out stands behind what is taken
    have hsorted := pairwise_isOlder_mergeSort es
    rw [← List.take_append_drop limit.toNat (es.mergeSort Entry.isOlder),
      List.pairwise_append] at hsorted
    refine hsorted.2.2 a' ha' b ?_
    have hb := hperm.mem_iff.2 hb
    rw [← List.take_append_drop limit.toNat (es.mergeSort Entry.isOlder), List.mem_append] at hb
    exact hb.resolve_left fun hmem => hleft (List.mem_map_of_mem hmem)

/-- Of entries with distinct identifiers, as many carry one of the identifiers as there are. -/
theorem countP_mem_ids (hes : (es.map (·.id)).Nodup) (hnodup : taken.Nodup)
    (hamong : ∀ i ∈ taken, ∃ e ∈ es, e.id = i) :
    es.countP (fun e => taken.contains e.id) = taken.length := by
  have hperm : ((es.map (·.id)).filter taken.contains).Perm taken := by
    rw [List.perm_ext_iff_of_nodup (hes.filter _) hnodup]
    intro i
    rw [List.mem_filter, List.contains_iff_mem, List.mem_map]
    exact ⟨fun h => h.2, fun h => ⟨hamong i h, h⟩⟩
  rw [← hperm.length_eq, ← List.countP_eq_length_filter, List.countP_map]
  rfl

end Oldest

/-! ## Archiving -/

theorem Entry.isArchivable_iff {status : Status} {cutoff : Int} {e : Entry} :
    e.isArchivable status cutoff = true ↔ e.Eligible status cutoff := by
  simp [isArchivable, hasStatus, isUnprotected, Eligible, and_assoc]

namespace Store

variable {s : Store}

theorem nodup_ids_eligible (hs : s.Integrity) (status : Status) (before : Int) :
    ((s.eligible status before).map (·.id)).Nodup :=
  List.pairwise_map.2 (hs.entries.distinct.filter _)

theorem ids_archivable (s : Store) (status : Status) (cutoff limit : Int) :
    (s.archivable status cutoff limit).map (·.id)
      = oldestIds (s.eligible status cutoff) limit := by
  have hselect : s.entries.select (Entry.isArchivable status cutoff) = s.eligible status cutoff :=
    List.filter_congr fun e _ => Bool.eq_iff_iff.2 (by simp [Entry.isArchivable_iff])
  unfold archivable oldestIds
  rw [hselect]

/-- The statement that archives changes one row for each of the oldest eligible entries. -/
theorem fst_archive (hs : s.Integrity) (status : Status) (cutoff limit : Int) :
    (s.archive status cutoff limit).1
      = (oldestIds (s.eligible status cutoff) limit).length := by
  have htaken := oldestOf_oldestIds (s.nodup_ids_eligible hs status cutoff) limit
  unfold archive
  rw [ids_archivable]
  refine countP_mem_ids (List.pairwise_map.2 hs.entries.distinct) htaken.nodup fun i hi => ?_
  obtain ⟨e, he, hid⟩ := htaken.among i hi
  exact ⟨e, List.mem_of_mem_filter he, hid⟩

theorem snd_archive (s : Session) (status : Status) (cutoff limit : Int) :
    { s with store := (s.store.archive status cutoff limit).2 }
      = s.removing (oldestIds (s.store.eligible status cutoff) limit) := by
  unfold archive
  rw [ids_archivable]
  simp [modifyEntries, Table.modify, Session.removing, Entry.removedIn]

end Store

namespace Session

variable {s : Session}

theorem removing_nil (s : Session) : s.removing [] = s := by
  have hrow : Entry.removedIn [] = id := funext fun e => if_neg List.not_mem_nil
  rw [removing, hrow, List.map_id]

theorem eligible_eq {status : Status} {days : Int} (hdays : 0 ≤ days)
    (hspan : InWord (days * 86400)) (hmoment : InWord (s.now - days * 86400)) :
    s.eligible status days = s.store.eligible status (s.now - days * 86400) :=
  if_pos ⟨hdays, hspan, hmoment⟩

/-- Nothing is taken when there is nothing to do. -/
theorem oldestIds_eligible_eq_nil {status : Status} {days limit : Int}
    (h : days < 0 ∨ limit ≤ 0 ∨ ¬ InWord (days * 86400) ∨ ¬ InWord (s.now - days * 86400)) :
    oldestIds (s.eligible status days) limit = [] := by
  by_cases hlimit : limit ≤ 0
  · rw [oldestIds, Int.toNat_of_nonpos hlimit]
    rfl
  · rw [eligible, if_neg, oldestIds_nil]
    rintro ⟨hdays, hspan, hmoment⟩
    rcases h with h | h | h | h
    · omega
    · exact hlimit h
    · exact h hspan
    · exact h hmoment

end Session

namespace Reachable

variable {s : Session}

theorem nodup_ids_eligible (hs : Reachable s) (status : Status) (days : Int) :
    ((s.eligible status days).map (·.id)).Nodup := by
  unfold Session.eligible
  split
  · exact Store.nodup_ids_eligible hs.integrity _ _
  · exact List.nodup_nil

/-- Archiving removes the oldest eligible entries and says how many they are. -/
theorem perform_archive (hs : Reachable s) (status : Status) (days limit : Int) :
    (Action.archive status days limit).perform s
      = (.ok (oldestIds (s.eligible status days) limit).length,
          s.removing (oldestIds (s.eligible status days) limit)) := by
  unfold Action.archive
  split
  · rename_i hguard
    rw [Bool.or_eq_true, decide_eq_true_iff, decide_eq_true_iff] at hguard
    rw [Session.oldestIds_eligible_eq_nil (hguard.imp_right .inl), Session.removing_nil]
    rfl
  · rename_i hguard
    rw [Bool.or_eq_true, decide_eq_true_iff, decide_eq_true_iff, not_or, not_lt] at hguard
    rw [Action.perform_bind, Action.perform_now]
    dsimp only
    rw [Action.cutoff?_eq]
    by_cases hword : InWord (days * 86400) ∧ InWord (s.now - days * 86400)
    · rw [if_pos hword, Session.eligible_eq hguard.1 hword.1 hword.2]
      dsimp only
      rw [Action.perform_change_of_ready hs.ready, Store.fst_archive hs.integrity,
        Store.snd_archive]
    · rw [if_neg hword, Session.oldestIds_eligible_eq_nil (.inr (.inr (not_and_or.1 hword))),
        Session.removing_nil]
      rfl

/-- In a reachable session archiving does nothing if the number of days is negative, the limit not
positive or the moment that many days ago not to be represented. Otherwise it removes the oldest of
all unprotected entries of the status that were created before that moment, whoever they belong to
and as many as the limit allows, and says how many they are. Nothing else changes. -/
theorem archives_oldest (hs : Reachable s) (status : Status) (days limit : Int) :
    (days < 0 ∨ limit ≤ 0 ∨ ¬ InWord (days * 86400) ∨ ¬ InWord (s.now - days * 86400) →
        (Action.archive status days limit).perform s = (.ok 0, s))
      ∧ (0 ≤ days → 0 < limit → InWord (days * 86400) → InWord (s.now - days * 86400) →
          ∃ taken, (Action.archive status days limit).perform s
              = (.ok taken.length, s.removing taken)
            ∧ OldestOf (s.store.eligible status (s.now - days * 86400)) limit taken) := by
  refine ⟨fun h => ?_, fun hdays _ hspan hmoment => ?_⟩
  · rw [hs.perform_archive, Session.oldestIds_eligible_eq_nil h, Session.removing_nil]
    rfl
  · refine ⟨_, hs.perform_archive status days limit, ?_⟩
    rw [Session.eligible_eq hdays hspan hmoment]
    exact oldestOf_oldestIds (Store.nodup_ids_eligible hs.integrity _ _) limit

/-- Five unread entries, three of them of one time; the two that are starred and shared stay out. -/
theorem archives_oldest_two :
    ∃ s taken, Reachable s ∧ (Action.archive .unread (-1) 2).perform s = (.ok 0, s)
      ∧ (Action.archive .unread (2 ^ 60) 2).perform s = (.ok 0, s)
      ∧ (Action.archive .unread 1 2).perform s = (.ok taken.length, s.removing taken)
      ∧ OldestOf (s.store.eligible .unread 101) 2 taken ∧ taken.length = 2
      ∧ (s.store.eligible .unread 101).map (·.id) = [1, 3, 4] := by
  let s := Session.subscribed.run
    [.setClock 100, .refreshFeed 1 1 [.bare "a" 1, .bare "b" 2, .bare "c" 3] false,
      .setClock 50, .refreshFeed 1 1 [.bare "d" 4, .bare "e" 5] false, .share 1 2 "code",
      .setStar 1 [5] true, .setClock 86501]
  have hs : Reachable s := Reachable.subscribed.run _
  have heligible : (s.store.eligible .unread 101).map (·.id) = [1, 3, 4] := by decide +kernel
  obtain ⟨taken, harchive, holdest⟩ :=
    (hs.archives_oldest .unread 1 2).2 (by decide) (by decide) (by decide) (by decide +kernel)
  refine ⟨s, taken, hs, (hs.archives_oldest .unread (-1) 2).1 (.inl (by decide)),
    (hs.archives_oldest .unread (2 ^ 60) 2).1 (.inr (.inr (.inl (by decide)))), harchive, holdest,
    ?_, heligible⟩
  have hlength : (s.store.eligible .unread 101).length = 3 := by
    rw [← List.length_map, heligible]
    rfl
  rw [holdest.length]
  exact congrArg (min 2) hlength

end Reachable

end FeedStore

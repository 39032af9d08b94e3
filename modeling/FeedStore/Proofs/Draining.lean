import FeedStore.CommandLine.Run
import FeedStore.Proofs.Archival
import FeedStore.Proofs.Commuting

/-!
# Archiving in batches

What one batch archives is no longer eligible for the next one, and nothing else changes, so batches
end up where a single call does whose limit is no obstacle (`Reachable.exists_drains`). Archiving one
status leaves what is eligible in another as it is (`Reachable.eligible_removing_of_ne`), so the two
may be archived in either order (`Reachable.archives_in_batches`).
-/

namespace FeedStore

/-- Archiving over and over, while the clock stands still, gives these numbers until it gives zero,
and the session that is left behind then. -/
inductive Session.Drains (status : Status) (days limit : Int) : Session → List Nat → Session → Prop
  | done {s : Session} (h : (Action.archive status days limit).perform s = (.ok 0, s)) :
      Drains status days limit s [] s
  | more {s t u : Session} {n : Nat} {ns : List Nat} (hn : 0 < n)
      (h : (Action.archive status days limit).perform s = (.ok n, t)) :
      Drains status days limit t ns u → Drains status days limit s (n :: ns) u

/-! ## Removing entries -/

namespace Entry

variable {ids : List Id} {e : Entry}

@[simp] theorem id_removedIn (ids : List Id) (e : Entry) : (e.removedIn ids).id = e.id := by
  unfold removedIn
  split <;> rfl

theorem removedIn_of_mem (h : e.id ∈ ids) :
    e.removedIn ids = { e with status := .known .removed } := if_pos h

theorem removedIn_of_not_mem (h : e.id ∉ ids) : e.removedIn ids = e := if_neg h

theorem removedIn_removedIn (ids ids' : List Id) (e : Entry) :
    (e.removedIn ids).removedIn ids' = e.removedIn (ids ++ ids') := by
  by_cases h' : e.id ∈ ids'
  · rw [removedIn_of_mem (e := e.removedIn ids) (by simpa using h'),
      removedIn_of_mem (List.mem_append_right ids h')]
    unfold removedIn
    split <;> rfl
  · rw [removedIn_of_not_mem (e := e.removedIn ids) (by simpa using h')]
    simp [removedIn, h']

theorem eligible_removedIn_iff {status : Status} (hstatus : status ≠ .removed) {before : Int} :
    (e.removedIn ids).Eligible status before ↔ e.id ∉ ids ∧ e.Eligible status before := by
  by_cases h : e.id ∈ ids
  · rw [removedIn_of_mem h]
    refine iff_of_false (fun hfalse => ?_) fun hfalse => hfalse.1 h
    exact hstatus (StoredStatus.known.inj hfalse.1).symm
  · rw [removedIn_of_not_mem h, and_iff_right h]

end Entry

namespace Session

variable {s : Session} {ids ids' : List Id}

theorem removing_congr (h : ∀ i, i ∈ ids ↔ i ∈ ids') : s.removing ids = s.removing ids' := by
  have hrow : Entry.removedIn ids = Entry.removedIn ids' :=
    funext fun e => by simp only [Entry.removedIn, h]
  rw [removing, hrow, removing]

theorem removing_removing (s : Session) (ids ids' : List Id) :
    (s.removing ids).removing ids' = s.removing (ids ++ ids') := by
  simp only [removing, List.map_map, Function.comp_def, Entry.removedIn_removedIn]

theorem removing_comm (s : Session) (ids ids' : List Id) :
    (s.removing ids).removing ids' = (s.removing ids').removing ids := by
  rw [removing_removing, removing_removing]
  refine removing_congr fun i => ?_
  rw [List.mem_append, List.mem_append, or_comm]

end Session

/-- Removed entries are not eligible any more, and the others are as before. -/
theorem Store.eligible_removing {s : Session} {status : Status} (hstatus : status ≠ .removed)
    (ids : List Id) (before : Int) :
    (s.removing ids).store.eligible status before
      = (s.store.eligible status before).filter fun e => !ids.contains e.id := by
  have hfilter : (s.store.entries.rows.filter fun e => (e.removedIn ids).Eligible status before)
      = (s.store.eligible status before).filter fun e => !ids.contains e.id := by
    unfold eligible
    rw [List.filter_filter]
    refine List.filter_congr fun e _ => Bool.eq_iff_iff.2 ?_
    simp [Entry.eligible_removedIn_iff hstatus]
  have hkept : ∀ e ∈ (s.store.eligible status before).filter fun e => !ids.contains e.id,
      e.removedIn ids = e := by
    intro e he
    refine Entry.removedIn_of_not_mem ?_
    simpa using (List.mem_filter.1 he).2
  unfold eligible Session.removing
  rw [List.filter_map, Function.comp_def, hfilter, List.map_congr_left hkept, List.map_id']
  rfl

/-! ## Batches -/

/-- What has not been taken is left, and there is less of it. -/
theorem OldestOf.length_left {es : List Entry} {limit : Int} {taken : List Id}
    (h : OldestOf es limit taken) (hes : (es.map (·.id)).Nodup) :
    (es.filter fun e => !taken.contains e.id).length + taken.length = es.length := by
  have hlength := List.length_eq_countP_add_countP (l := es) fun e => taken.contains e.id
  rw [countP_mem_ids hes h.nodup h.among] at hlength
  rw [← List.countP_eq_length_filter, hlength, add_comm]
  simp

/-- What has been taken and what is left is all there was. -/
theorem OldestOf.mem_append_left_iff {es : List Entry} {limit : Int} {taken : List Id}
    (h : OldestOf es limit taken) {i : Id} :
    i ∈ taken ++ (es.filter fun e => !taken.contains e.id).map (·.id) ↔ i ∈ es.map (·.id) := by
  rw [List.mem_append, List.mem_map, List.mem_map]
  constructor
  · rintro (htaken | ⟨e, he, hid⟩)
    · exact h.among i htaken
    · exact ⟨e, List.mem_of_mem_filter he, hid⟩
  · rintro ⟨e, he, rfl⟩
    by_cases htaken : e.id ∈ taken
    · exact Or.inl htaken
    · exact Or.inr ⟨e, List.mem_filter.2 ⟨he, by simpa using htaken⟩, rfl⟩

/-- A limit that is large enough is none. -/
theorem mem_oldestIds_of_le {es : List Entry} {limit : Int} (h : (es.length : Int) ≤ limit)
    {i : Id} : i ∈ oldestIds es limit ↔ i ∈ es.map (·.id) := by
  unfold oldestIds
  rw [List.take_of_length_le (by rw [List.length_mergeSort]; omega), List.mem_map, List.mem_map]
  simp only [List.mem_mergeSort]

namespace Session

variable {s : Session} {status : Status}

theorem of_mem_eligible {days : Int} {e : Entry} (h : e ∈ s.eligible status days) :
    e ∈ s.store.entries.rows ∧ e.Eligible status (s.now - days * 86400) := by
  unfold eligible at h
  split at h
  · exact (List.mem_filter.1 h).imp_right of_decide_eq_true
  · cases h

theorem eligible_removing (hstatus : status ≠ .removed) (days : Int) (ids : List Id) :
    (s.removing ids).eligible status days
      = (s.eligible status days).filter fun e => !ids.contains e.id := by
  unfold eligible
  rw [show (s.removing ids).now = s.now from rfl, Store.eligible_removing hstatus]
  split <;> rfl

end Session

namespace Reachable

variable {s : Session}

theorem oldestOf_eligible (hs : Reachable s) (status : Status) (days limit : Int) :
    OldestOf (s.eligible status days) limit (oldestIds (s.eligible status days) limit) :=
  oldestOf_oldestIds (hs.nodup_ids_eligible status days) limit

/-- What archiving leaves behind is reachable. -/
theorem removing_oldestIds (hs : Reachable s) (status : Status) (days limit : Int) :
    Reachable (s.removing (oldestIds (s.eligible status days) limit)) := by
  have hnext : (Command.archive status days limit).next s
      = s.removing (oldestIds (s.eligible status days) limit) :=
    congrArg Prod.snd (hs.perform_archive status days limit)
  exact hnext ▸ Reachable.step (.archive status days limit) hs

/-- Batches end when nothing is eligible any more, and together remove what was. -/
theorem exists_drains (hs : Reachable s) {status : Status} (hstatus : status ≠ .removed)
    (days : Int) {limit : Int} (hlimit : 0 < limit) :
    ∃ counts, s.Drains status days limit counts
        (s.removing ((s.eligible status days).map (·.id)))
      ∧ counts.sum = (s.eligible status days).length := by
  -- a batch that takes something leaves fewer eligible entries to the next one
  induction hn : (s.eligible status days).length using Nat.strong_induction_on generalizing s with
  | _ n ih =>
      have hperform := hs.perform_archive status days limit
      have holdest := hs.oldestOf_eligible status days limit
      have hlength := holdest.length
      rw [hn] at hlength
      by_cases hzero : n = 0
      · have hnil : s.eligible status days = [] := List.length_eq_zero_iff.1 (hn.trans hzero)
        rw [hnil, oldestIds_nil, Session.removing_nil] at hperform
        refine ⟨[], ?_, hzero.symm⟩
        rw [hnil, List.map_nil, Session.removing_nil]
        exact .done hperform
      · have hleft := Session.eligible_removing (s := s) hstatus days
          (oldestIds (s.eligible status days) limit)
        have hfewer := holdest.length_left (hs.nodup_ids_eligible status days)
        rw [← hleft, hn] at hfewer
        obtain ⟨counts, hdrains, hsum⟩ :=
          ih _ (by omega) (hs.removing_oldestIds status days limit) rfl
        refine ⟨_ :: counts, .more (by omega) hperform ?_, ?_⟩
        · rw [hleft, Session.removing_removing,
            Session.removing_congr fun i => holdest.mem_append_left_iff] at hdrains
          exact hdrains
        · rw [List.sum_cons, hsum]
          omega

/-- A single call whose limit allows it removes all that is eligible. -/
theorem perform_archive_of_le (hs : Reachable s) {status : Status} {days limit : Int}
    (hlimit : ((s.eligible status days).length : Int) ≤ limit) :
    (Action.archive status days limit).perform s
      = (.ok (s.eligible status days).length,
          s.removing ((s.eligible status days).map (·.id))) := by
  rw [hs.perform_archive, (hs.oldestOf_eligible status days limit).length, min_eq_right (by omega),
    Session.removing_congr fun i => mem_oldestIds_of_le hlimit]

/-! ## Two statuses -/

/-- What is eligible in one status stays so when entries are removed that are in another. -/
theorem eligible_removing_of_ne (hs : Reachable s) {status status' : Status}
    (hne : status ≠ status') (hstatus : status ≠ .removed) {days days' : Int} {ids : List Id}
    (hids : ∀ i ∈ ids, ∃ e ∈ s.eligible status' days', e.id = i) :
    (s.removing ids).eligible status days = s.eligible status days := by
  rw [Session.eligible_removing hstatus, List.filter_eq_self]
  intro e he
  rw [Bool.not_eq_true', ← Bool.not_eq_true, List.contains_iff_mem]
  intro hmem
  obtain ⟨e', he', hid⟩ := hids e.id hmem
  obtain ⟨hrow, heligible⟩ := Session.of_mem_eligible he
  obtain ⟨hrow', heligible'⟩ := Session.of_mem_eligible he'
  -- they are one entry, which cannot have two statuses
  obtain rfl : e' = e := hs.integrity.entries.distinct.eq_of_eq hrow' hrow hid
  exact hne (StoredStatus.known.inj (heligible.1.symm.trans heligible'.1))

/-- Archiving one status after another archives what it would have archived before. -/
theorem perform_archive_after (hs : Reachable s) {status status' : Status} (hne : status ≠ status')
    (hstatus : status ≠ .removed) (days days' limit limit' : Int) :
    (Action.archive status days limit).perform
        (s.removing (oldestIds (s.eligible status' days') limit'))
      = (.ok (oldestIds (s.eligible status days) limit).length,
          (s.removing (oldestIds (s.eligible status' days') limit')).removing
            (oldestIds (s.eligible status days) limit)) := by
  rw [(hs.removing_oldestIds status' days' limit').perform_archive,
    hs.eligible_removing_of_ne hne hstatus (hs.oldestOf_eligible status' days' limit').among]

theorem archive_commutes (hs : Reachable s) {status status' : Status} (hne : status ≠ status')
    (hstatus : status ≠ .removed) (hstatus' : status' ≠ .removed) (days days' limit limit' : Int) :
    Action.Commute (.archive status days limit) (.archive status' days' limit') s := by
  have hfirst := hs.perform_archive status days limit
  have hsecond := hs.perform_archive status' days' limit'
  have hafter := hs.perform_archive_after hne.symm hstatus' days' days limit' limit
  have hbefore := hs.perform_archive_after hne hstatus days days' limit limit'
  constructor
  · rw [hsecond, hbefore, hfirst]
  · rw [hfirst, hafter, hsecond]
  · rw [hfirst, hsecond, hafter, hbefore, Session.removing_comm]

end Reachable

namespace CommandLine

theorem run_orElse_bind {α β : Type} {a : Action α} {s t : Session} {x : α}
    (h : a.perform s = (.ok x, t)) (message : String)
    (f : α → ExceptT String (StateM Session) β) :
    (orElse a message >>= f).run.run s = (f x).run.run t := by
  have hrun : (orElse a message).run.run s = (.ok x, t) := by
    rw [orElse, ExceptT.run_adapt, StateT.run_map, show a.run.run s = (.ok x, t) from h]
    rfl
  rw [ExceptT.run_bind, StateT.run_bind, hrun]
  rfl

/-- The cleanup command archives read entries first. -/
theorem run_cleanup {config : CleanupConfig} {s t u : Session} {m n : Nat}
    (hread : (Action.archive .read config.readDays config.batchSize).perform s = (.ok m, t))
    (hunread : (Action.archive .unread config.unreadDays config.batchSize).perform t = (.ok n, u))
    (version : String) :
    (Command.cleanup.perform config version).run.run s
      = (.ok ["Archived " ++ toString m ++ " read and " ++ toString n ++ " unread entries"],
          u) := by
  unfold Command.perform
  rw [run_orElse_bind hread, run_orElse_bind hunread]
  rfl

end CommandLine

/-! ## In batches and in either order -/

namespace Reachable

variable {s : Session}

/-- Batches of any size archive together what is eligible at first, and leave the same behind as one
call whose limit is at least that number. Read and unread entries may be archived in either order,
whichever entries of one time are taken, so the cleanup command might as well begin with the unread
ones. -/
theorem archives_in_batches (hs : Reachable s) :
    (∀ status ≠ Status.removed, ∀ days limit : Int, 0 ≤ days → 0 < limit → ∃ counts t,
        s.Drains status days limit counts t
          ∧ counts.sum = (s.eligible status days).length
          ∧ ∀ most : Int, (s.eligible status days).length ≤ most →
              (Action.archive status days most).perform s
                = (.ok (s.eligible status days).length, t))
      ∧ (∀ days days' limit limit',
          Action.Commute (.archive .read days limit) (.archive .unread days' limit') s)
      ∧ (∀ days days' limit limit' read unread, OldestOf (s.eligible .read days) limit read →
          OldestOf (s.eligible .unread days') limit' unread →
            OldestOf ((s.removing read).eligible .unread days') limit' unread
              ∧ OldestOf ((s.removing unread).eligible .read days) limit read
              ∧ (s.removing read).removing unread = (s.removing unread).removing read)
      ∧ ∀ config version, ∃ m n t u,
          (Action.archive .unread config.unreadDays config.batchSize).perform s = (.ok n, t)
            ∧ (Action.archive .read config.readDays config.batchSize).perform t = (.ok m, u)
            ∧ (CommandLine.Command.cleanup.perform config version).run.run s
              = (.ok ["Archived " ++ toString m ++ " read and " ++ toString n
                  ++ " unread entries"], u) := by
  have hne : Status.read ≠ .unread := by decide
  have hread : Status.read ≠ .removed := by decide
  have hunread : Status.unread ≠ .removed := by decide
  refine ⟨fun status hstatus days limit _ hlimit => ?_,
    fun days days' limit limit' => hs.archive_commutes hne hread hunread days days' limit limit',
    fun days days' limit limit' read unread htaken htaken' => ?_, fun config version => ?_⟩
  · obtain ⟨counts, hdrains, hsum⟩ := hs.exists_drains hstatus days hlimit
    exact ⟨counts, _, hdrains, hsum, fun most hmost => hs.perform_archive_of_le hmost⟩
  · rw [hs.eligible_removing_of_ne hne.symm hunread htaken.among,
      hs.eligible_removing_of_ne hne hread htaken'.among]
    exact ⟨htaken', htaken, Session.removing_comm s read unread⟩
  · have hcleanup := CommandLine.run_cleanup
      (hs.perform_archive .read config.readDays config.batchSize)
      (hs.perform_archive_after hne.symm hunread config.unreadDays config.readDays
        config.batchSize config.batchSize) version
    rw [Session.removing_comm] at hcleanup
    exact ⟨_, _, _, _, hs.perform_archive .unread config.unreadDays config.batchSize,
      hs.perform_archive_after hne hread config.readDays config.unreadDays config.batchSize
        config.batchSize, hcleanup⟩

/-- Three read entries of one time in batches of two. Any two of them may be taken first, before or
after an unread one. -/
theorem archives_in_batches_of_two :
    ∃ s counts t, Reachable s ∧ s.Drains .read 1 2 counts t ∧ counts.sum = 3
      ∧ (Action.archive .read 1 5).perform s = (.ok 3, t)
      ∧ OldestOf (s.eligible .read 1) 2 [3, 2]
      ∧ OldestOf ((s.removing [4]).eligible .read 1) 2 [3, 2]
      ∧ (s.removing [3, 2]).removing [4] = (s.removing [4]).removing [3, 2] := by
  let s := Session.subscribed.run
    [.refreshFeed 1 1 [.bare "a" 1, .bare "b" 2, .bare "c" 3, .bare "d" 4, .bare "e" 5] false,
      .setStatus 1 [1, 2, 3] .read, .setClock 86401]
  have hs : Reachable s := Reachable.subscribed.run _
  have hlength : (s.eligible .read 1).length = 3 := by decide +kernel
  have hread : OldestOf (s.eligible .read 1) 2 [3, 2] :=
    ⟨by decide, by decide +kernel, by decide +kernel, by decide +kernel⟩
  have hunread : OldestOf (s.eligible .unread 1) 1 [4] :=
    ⟨by decide, by decide +kernel, by decide +kernel, by decide +kernel⟩
  obtain ⟨hdrains, -, hchoices, -⟩ := hs.archives_in_batches
  obtain ⟨counts, t, hbatches, hsum, hsingle⟩ :=
    hdrains .read (by decide) 1 2 (by decide) (by decide)
  have hwhole := hsingle 5 (by rw [hlength]; decide)
  obtain ⟨-, hafter, hsame⟩ := hchoices 1 1 2 1 [3, 2] [4] hread hunread
  rw [hlength] at hsum hwhole
  exact ⟨s, counts, t, hs, hbatches, hsum, hwhole, hread, hafter, hsame⟩

end Reachable

end FeedStore

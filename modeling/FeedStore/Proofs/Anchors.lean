import FeedStore.Proofs.ExactSearch

/-!
# The neighbours of any anchor

The anchor of a trail need not be on the listing that the trail goes along: it may be removed, or the
filters may not admit it. It has a place in the order all the same, and whoever stands there meets an
entry on a side exactly if the listing shows one on that side, with none strictly between in time
(`Reachable.meets_neighbours`). That much is true of every answer, whether or not the trail stays within
the limits of the engine: testing conditions one after the other may come to an overlong pattern, but
what it lets through satisfies every condition (`Condition.eq_filter_of_select`).
-/

namespace FeedStore

/-! ## What an answer holds -/

namespace Condition

variable {cs : List Condition} {l : Listed} {ls found : List Listed}

theorem eq_all_of_test {keep : Bool} (h : test cs l = .ok keep) :
    keep = cs.all (·.holds l) := by
  induction cs with
  | nil => exact (Except.ok.inj h).symm
  | cons c cs ih =>
      unfold test at h
      split at h
      · cases h
      · split at h
        · rename_i hholds
          rw [List.all_cons, hholds, Bool.true_and]
          exact ih h
        · rename_i hholds
          rw [List.all_cons, Bool.eq_false_iff.2 hholds, Bool.false_and]
          exact (Except.ok.inj h).symm

/-- The rows that are found are those that satisfy every condition, however long its pattern. -/
theorem eq_filter_of_select (h : select cs ls = .ok found) :
    found = ls.filter fun l => cs.all (·.holds l) := by
  induction ls generalizing found with
  | nil => exact (Except.ok.inj h).symm
  | cons l ls ih =>
      unfold select at h
      cases hkeep : test cs l with
      | error fault =>
          rw [hkeep] at h
          cases h
      | ok keep =>
          cases hrest : select cs ls with
          | error fault =>
              rw [hkeep, hrest] at h
              cases h
          | ok rest =>
              rw [hkeep, hrest] at h
              obtain rfl : (if keep then l :: rest else rest) = found := Except.ok.inj h
              rw [List.filter_cons, ← eq_all_of_test hkeep, ← ih hrest]

end Condition

namespace Trail

variable {t : Trail} {side : Side} {time : Int} {s : Store} {ls : List Listed}

theorem eq_filter_of_found (h : t.found side time s = .ok ls) :
    ls = (t.matching s).filter fun m => t.liesOn side time m.entry := by
  unfold found at h
  dsimp only at h
  split at h
  · rw [Condition.eq_filter_of_select h, List.filter_filter, matching, List.filter_filter]
    simp only [Condition.all_inTestOrder, Bool.and_comm]
  · obtain ⟨found, hfound, rfl⟩ := exceptMap_eq_ok_iff.1 h
    rw [Condition.eq_filter_of_select hfound]
    simp only [Condition.all_inTestOrder]
    rfl

end Trail

namespace Action

variable {t : Trail} {s : Session}

/-- Looking on one side leaves the session as it is, and finds the nearest matching entry there if it
finds out at all. -/
theorem exists_perform_neighbour (t : Trail) (side : Side) (time : Int) (s : Session) :
    ∃ answer, (neighbour t side time).perform s = (answer, s)
      ∧ ∀ x, answer = .ok x → x = (t.nearest? side ((t.matching s.store).filter fun m =>
          t.liesOn side time m.entry)).map Listed.sibling := by
  unfold neighbour
  rw [perform_readWithin]
  cases s.refusal? (.select listingTables) t.extent with
  | some fault => exact ⟨_, rfl, fun x h => nomatch h⟩
  | none =>
      refine ⟨_, rfl, fun x h => ?_⟩
      cases hfound : t.found side time s.store with
      | error fault =>
          rw [Trail.neighbour?, hfound] at h
          cases h
      | ok ls =>
          rw [Trail.neighbour?, hfound] at h
          rw [← Trail.eq_filter_of_found hfound]
          exact (Except.ok.inj h).symm

theorem exists_perform_ascendingNeighbours (hs : s.Ready) {time : Int}
    (htime : t.anchorTime? s.store = some time) :
    ∃ answer, (ascendingNeighbours t).perform s = (answer, s)
      ∧ ∀ before after, answer = .ok (before, after) →
        ∀ side : Side, side.pick before after = (t.nearest? side ((t.matching s.store).filter fun m =>
          t.liesOn side time m.entry)).map Listed.sibling := by
  obtain ⟨before, hbefore, hfirst⟩ := exists_perform_neighbour t .before time s
  obtain ⟨after, hafter, hsecond⟩ := exists_perform_neighbour t .after time s
  have hperform : (ascendingNeighbours t).perform s
      = (do return (← before, ← after), s) := by
    rw [perform_ascendingNeighbours_eq hs, htime]
    dsimp only
    rw [perform_bind, hbefore]
    cases before with
    | error e => rfl
    | ok x =>
        dsimp only
        rw [perform_bind, hafter]
        cases after with
        | error e => rfl
        | ok y => rfl
  refine ⟨_, hperform, fun x y h side => ?_⟩
  cases before with
  | error e => cases h
  | ok x =>
      cases after with
      | error e => cases h
      | ok y =>
          cases h
          cases side with
          | before => exact hfirst x rfl
          | after => exact hsecond y rfl

/-- What is read in the transaction is given out in the order of the listing. -/
theorem perform_neighbours_eq (hs : s.Ready)
    {answer : Except StoreError (Option Sibling × Option Sibling)}
    (h : (ascendingNeighbours t).perform s = (answer, s)) :
    (neighbours t).perform s
      = (answer.map fun pair => t.direction.arrange pair.1 pair.2, s) := by
  cases answer with
  | ok pair => exact perform_neighbours hs h
  | error e =>
      have hopen : s.access.isOpen = true := by rw [hs]
      unfold neighbours
      rw [perform_bind, perform_transaction, if_pos hopen, h]
      rfl

/-- An anchor that the user does not have has no neighbours, whatever the trail asks for. -/
theorem perform_neighbours_of_anchorTime?_eq_none (hs : s.Ready) (h : t.anchorTime? s.store = none) :
    (neighbours t).perform s = (.ok (none, none), s) := by
  have hnone : (ascendingNeighbours t).perform s = (.ok (none, none), s) := by
    rw [perform_ascendingNeighbours_eq hs, h]
    rfl
  rw [perform_neighbours hs hnone]
  cases t.direction with
  | ascending => rfl
  | descending => rfl

end Action

/-! ## What is met on both sides -/

/-- The entries that a listing of the user with these filters shows. -/
def Store.Shows (s : Store) (user : Id) (fs : List Filter) (e : Entry) : Prop :=
  e ∈ s.entries.rows ∧ e.userId = user ∧ e.status ≠ .known .removed ∧ ∀ f ∈ fs, f.Admits s e

namespace Timeline

/-- The time of the third entry is strictly between the times of the other two. -/
def Between (tl : Timeline) (a b c : Entry) : Prop :=
  tl.time a < tl.time c ∧ tl.time c < tl.time b ∨ tl.time b < tl.time c ∧ tl.time c < tl.time a

/-- What a reader, who stands at an entry, meets on that side of it among certain entries. -/
structure Meets (tl : Timeline) (side : Side) (a : Entry) (P : Entry → Prop) (x : Option Sibling) :
    Prop where
  isSome_iff : x.isSome = true ↔ ∃ e, P e ∧ tl.LiesOn side a e
  of_some : ∀ y ∈ x, ∃ e, P e ∧ tl.LiesOn side a e ∧ e.id ≠ a.id ∧ y = ⟨e.id, e.title⟩
    ∧ ∀ e', P e' → tl.LiesOn side a e' → ¬ tl.Between a e e'

variable {tl : Timeline} {side : Side} {a e e' : Entry} {P : Entry → Prop} {x : Option Sibling}

theorem not_liesOn_self : ¬ tl.LiesOn side a a := by
  cases side with
  | before => exact Precedes.irrefl
  | after => exact Precedes.irrefl

theorem Nearer.not_between (hside : tl.LiesOn side a e) (h : tl.Nearer side e e') :
    ¬ tl.Between a e e' := by
  cases side with
  | before =>
      unfold Nearer LiesOn Precedes Between at *
      dsimp only at *
      omega
  | after =>
      unfold Nearer LiesOn Precedes Between at *
      dsimp only at *
      omega

/-- The nearest entry on a side is met there. -/
theorem LeadsTo.meets (hid : ∀ e, P e → e.id = a.id → e = a) (h : tl.LeadsTo side a P x) :
    tl.Meets side a P x := by
  cases x with
  | none =>
      refine ⟨⟨fun hsome => absurd hsome Bool.false_ne_true, ?_⟩, fun y hy => nomatch hy⟩
      rintro ⟨e, he, hside⟩
      exact absurd hside (h e he)
  | some y =>
      obtain ⟨e, he, hside, rfl, hnear⟩ := h
      refine ⟨⟨fun _ => ⟨e, he, hside⟩, fun _ => rfl⟩, fun y hy => ?_⟩
      refine ⟨e, he, hside, fun heq => ?_, (Option.some.inj hy).symm, fun e' he' hside' => ?_⟩
      · rw [hid e he heq] at hside
        exact not_liesOn_self hside
      · exact (hnear e' he' hside').not_between hside

end Timeline

namespace Trail

variable {s : Session} {user : Id} {tl : Timeline} {d : Direction} {fs : List Filter} {a : Entry}

/-- The answer for an anchor of the user, in either direction, leads to the nearest entries that the
listing shows on both sides. -/
theorem exists_answer (hs : Reachable s) (ha : a ∈ s.store.entries.rows) (huser : a.userId = user)
    (tl : Timeline) (fs : List Filter) :
    ∃ answer : Except StoreError (Option Sibling × Option Sibling),
      (∀ d, (Action.neighbours (filtered user a.id tl d fs)).perform s
        = (answer.map fun pair => d.arrange pair.1 pair.2, s))
      ∧ ∀ before after, answer = .ok (before, after) → ∀ side : Side,
        tl.LeadsTo side a (s.store.Shows user fs) (side.pick before after) := by
  have htime : (filtered user a.id tl .ascending fs).anchorTime? s.store = some (tl.time a) := by
    rw [filtered_eq]
    exact anchorTime?_anchoredAt
      (t := { user, anchor := a.id, timeline := tl, direction := .ascending }) hs.integrity ha huser
  obtain ⟨answer, hperform, hpick⟩ := Action.exists_perform_ascendingNeighbours hs.ready htime
  refine ⟨answer, fun d => ?_, fun before after hanswer side => ?_⟩
  · -- the direction plays no part before the answer is given out
    have hsame : (Action.ascendingNeighbours (filtered user a.id tl d fs)).perform s
        = (answer, s) := by
      rw [filtered_eq] at hperform ⊢
      exact hperform
    rw [Action.perform_neighbours_eq hs.ready hsame, filtered_eq]
  · obtain ⟨l, hl, rfl⟩ := hs.integrity.exists_listed ha
    have hleads := leadsTo_nearestTo (t := filtered user l.entry.id tl .ascending fs) hs.integrity
      (P := s.store.Shows user fs) (fun e he => he.1) (fun m hm => by
        rw [mem_matching_filtered hs.integrity, Store.Shows]
        simp only [hm, (Store.of_mem_listed hm).1, true_and]) side l
    rw [hpick before after hanswer side]
    rw [nearestTo, anchoredAt_filtered] at hleads
    rw [filtered_eq] at hleads ⊢
    exact hleads

end Trail

/-- In a reachable session and for any filters, take an entry of the user, on the listing or not. In
either direction the answer is the same but for the order, there is one within the limits of the engine,
and whenever there is one the reader meets, on both sides, what the listing shows there; never the same
entry twice. Anything else as an anchor has no neighbours. -/
theorem Reachable.meets_neighbours {s : Session} (hs : Reachable s) (user : Id) (tl : Timeline)
    (fs : List Filter) :
    (∀ a ∈ s.store.entries.rows, a.userId = user →
      ∃ answer : Except StoreError (Option Sibling × Option Sibling),
        (∀ d, (Action.neighbours (Trail.filtered user a.id tl d fs)).perform s
          = (answer.map fun pair => d.arrange pair.1 pair.2, s))
        ∧ (∀ d, (Trail.filtered user a.id tl d fs).WithinLimits → ∃ pair, answer = .ok pair)
        ∧ ∀ before after, answer = .ok (before, after) →
          (∀ side : Side, tl.Meets side a (s.store.Shows user fs) (side.pick before after))
            ∧ ∀ x ∈ before, ∀ y ∈ after, x.id ≠ y.id)
      ∧ ∀ anchor, (∀ e ∈ s.store.entries.rows, e.id = anchor → e.userId ≠ user) →
        ∀ d, (Action.neighbours (Trail.filtered user anchor tl d fs)).perform s
          = (.ok (none, none), s) := by
  constructor
  · intro a ha huser
    obtain ⟨answer, hperform, hleads⟩ := Trail.exists_answer hs ha huser tl fs
    have hdistinct := hs.integrity.entries.distinct
    have hmeets : ∀ before after, answer = .ok (before, after) → ∀ side : Side,
        tl.Meets side a (s.store.Shows user fs) (side.pick before after) := fun _ _ h side =>
      (hleads _ _ h side).meets fun e he => hdistinct.eq_of_eq he.1 ha
    refine ⟨answer, hperform, fun d ht => ?_, fun before after h => ⟨hmeets _ _ h, ?_⟩⟩
    · obtain ⟨pair, hpair⟩ := Action.exists_perform_neighbours hs.ready ht
      rw [hperform d] at hpair
      cases answer with
      | error e => cases hpair
      | ok pair => exact ⟨pair, rfl⟩
    · intro x hx y hy hid
      obtain ⟨e, he, hbefore, -, rfl, -⟩ := (hmeets _ _ h .before).of_some x hx
      obtain ⟨e', he', hafter, -, rfl, -⟩ := (hmeets _ _ h .after).of_some y hy
      have hsame : e = e' := hdistinct.eq_of_eq he.1 he'.1 hid
      rw [← hsame] at hafter
      exact Timeline.Precedes.asymm hbefore hafter
  · intro anchor hanchor d
    refine Action.perform_neighbours_of_anchorTime?_eq_none hs.ready ?_
    rw [Trail.filtered_eq]
    refine Option.map_eq_none_iff.2 (List.find?_eq_none.2 fun e he hp => ?_)
    obtain ⟨hid, howner⟩ := Bool.and_eq_true_iff.1 hp
    exact hanchor e he (beq_iff_eq.1 hid) (beq_iff_eq.1 howner)

/-- Of three entries the one in the middle is removed. Its reader meets the unread ones on both sides,
and to anybody else it is no anchor. -/
theorem Reachable.meets_neighbours_removed :
    ∃ s, Reachable s ∧ ∃ a ∈ s.store.entries.rows, a.status = .known .removed
      ∧ (∃ before after, before.map (·.id) = some 1 ∧ after.map (·.id) = some 2
        ∧ (∀ d, (Action.neighbours (Trail.filtered 1 a.id .publication d [.status .unread])).perform s
          = (.ok (d.arrange before after), s))
        ∧ ∀ side : Side, Timeline.publication.Meets side a (s.store.Shows 1 [.status .unread])
          (side.pick before after))
      ∧ ∀ d, (Action.neighbours (Trail.filtered 2 a.id .publication d [.status .unread])).perform s
        = (.ok (none, none), s) := by
  let s := Session.published.run [.setStatus 1 [3] .removed]
  have hs : Reachable s := (Reachable.subscribed.run _).run _
  have howners : ∀ e ∈ s.store.entries.rows, e.userId ≠ 2 := by decide +kernel
  obtain ⟨a, ha, huser, hstatus, hbetween⟩ : ∃ a ∈ s.store.entries.rows, a.userId = 1
      ∧ a.status = .known .removed
      ∧ ((Action.neighbours (Trail.filtered 1 a.id .publication .ascending
          [.status .unread])).perform s).1 = .ok (some ⟨1, ""⟩, some ⟨2, ""⟩) := by decide +kernel
  obtain ⟨answer, hanswer, -, hmeets⟩ :=
    (hs.meets_neighbours 1 .publication [.status .unread]).1 a ha huser
  obtain ⟨-, hforeign⟩ := hs.meets_neighbours 2 .publication [.status .unread]
  have hpair : answer = .ok (some ⟨1, ""⟩, some ⟨2, ""⟩) := by
    rw [hanswer .ascending] at hbetween
    cases answer with
    | error e => cases hbetween
    | ok pair => exact hbetween
  refine ⟨s, hs, a, ha, hstatus, ⟨some ⟨1, ""⟩, some ⟨2, ""⟩, rfl, rfl, fun d => ?_, ?_⟩,
    hforeign a.id fun e he _ => howners e he⟩
  · rw [hanswer d, hpair]
    rfl
  · exact (hmeets _ _ hpair).1

end FeedStore

import FeedStore.Proofs.Pagination
import Mathlib.Data.List.Chain

/-!
# Going along a trail

Going from entry to entry can be undone and misses nothing exactly when every step leads to
the entry that the listing shows next (`Along.navigable_iff`). A step that does not is one at
which the search prefers an entry that was created earlier to one with a larger identifier;
with three entries or more, such a preference always shows (`Trail.Lists.stepwise_iff`). So
navigation is sound on tidy listings and on those of at most two entries, and on no other
(`navigable_iff_tidy`).
-/

namespace FeedStore

/-! ## Walks -/

/-- Going on from an entry, as long as there is a next one, visits these. -/
inductive Walk (next : Id → Option Id) : Id → List Id → Prop
  | last {a : Id} (h : next a = none) : Walk next a [a]
  | step {a b : Id} {ids : List Id} (h : next a = some b) (hw : Walk next b ids) :
      Walk next a (a :: ids)

/-- Steps forward lead further down the list, and only the first entry has none before it. -/
structure Along (ids : List Id) (next previous : Id → Option Id) : Prop where
  ahead : ∀ front a back, ids = front ++ a :: back → ∀ b, next a = some b → b ∈ back
  first : ∀ front a back, ids = front ++ a :: back → (previous a = none ↔ front = [])

/-- Every step leads to the next entry of the list, and back. -/
def Consecutive (ids : List Id) (next previous : Id → Option Id) : Prop :=
  ∀ front a b back, ids = front ++ a :: b :: back → next a = some b ∧ previous b = some a

namespace Along

variable {ids : List Id} {next previous : Id → Option Id}

/-- Exactly one entry of a list that is not empty has none before it. -/
theorem existsUnique_first (h : Along ids next previous) (hne : ids ≠ []) :
    ∃! a, a ∈ ids ∧ previous a = none := by
  obtain ⟨first, rest, rfl⟩ := List.exists_cons_of_ne_nil hne
  refine ⟨first, ⟨List.mem_cons_self, (h.first [] first rest rfl).2 rfl⟩, fun a ⟨ha, hnone⟩ => ?_⟩
  obtain ⟨front, back, hids⟩ := List.append_of_mem ha
  rw [(h.first front a back hids).1 hnone, List.nil_append] at hids
  exact (List.cons.inj hids).1.symm

theorem sublist_of_walk (h : Along ids next previous) {a : Id} {walk : List Id}
    (hw : Walk next a walk) {front back : List Id} (hids : ids = front ++ a :: back) :
    walk.Sublist (a :: back) := by
  induction hw generalizing front back with
  | last _ => exact (List.nil_sublist back).cons_cons _
  | @step a b walk hnext _ ih =>
      obtain ⟨front', back', rfl⟩ := List.append_of_mem (h.ahead front a back hids b hnext)
      have hids' : ids = (front ++ a :: front') ++ b :: back' := by
        rw [hids, List.append_assoc, List.cons_append]
      exact ((ih hids').trans (List.sublist_append_right front' _)).cons_cons a

theorem next_of_walk {a b c : Id} {walk front back : List Id} (hw : Walk next a walk)
    (hwalk : walk = front ++ b :: c :: back) : next b = some c := by
  induction hw generalizing front with
  | last _ =>
      have hlen := congrArg List.length hwalk
      simp only [List.length_cons, List.length_nil, List.length_append] at hlen
      omega
  | step hnext hw ih =>
      cases front with
      | nil =>
          obtain ⟨rfl, rfl⟩ := List.cons.inj hwalk
          cases hw with
          | last _ => exact hnext
          | step _ _ => exact hnext
      | cons x front => exact ih (List.cons.inj hwalk).2

/-- The whole list is walked when every step leads to its next entry. -/
theorem walk_of_consecutive (h : Along ids next previous) (hstep : Consecutive ids next previous)
    {front back : List Id} {a : Id} (hids : ids = front ++ a :: back) :
    Walk next a (a :: back) := by
  induction back generalizing front a with
  | nil =>
      cases hn : next a with
      | none => exact .last hn
      | some b =>
          have hmem := h.ahead front a [] hids b hn
          cases hmem
  | cons b back ih =>
      have hids' : ids = (front ++ [a]) ++ b :: back := by
        rw [hids, List.append_assoc, List.singleton_append]
      exact .step (hstep front a b back hids).1 (ih hids')

/-- Steps can be undone and miss nothing exactly when each leads to the next entry of the
list. A walk only ever goes down the list, so one that visits all of it is the list itself. -/
theorem navigable_iff (h : Along ids next previous) :
    ((∀ a ∈ ids, ∀ b, next a = some b → previous b = some a)
      ∧ ∀ a ∈ ids, previous a = none → ∃ walk, Walk next a walk ∧ walk.Perm ids)
    ↔ Consecutive ids next previous := by
  constructor
  · rintro ⟨hundo, hvisit⟩ front a b back hids
    have hne : ids ≠ [] := by
      rw [hids]
      exact List.append_ne_nil_of_right_ne_nil front (List.cons_ne_nil a _)
    obtain ⟨first, rest, hfirst⟩ := List.exists_cons_of_ne_nil hne
    have hmem : first ∈ ids := hfirst ▸ List.mem_cons_self
    obtain ⟨walk, hw, hperm⟩ := hvisit first hmem ((h.first [] first rest hfirst).2 rfl)
    -- the walk from the first entry is a sublist as long as the list itself
    have hsub : walk.Sublist (first :: rest) :=
      h.sublist_of_walk hw (show ids = [] ++ _ from hfirst)
    have hwalk : walk = ids := by
      rw [hfirst]
      exact hsub.eq_of_length (by rw [hperm.length_eq, hfirst])
    have hnext : next a = some b := next_of_walk hw (hwalk.trans hids)
    exact ⟨hnext, hundo a (hids ▸ List.mem_append_right _ List.mem_cons_self) b hnext⟩
  · intro hstep
    refine ⟨fun a ha b hb => ?_, fun a ha hfirst => ?_⟩
    · obtain ⟨front, back, hids⟩ := List.append_of_mem ha
      cases back with
      | nil =>
          have hmem := h.ahead front a [] hids b hb
          cases hmem
      | cons c back =>
          obtain ⟨hnext, hprevious⟩ := hstep front a c back hids
          rw [hb] at hnext
          cases hnext
          exact hprevious
    · obtain ⟨front, back, hids⟩ := List.append_of_mem ha
      have hnil : front = [] := (h.first front a back hids).1 hfirst
      have hwalk : Walk next a (a :: back) := h.walk_of_consecutive hstep hids
      rw [hnil, List.nil_append] at hids
      exact ⟨a :: back, hwalk, by rw [hids]⟩

end Along

/-! ## Steps on a listing -/

namespace Trail

variable {t : Trail} {s : Store} {ls : List Listed}

/-- From the first entry to the second one the time does not go down, nor does the time of
creation while the time stays the same. -/
def Ascends (t : Trail) (a b : Listed) : Prop :=
  t.timeline.time a.entry < t.timeline.time b.entry
    ∨ t.timeline.time a.entry = t.timeline.time b.entry ∧ a.entry.createdAt ≤ b.entry.createdAt

instance : Trans t.Ascends t.Ascends t.Ascends where
  trans h h' := by
    unfold Ascends at *
    omega

/-- The nearest entries of every entry are the ones next to it on the listing. -/
def Stepwise (t : Trail) (s : Store) (ls : List Listed) : Prop :=
  ∀ front a b back, ls = front ++ a :: b :: back →
    t.nearestTo .after a s = some b ∧ t.nearestTo .before b s = some a

namespace Lists

theorem mem_matching (h : t.Lists s ls) {l : Listed} : l ∈ ls ↔ l ∈ t.matching s := h.perm.mem_iff

theorem stepwise_of_tidy (hs : s.Integrity) (h : t.Lists s ls) (ht : t.Tidy s) :
    t.Stepwise s ls := by
  rintro front a b back rfl
  have h' : t.Lists s ((front ++ [a]) ++ b :: back) := by
    rwa [List.append_assoc, List.singleton_append]
  rw [h.nearestTo_after_of_tidy hs ht, h'.nearestTo_before_of_tidy hs ht, List.getLast?_concat]
  exact ⟨rfl, rfl⟩

theorem stepwise_of_length_le_two (h : t.Lists s ls) (hlen : ls.length ≤ 2) :
    t.Stepwise s ls := by
  rintro front a b back rfl
  obtain ⟨rfl, rfl⟩ : front = [] ∧ back = [] := by
    simp only [List.length_append, List.length_cons] at hlen
    exact ⟨List.eq_nil_of_length_eq_zero (by omega), List.eq_nil_of_length_eq_zero (by omega)⟩
  have h' : t.Lists s ([a] ++ b :: []) := h
  constructor
  · cases hn : t.nearestTo .after a s with
    | none => cases h.nearestTo_eq_none.1 hn
    | some m => rw [List.mem_singleton.1 (h.of_nearestTo hn).1]
  · cases hn : t.nearestTo .before b s with
    | none => cases h'.nearestTo_eq_none.1 hn
    | some m => rw [List.mem_singleton.1 (h'.of_nearestTo hn).1]

/-- A step forward to the first of two entries of equal time shows that it was not created
later, and so does a step back to the second one. -/
theorem createdAt_le_of_step {front back : List Listed} {r p q : Listed}
    (h : t.Lists s (front ++ r :: p :: q :: back)) (hstep : t.nearestTo .after r s = some p)
    (heq : t.timeline.time p.entry = t.timeline.time q.entry) :
    p.entry.createdAt ≤ q.entry.createdAt := by
  have hnear := (h.of_nearestTo hstep).2 q (List.mem_cons_of_mem _ List.mem_cons_self)
  rcases hnear with hlt | ⟨-, hlt | ⟨hce, -⟩⟩
  · exact absurd heq (ne_of_lt hlt)
  · exact le_of_lt hlt
  · exact le_of_eq hce

theorem createdAt_le_of_step_back {front back : List Listed} {p q w : Listed}
    (h : t.Lists s ((front ++ [p, q]) ++ w :: back)) (hstep : t.nearestTo .before w s = some q)
    (heq : t.timeline.time p.entry = t.timeline.time q.entry) :
    p.entry.createdAt ≤ q.entry.createdAt := by
  have hmem : p ∈ front ++ [p, q] := List.mem_append_right _ List.mem_cons_self
  have hnear := (h.of_nearestTo hstep).2 p hmem
  rcases hnear with hlt | ⟨-, hlt | ⟨hce, -⟩⟩
  · exact absurd heq (ne_of_lt hlt)
  · exact le_of_lt hlt
  · exact le_of_eq hce.symm

/-- On a stepwise listing of three entries or more, entries that follow each other ascend: one
of the two has another neighbour, and the step between that one and them skips neither. -/
theorem ascends_of_stepwise (h : t.Lists s ls) (hstep : t.Stepwise s ls) (hlen : 2 < ls.length)
    {front back : List Listed} {p q : Listed} (hls : ls = front ++ p :: q :: back) :
    t.Ascends p q := by
  subst hls
  have hp : t.timeline.Precedes p.entry q.entry :=
    (List.pairwise_cons.1 (List.pairwise_append.1 h.sorted).2.1).1 q List.mem_cons_self
  rcases hp with hlt | ⟨heq, -⟩
  · exact Or.inl hlt
  · refine Or.inr ⟨heq, ?_⟩
    -- a third entry stands before the two, or else after them
    rcases List.eq_nil_or_concat front with rfl | ⟨front', r, rfl⟩
    · cases back with
      | nil => simp at hlen
      | cons w back =>
          have h' : t.Lists s (([] ++ [p, q]) ++ w :: back) := h
          exact createdAt_le_of_step_back h' (hstep [p] q w back rfl).2 heq
    · rw [List.concat_eq_append, List.append_assoc, List.singleton_append] at h
      refine createdAt_le_of_step h (hstep front' r p (q :: back) ?_).1 heq
      rw [List.concat_eq_append, List.append_assoc, List.singleton_append]

theorem tidy_of_stepwise (h : t.Lists s ls) (hstep : t.Stepwise s ls) (hlen : 2 < ls.length) :
    t.Tidy s := by
  have hchain : ls.IsChain t.Ascends :=
    List.isChain_iff_forall_rel_of_append_cons_cons.2 fun _ _ _ _ hls =>
      h.ascends_of_stepwise hstep hlen hls
  have hpair : ls.Pairwise t.Ascends := List.isChain_iff_pairwise.1 hchain
  intro a ha b hb heq hid
  obtain ⟨front, back, rfl⟩ := List.append_of_mem (h.mem_matching.2 hb)
  have hmem : a ∈ back := (h.mem_part .after).2 ⟨ha, Or.inr ⟨heq.symm, hid⟩⟩
  rcases (List.pairwise_cons.1 (List.pairwise_append.1 hpair).2.1).1 a hmem with hlt | ⟨-, hle⟩
  · exact absurd heq.symm (ne_of_lt hlt)
  · exact hle

theorem stepwise_iff (hs : s.Integrity) (h : t.Lists s ls) :
    t.Stepwise s ls ↔ t.Tidy s ∨ ls.length ≤ 2 := by
  constructor
  · intro hstep
    by_cases hlen : ls.length ≤ 2
    · exact Or.inr hlen
    · exact Or.inl (h.tidy_of_stepwise hstep (not_le.1 hlen))
  · rintro (ht | hlen)
    · exact h.stepwise_of_tidy hs ht
    · exact h.stepwise_of_length_le_two hlen

end Lists

end Trail

/-! ## Steps of a reader -/

namespace Direction

/-- The side on which the next entry of a listing with this direction lies. -/
def ahead : Direction → Side
  | ascending => .after
  | descending => .before

/-- The side on which the previous entry lies. -/
def behind : Direction → Side
  | ascending => .before
  | descending => .after

/-- What is shown before and after an entry lies on the two sides of it. -/
theorem of_shown_eq {d : Direction} {ls front back : List Listed} {l : Listed}
    (h : d.shown ls = front ++ l :: back) : ∃ f b, ls = f ++ l :: b
      ∧ (∀ m, m ∈ d.ahead.part f b ↔ m ∈ back) ∧ ∀ m, m ∈ d.behind.part f b ↔ m ∈ front := by
  cases d with
  | ascending => exact ⟨front, back, h, fun m => Iff.rfl, fun m => Iff.rfl⟩
  | descending =>
      have h : ls = back.reverse ++ l :: front.reverse := by
        rw [← Direction.shown_shown .descending ls, h]
        simp [shown]
      exact ⟨back.reverse, front.reverse, h, fun m => List.mem_reverse, fun m => List.mem_reverse⟩

end Direction

namespace Trail

/-- The entry that is given as the one before this one. -/
def previous? (t : Trail) (s : Session) (id : Id) : Option Id :=
  match ((Action.neighbours (t.anchoredAt id)).perform s).1 with
  | .ok (x, _) => x.map (·.id)
  | .error _ => none

/-- The entry that is given as the one after this one. -/
def next? (t : Trail) (s : Session) (id : Id) : Option Id :=
  match ((Action.neighbours (t.anchoredAt id)).perform s).1 with
  | .ok (_, x) => x.map (·.id)
  | .error _ => none

/-- Asking for neighbours is always answered, steps forward from matching entries can be
undone, and going forward from the matching entry that has none before it visits every
matching entry once. -/
structure Navigable (t : Trail) (s : Session) : Prop where
  answered : ∀ id, ∃ pair, (Action.neighbours (t.anchoredAt id)).perform s = (.ok pair, s)
  begins : t.matching s.store ≠ [] →
    ∃! a, a ∈ (t.matching s.store).map (·.entry.id) ∧ t.previous? s a = none
  undone : ∀ a ∈ (t.matching s.store).map (·.entry.id), ∀ b, t.next? s a = some b →
    t.previous? s b = some a
  complete : ∀ a ∈ (t.matching s.store).map (·.entry.id), t.previous? s a = none →
    ∃ walk, Walk (t.next? s) a walk ∧ walk.Perm ((t.matching s.store).map (·.entry.id))

variable {t : Trail} {s : Session} {ls : List Listed}

theorem next?_of_mem (hs : Reachable s) (ht : t.WithinLimits) {l : Listed}
    (hl : l ∈ t.matching s.store) :
    t.next? s l.entry.id = (t.nearestTo t.direction.ahead l s.store).map (·.entry.id) := by
  unfold next?
  rw [Action.perform_neighbours_of_mem hs ht hl]
  cases t.direction with
  | ascending => exact Option.map_map _ _ _
  | descending => exact Option.map_map _ _ _

theorem previous?_of_mem (hs : Reachable s) (ht : t.WithinLimits) {l : Listed}
    (hl : l ∈ t.matching s.store) :
    t.previous? s l.entry.id = (t.nearestTo t.direction.behind l s.store).map (·.entry.id) := by
  unfold previous?
  rw [Action.perform_neighbours_of_mem hs ht hl]
  cases t.direction with
  | ascending => exact Option.map_map _ _ _
  | descending => exact Option.map_map _ _ _

/-- The steps of a reader go along the listing as it is shown. -/
theorem Lists.along (hs : Reachable s) (ht : t.WithinLimits) (h : t.Lists s.store ls) :
    Along ((t.direction.shown ls).map (·.entry.id)) (t.next? s) (t.previous? s) := by
  have hsplit : ∀ front a back, (t.direction.shown ls).map (·.entry.id) = front ++ a :: back →
      ∃ l lf lb, l.entry.id = a ∧ lf.map (·.entry.id) = front ∧ lb.map (·.entry.id) = back
        ∧ t.direction.shown ls = lf ++ l :: lb ∧ l ∈ t.matching s.store := by
    intro front a back hids
    obtain ⟨lf, lr, hls, rfl, hlr⟩ := List.map_eq_append_iff.1 hids
    obtain ⟨l, lb, rfl, rfl, rfl⟩ := List.map_eq_cons_iff.1 hlr
    refine ⟨l, lf, lb, rfl, rfl, rfl, hls, ?_⟩
    rw [← h.mem_matching, ← Direction.mem_shown (d := t.direction), hls]
    exact List.mem_append_right _ List.mem_cons_self
  refine ⟨fun front a back hids b hb => ?_, fun front a back hids => ?_⟩
  · obtain ⟨l, lf, lb, rfl, rfl, rfl, hls, hl⟩ := hsplit front a back hids
    obtain ⟨f, b', rfl, hahead, -⟩ := Direction.of_shown_eq hls
    rw [next?_of_mem hs ht hl] at hb
    obtain ⟨m, hm, rfl⟩ := Option.map_eq_some_iff.1 hb
    exact List.mem_map_of_mem ((hahead m).1 (h.of_nearestTo hm).1)
  · obtain ⟨l, lf, lb, rfl, rfl, rfl, hls, hl⟩ := hsplit front a back hids
    obtain ⟨f, b', rfl, -, hbehind⟩ := Direction.of_shown_eq hls
    rw [previous?_of_mem hs ht hl, Option.map_eq_none_iff, h.nearestTo_eq_none, List.map_eq_nil_iff,
      List.eq_nil_iff_forall_not_mem, List.eq_nil_iff_forall_not_mem]
    simp only [hbehind]

/-- A listing is stepwise in the order in which it is shown, or else in neither. -/
theorem stepwise_iff_shown (d : Direction) {s : Store} : t.Stepwise s ls
    ↔ ∀ front a b back, d.shown ls = front ++ a :: b :: back →
      t.nearestTo d.ahead a s = some b ∧ t.nearestTo d.behind b s = some a := by
  cases d with
  | ascending => exact Iff.rfl
  | descending =>
      constructor
      · intro h front a b back hls
        have hls : ls = back.reverse ++ b :: a :: front.reverse := by
          rw [← Direction.shown_shown .descending ls, hls]
          simp [Direction.shown]
        exact (h _ b a _ hls).symm
      · rintro h front a b back rfl
        have hls : Direction.descending.shown (front ++ a :: b :: back)
            = back.reverse ++ b :: a :: front.reverse := by
          simp [Direction.shown]
        exact (h _ b a _ hls).symm

theorem nearestTo_eq_some_iff (hs : s.store.Integrity) {side : Side} {a b : Listed}
    (hb : b ∈ t.matching s.store) :
    (t.nearestTo side a s.store).map (·.entry.id) = some b.entry.id
      ↔ t.nearestTo side a s.store = some b := by
  constructor
  · intro h
    obtain ⟨m, hm, hid⟩ := Option.map_eq_some_iff.1 h
    have hmem : m ∈ t.matching s.store := (List.mem_filter.1 (of_nearest? hm).1).1
    rw [hm, eq_of_id_eq hs hb hmem hid]
  · intro h
    rw [h]
    rfl

/-- The steps of a reader are those of the listing. -/
theorem Lists.stepwise_iff_steps (hs : Reachable s) (ht : t.WithinLimits)
    (h : t.Lists s.store ls) :
    Consecutive ((t.direction.shown ls).map (·.entry.id)) (t.next? s) (t.previous? s)
      ↔ t.Stepwise s.store ls := by
  have hmem : ∀ {front back : List Listed} {a b : Listed},
      t.direction.shown ls = front ++ a :: b :: back →
        a ∈ t.matching s.store ∧ b ∈ t.matching s.store := by
    intro front back a b hls
    have hshown : ∀ l ∈ front ++ a :: b :: back, l ∈ t.matching s.store := fun l hl => by
      rw [← h.mem_matching, ← Direction.mem_shown (d := t.direction), hls]
      exact hl
    exact ⟨hshown a (List.mem_append_right _ List.mem_cons_self),
      hshown b (List.mem_append_right _ (List.mem_cons_of_mem _ List.mem_cons_self))⟩
  have hstep : ∀ {front back : List Listed} {a b : Listed},
      t.direction.shown ls = front ++ a :: b :: back →
        ((t.next? s a.entry.id = some b.entry.id ∧ t.previous? s b.entry.id = some a.entry.id)
          ↔ t.nearestTo t.direction.ahead a s.store = some b
            ∧ t.nearestTo t.direction.behind b s.store = some a) := by
    intro front back a b hls
    obtain ⟨ha, hb⟩ := hmem hls
    rw [next?_of_mem hs ht ha, previous?_of_mem hs ht hb, nearestTo_eq_some_iff hs.integrity hb,
      nearestTo_eq_some_iff hs.integrity ha]
  rw [stepwise_iff_shown t.direction]
  constructor
  · intro hsteps front a b back hls
    refine (hstep hls).1 (hsteps (front.map (·.entry.id)) _ _ (back.map (·.entry.id)) ?_)
    rw [hls, List.map_append, List.map_cons, List.map_cons]
  · intro hsteps front a b back hids
    obtain ⟨lf, lr, hls, rfl, hlr⟩ := List.map_eq_append_iff.1 hids
    obtain ⟨l, lr', rfl, rfl, hlr'⟩ := List.map_eq_cons_iff.1 hlr
    obtain ⟨m, lb, rfl, rfl, rfl⟩ := List.map_eq_cons_iff.1 hlr'
    exact (hstep hls).2 (hsteps lf l m lb hls)

end Trail

open Trail

/-- Going along a trail can be undone and misses nothing exactly when its listing is tidy or
has at most two entries. -/
theorem navigable_iff_tidy {t : Trail} {s : Session} (hs : Reachable s) (ht : t.WithinLimits) :
    t.Navigable s ↔ t.Tidy s.store ∨ (t.matching s.store).length ≤ 2 := by
  obtain ⟨ls, h⟩ : ∃ ls, t.Lists s.store ls := ⟨_, Action.lists_sort hs⟩
  have hperm : ((t.direction.shown ls).map (·.entry.id)).Perm
      ((t.matching s.store).map (·.entry.id)) := ((Direction.shown_perm _ ls).trans h.perm).map _
  rw [← h.perm.length_eq, ← h.stepwise_iff hs.integrity, ← h.stepwise_iff_steps hs ht,
    ← (h.along hs ht).navigable_iff]
  have hanswered : ∀ id, ∃ pair, (Action.neighbours (t.anchoredAt id)).perform s = (.ok pair, s) :=
    fun id => Action.exists_perform_neighbours hs.ready ⟨ht.values, ht.depth, ht.patterns⟩
  have hbegins : t.matching s.store ≠ [] →
      ∃! a, a ∈ (t.matching s.store).map (·.entry.id) ∧ t.previous? s a = none := by
    intro hne
    have hids : (t.direction.shown ls).map (·.entry.id) ≠ [] := fun hnil =>
      hne (List.map_eq_nil_iff.1 (List.perm_nil.1 (hnil ▸ hperm.symm)))
    simpa only [hperm.mem_iff] using (h.along hs ht).existsUnique_first hids
  constructor
  · intro hn
    refine ⟨fun a ha => hn.undone a (hperm.mem_iff.1 ha), fun a ha hfirst => ?_⟩
    obtain ⟨walk, hwalk, hall⟩ := hn.complete a (hperm.mem_iff.1 ha) hfirst
    exact ⟨walk, hwalk, hall.trans hperm.symm⟩
  · rintro ⟨hundo, hvisit⟩
    refine ⟨hanswered, hbegins, fun a ha => hundo a (hperm.mem_iff.2 ha), fun a ha hfirst => ?_⟩
    obtain ⟨walk, hwalk, hall⟩ := hvisit a (hperm.mem_iff.2 ha) hfirst
    exact ⟨walk, hwalk, hall.trans hperm⟩

/-- Three entries of one time of publication, stored one after the other. -/
def Session.republished : Session :=
  Session.subscribed.run
    [.setClock 10, .refreshFeed 1 1 [.bare "a" 5] false, .setClock 20,
      .refreshFeed 1 1 [.bare "b" 5] false, .setClock 30, .refreshFeed 1 1 [.bare "c" 5] false]

/-- By time of creation a reader gets to all of them. -/
theorem navigable_republished_by_creation :
    Reachable .republished
      ∧ Trail.Navigable { user := 1, anchor := 1, timeline := .creation, direction := .ascending }
          .republished := by
  have hs : Reachable .republished := Reachable.subscribed.run _
  refine ⟨hs, (navigable_iff_tidy hs
    ⟨by decide +kernel, by decide +kernel, by decide +kernel⟩).2 ?_⟩
  unfold Tidy
  exact Or.inl (by decide +kernel)

/-- By time of publication the step forward from the second entry leads to the first one, but
the step back from there leads to the third. -/
theorem not_forall_navigable :
    ¬ ∀ (t : Trail) (s : Session), Reachable s → t.WithinLimits → t.Navigable s := by
  intro hall
  have hn := hall { user := 1, anchor := 1, timeline := .publication, direction := .ascending }
    .republished (Reachable.subscribed.run _)
    ⟨by decide +kernel, by decide +kernel, by decide +kernel⟩
  have hback := hn.undone 2 (by decide +kernel) 1 (by rfl)
  have hthird : ({ user := 1, anchor := 1, timeline := .publication, direction := .ascending } :
      Trail).previous? .republished 1 = some 3 := by rfl
  rw [hthird] at hback
  cases hback

end FeedStore

import FeedStore.Operation.Listing
import FeedStore.Proofs.Integrity

/-!
# Neighbours on a listing

The matching entries of a trail, sorted by its time and then by descending identifier, are its
listing. The neighbours of an entry are searched for on its two sides, among all matching
entries, and the search prefers the time of creation to the identifier
(`Trail.compareNearness`), which the listing does not ask for. Where the two agree
(`Trail.Tidy`), the nearest entries on both sides are the ones next to it on the listing.
-/

namespace FeedStore

/-! ## Order -/

namespace Timeline

/-- The first entry comes before the second one on an ascending listing. -/
def Precedes (tl : Timeline) (a b : Entry) : Prop :=
  tl.time a < tl.time b ∨ tl.time a = tl.time b ∧ b.id < a.id

/-- Of two entries on the given side of a third one, the first is at least as near. -/
def Nearer (tl : Timeline) (side : Side) (a b : Entry) : Prop :=
  match side with
  | .before => tl.time b < tl.time a ∨ tl.time a = tl.time b
      ∧ (b.createdAt < a.createdAt ∨ a.createdAt = b.createdAt ∧ a.id ≤ b.id)
  | .after => tl.time a < tl.time b ∨ tl.time a = tl.time b
      ∧ (a.createdAt < b.createdAt ∨ a.createdAt = b.createdAt ∧ b.id ≤ a.id)

/-- The second entry lies on that side of the first one. -/
def LiesOn (tl : Timeline) (side : Side) (a b : Entry) : Prop :=
  match side with
  | .before => tl.Precedes b a
  | .after => tl.Precedes a b

variable {tl : Timeline} {side : Side} {a b c : Entry}

theorem Precedes.asymm (h : tl.Precedes a b) : ¬ tl.Precedes b a := by
  unfold Precedes Id at *
  omega

theorem Precedes.irrefl : ¬ tl.Precedes a a := fun h => h.asymm h

theorem Precedes.trans (h : tl.Precedes a b) (h' : tl.Precedes b c) : tl.Precedes a c := by
  unfold Precedes Id at *
  omega

theorem Nearer.refl : tl.Nearer side a a := by
  cases side with
  | before => exact Or.inr ⟨rfl, Or.inr ⟨rfl, le_rfl⟩⟩
  | after => exact Or.inr ⟨rfl, Or.inr ⟨rfl, le_rfl⟩⟩

theorem Nearer.trans (h : tl.Nearer side a b) (h' : tl.Nearer side b c) : tl.Nearer side a c := by
  cases side with
  | before =>
      unfold Nearer Id at *
      dsimp only at *
      omega
  | after =>
      unfold Nearer Id at *
      dsimp only at *
      omega

theorem Nearer.total : tl.Nearer side a b ∨ tl.Nearer side b a := by
  cases side with
  | before =>
      unfold Nearer Id
      dsimp only
      omega
  | after =>
      unfold Nearer Id
      dsimp only
      omega

/-- Two entries that are equally near are one. -/
theorem Nearer.antisymm (h : tl.Nearer side a b) (h' : tl.Nearer side b a) : a.id = b.id := by
  cases side with
  | before =>
      unfold Nearer Id at *
      dsimp only at *
      omega
  | after =>
      unfold Nearer Id at *
      dsimp only at *
      omega

end Timeline

/-- Of what a listing shows before and after an entry, the part on the given side. -/
def Side.part (side : Side) (front back : List Listed) : List Listed :=
  match side with
  | .before => front
  | .after => back

namespace Trail

variable {t : Trail} {side : Side}

theorem isLE_compareNearness (a b : Entry) :
    (t.compareNearness side a b).isLE = true ↔ t.timeline.Nearer side a b := by
  have hlex : ∀ x y z u v w : Int,
      ((compare x y).then ((compare z u).then (compare v w))).isLE = true
        ↔ x < y ∨ x = y ∧ (z < u ∨ z = u ∧ v ≤ w) := fun x y z u v w => by
    simp only [Ordering.isLE_then_iff_or, Std.isLE_compare, Std.compare_eq_lt, compare_eq_iff_eq]
  cases side with
  | before =>
      refine (hlex _ _ _ _ _ _).trans ?_
      unfold Timeline.Nearer Id
      dsimp only
      omega
  | after => exact hlex _ _ _ _ _ _

/-! ## The nearest of a list -/

theorem of_foldl_nearer (ls : List Listed) (l : Listed) :
    ls.foldl (t.nearer side) l ∈ l :: ls
      ∧ ∀ m ∈ l :: ls, t.timeline.Nearer side (ls.foldl (t.nearer side) l).entry m.entry := by
  induction ls generalizing l with
  | nil =>
      refine ⟨List.mem_singleton_self l, fun m hm => ?_⟩
      rw [List.mem_singleton.1 hm]
      exact .refl
  | cons n ls ih =>
      -- the nearer of the first two goes on against the rest
      have hpick : (t.nearer side l n = l ∨ t.nearer side l n = n)
          ∧ t.timeline.Nearer side (t.nearer side l n).entry l.entry
          ∧ t.timeline.Nearer side (t.nearer side l n).entry n.entry := by
        unfold nearer
        by_cases hle : (t.compareNearness side l.entry n.entry).isLE = true
        · rw [if_pos hle]
          exact ⟨Or.inl rfl, .refl, isLE_compareNearness _ _ |>.1 hle⟩
        · rw [if_neg hle]
          refine ⟨Or.inr rfl, ?_, .refl⟩
          exact Timeline.Nearer.total.resolve_left fun h => hle ((isLE_compareNearness _ _).2 h)
      obtain ⟨hmem, hmin⟩ := ih (t.nearer side l n)
      obtain ⟨heq, hl, hn⟩ := hpick
      have hbest := hmin _ List.mem_cons_self
      rw [List.foldl_cons]
      refine ⟨?_, fun m hm => ?_⟩
      · rcases List.mem_cons.1 hmem with hmem | hmem
        · rw [hmem]
          rcases heq with heq | heq
          · rw [heq]
            exact List.mem_cons_self
          · rw [heq]
            exact List.mem_cons_of_mem _ List.mem_cons_self
        · exact List.mem_cons_of_mem _ (List.mem_cons_of_mem _ hmem)
      · rcases List.mem_cons.1 hm with rfl | hm
        · exact hbest.trans hl
        · rcases List.mem_cons.1 hm with rfl | hm
          · exact hbest.trans hn
          · exact hmin m (List.mem_cons_of_mem _ hm)

theorem of_nearest? {ls : List Listed} {l : Listed} (h : t.nearest? side ls = some l) :
    l ∈ ls ∧ ∀ m ∈ ls, t.timeline.Nearer side l.entry m.entry := by
  cases ls with
  | nil => cases h
  | cons n ls =>
      cases h
      exact of_foldl_nearer ls n

theorem nearest?_eq_none {ls : List Listed} : t.nearest? side ls = none ↔ ls = [] := by
  cases ls with
  | nil => exact ⟨fun _ => rfl, fun _ => rfl⟩
  | cons n ls =>
      constructor
      · intro h
        cases h
      · intro h
        cases h

theorem nearest?_eq_some {ls : List Listed} {l : Listed} (hl : l ∈ ls)
    (hmin : ∀ m ∈ ls, t.timeline.Nearer side l.entry m.entry)
    (hd : ∀ m ∈ ls, m.entry.id = l.entry.id → m = l) : t.nearest? side ls = some l := by
  cases h : t.nearest? side ls with
  | none =>
      rw [nearest?_eq_none.1 h] at hl
      cases hl
  | some m =>
      obtain ⟨hm, hnear⟩ := of_nearest? h
      rw [hd m hm ((hnear l hl).antisymm (hmin m hm))]

/-! ## Listings -/

/-- The same trail seen from another anchor. -/
def anchoredAt (t : Trail) (id : Id) : Trail := { t with anchor := id }

/-- The entries that the trail goes along, in the order of their identifiers. -/
def matching (t : Trail) (s : Store) : List Listed :=
  s.listed.filter fun l => t.query.allConditions.all (·.holds l)

/-- The list holds the matching entries as an ascending listing shows them. -/
structure Lists (t : Trail) (s : Store) (ls : List Listed) : Prop where
  perm : ls.Perm (t.matching s)
  sorted : ls.Pairwise fun a b => t.timeline.Precedes a.entry b.entry

/-- Of two matching entries with equal times, the one with the smaller identifier was not created
before the other one. -/
def Tidy (t : Trail) (s : Store) : Prop :=
  ∀ a ∈ t.matching s, ∀ b ∈ t.matching s, t.timeline.time a.entry = t.timeline.time b.entry →
    a.entry.id < b.entry.id → b.entry.createdAt ≤ a.entry.createdAt

/-- The matching entry that is nearest to this one on a side. -/
def nearestTo (t : Trail) (side : Side) (l : Listed) (s : Store) : Option Listed :=
  t.nearest? side ((t.matching s).filter fun m =>
    (t.anchoredAt l.entry.id).liesOn side (t.timeline.time l.entry) m.entry)

variable {s : Store} {l m : Listed} {front back : List Listed}

theorem mem_matching :
    l ∈ t.matching s ↔ l ∈ s.listed ∧ ∀ c ∈ t.query.allConditions, c.holds l = true := by
  simp [matching]

/-- Identifiers tell listed entries apart. -/
theorem eq_of_id_eq (hs : s.Integrity) (hl : l ∈ t.matching s) (hm : m ∈ t.matching s)
    (h : m.entry.id = l.entry.id) : m = l := by
  obtain ⟨hlrow, hllisted⟩ := Store.of_mem_listed (mem_matching.1 hl).1
  obtain ⟨hmrow, hmlisted⟩ := Store.of_mem_listed (mem_matching.1 hm).1
  have hentry : m.entry = l.entry := hs.entries.distinct.eq_of_eq hmrow hlrow h
  rw [hentry, hllisted] at hmlisted
  exact (Option.some.inj hmlisted).symm

theorem liesOn_iff :
    (t.anchoredAt l.entry.id).liesOn side (t.timeline.time l.entry) m.entry = true
      ↔ t.timeline.LiesOn side l.entry m.entry := by
  cases side with
  | before =>
      refine (Bool.or_eq_true_iff).trans (or_congr decide_eq_true_iff ?_)
      exact (Bool.and_eq_true_iff).trans (and_congr beq_iff_eq decide_eq_true_iff)
  | after =>
      refine (Bool.or_eq_true_iff).trans (or_congr decide_eq_true_iff ?_)
      exact (Bool.and_eq_true_iff).trans (and_congr (beq_iff_eq.trans eq_comm) decide_eq_true_iff)

/-- An anchor of the user has its time. -/
theorem anchorTime?_anchoredAt (hs : s.Integrity) {e : Entry} (he : e ∈ s.entries.rows)
    (huser : e.userId = t.user) :
    (t.anchoredAt e.id).anchorTime? s = some (t.timeline.time e) := by
  have hfind : s.entries.find? (fun a => a.id == e.id && a.userId == t.user) = some e := by
    refine Table.find?_eq_some_of_unique he (by simp [huser]) fun a ha hp => ?_
    exact hs.entries.distinct.eq_of_eq ha he (by simpa using (Bool.and_eq_true_iff.1 hp).1)
  exact congrArg (Option.map t.timeline.time) hfind

/-- Where a matching entry lies on a side, there is a nearest one. -/
theorem exists_nearestTo (hm : m ∈ t.matching s) (hside : t.timeline.LiesOn side l.entry m.entry) :
    ∃ n ∈ t.matching s, t.nearestTo side l s = some n ∧ t.timeline.Nearer side n.entry m.entry := by
  have hmem : m ∈ (t.matching s).filter fun m =>
      (t.anchoredAt l.entry.id).liesOn side (t.timeline.time l.entry) m.entry :=
    List.mem_filter.2 ⟨hm, liesOn_iff.2 hside⟩
  cases h : t.nearestTo side l s with
  | none =>
      rw [nearest?_eq_none.1 h] at hmem
      cases hmem
  | some n =>
      obtain ⟨hn, hmin⟩ := of_nearest? h
      exact ⟨n, (List.mem_filter.1 hn).1, rfl, hmin m hmem⟩

namespace Lists

/-- What lies on a side of an entry is what its listing shows there. -/
theorem mem_part (h : t.Lists s (front ++ l :: back)) (side : Side) :
    m ∈ side.part front back ↔ m ∈ t.matching s ∧ t.timeline.LiesOn side l.entry m.entry := by
  obtain ⟨hfront, hback, hcross⟩ := List.pairwise_append.1 h.sorted
  have hbefore : ∀ n ∈ front, t.timeline.Precedes n.entry l.entry :=
    fun n hn => hcross n hn l List.mem_cons_self
  have hafter : ∀ n ∈ back, t.timeline.Precedes l.entry n.entry := (List.pairwise_cons.1 hback).1
  rw [← h.perm.mem_iff, List.mem_append, List.mem_cons]
  cases side with
  | before =>
      constructor
      · intro hm
        exact ⟨Or.inl hm, hbefore m hm⟩
      · rintro ⟨hm | rfl | hm, hp⟩
        · exact hm
        · exact absurd hp Timeline.Precedes.irrefl
        · exact absurd hp (hafter m hm).asymm
  | after =>
      constructor
      · intro hm
        exact ⟨Or.inr (Or.inr hm), hafter m hm⟩
      · rintro ⟨hm | rfl | hm, hp⟩
        · exact absurd hp (hbefore m hm).asymm
        · exact absurd hp Timeline.Precedes.irrefl
        · exact hm

/-- The nearest entry on a side is among those that the listing shows there, and no other of
them is nearer. -/
theorem of_nearestTo (h : t.Lists s (front ++ l :: back)) (hn : t.nearestTo side l s = some m) :
    m ∈ side.part front back
      ∧ ∀ n ∈ side.part front back, t.timeline.Nearer side m.entry n.entry := by
  obtain ⟨hm, hmin⟩ := of_nearest? hn
  simp only [List.mem_filter, liesOn_iff, ← h.mem_part] at hm hmin
  exact ⟨hm, hmin⟩

theorem nearestTo_eq_none (h : t.Lists s (front ++ l :: back)) :
    t.nearestTo side l s = none ↔ side.part front back = [] := by
  unfold nearestTo
  rw [nearest?_eq_none, List.eq_nil_iff_forall_not_mem, List.eq_nil_iff_forall_not_mem]
  simp only [List.mem_filter, liesOn_iff, ← h.mem_part]

/-- An entry that the listing shows on a side is the nearest there, if none on that side is
nearer. -/
theorem nearestTo_eq_some (hs : s.Integrity) (h : t.Lists s (front ++ l :: back))
    (hm : m ∈ side.part front back)
    (hmin : ∀ n ∈ side.part front back, t.timeline.Nearer side m.entry n.entry) :
    t.nearestTo side l s = some m := by
  have hmem : ∀ n, n ∈ (t.matching s).filter (fun n =>
      (t.anchoredAt l.entry.id).liesOn side (t.timeline.time l.entry) n.entry)
        ↔ n ∈ side.part front back := by
    intro n
    rw [List.mem_filter, liesOn_iff, h.mem_part side]
  refine nearest?_eq_some ((hmem m).2 hm) (fun n hn => hmin n ((hmem n).1 hn)) fun n hn hid => ?_
  exact eq_of_id_eq hs ((h.mem_part side).1 hm).1 (List.mem_filter.1 hn).1 hid

/-- On a tidy listing the nearest entry before another one is the one right before it. -/
theorem nearestTo_before_of_tidy (hs : s.Integrity) (ht : t.Tidy s)
    (h : t.Lists s (front ++ l :: back)) : t.nearestTo .before l s = front.getLast? := by
  rcases List.eq_nil_or_concat front with rfl | ⟨rest, m, rfl⟩
  · exact h.nearestTo_eq_none.2 rfl
  · rw [List.concat_eq_append, List.getLast?_concat]
    rw [List.concat_eq_append] at h
    have hm : m ∈ rest ++ [m] := List.mem_append_right _ (List.mem_singleton_self m)
    refine h.nearestTo_eq_some hs hm fun n (hn : n ∈ rest ++ [m]) => ?_
    rcases List.mem_append.1 hn with hrest | hlast
    · have hp : t.timeline.Precedes n.entry m.entry :=
        (List.pairwise_append.1 (List.pairwise_append.1 h.sorted).1).2.2 n hrest m
          (List.mem_singleton_self m)
      rcases hp with hlt | ⟨heq, hid⟩
      · exact Or.inl hlt
      · have hcreated := ht m ((h.mem_part .before).1 hm).1 n
          ((h.mem_part .before).1 hn).1 heq.symm hid
        refine Or.inr ⟨heq.symm, ?_⟩
        rcases lt_or_eq_of_le hcreated with hlt | hce
        · exact Or.inl hlt
        · exact Or.inr ⟨hce.symm, le_of_lt hid⟩
    · rw [List.mem_singleton.1 hlast]
      exact .refl

/-- On a tidy listing the nearest entry after another one is the one right after it. -/
theorem nearestTo_after_of_tidy (hs : s.Integrity) (ht : t.Tidy s)
    (h : t.Lists s (front ++ l :: back)) : t.nearestTo .after l s = back.head? := by
  cases back with
  | nil => exact h.nearestTo_eq_none.2 rfl
  | cons m rest =>
      have hm : m ∈ m :: rest := List.mem_cons_self
      refine h.nearestTo_eq_some hs hm fun n (hn : n ∈ m :: rest) => ?_
      rcases List.mem_cons.1 hn with rfl | hrest
      · exact .refl
      · have hsorted := (List.pairwise_cons.1 (List.pairwise_append.1 h.sorted).2.1).2
        have hp : t.timeline.Precedes m.entry n.entry := (List.pairwise_cons.1 hsorted).1 n hrest
        rcases hp with hlt | ⟨heq, hid⟩
        · exact Or.inl hlt
        · have hcreated := ht n ((h.mem_part .after).1 hn).1 m
            ((h.mem_part .after).1 hm).1 heq.symm hid
          refine Or.inr ⟨heq, ?_⟩
          rcases lt_or_eq_of_le hcreated with hlt | hce
          · exact Or.inl hlt
          · exact Or.inr ⟨hce, le_of_lt hid⟩

end Lists

/-! ## Answers -/

/-- Looking for neighbours along the trail exceeds no limit of the engine. -/
structure WithinLimits (t : Trail) : Prop where
  values : t.extent.values ≤ maxValues
  depth : t.extent.depth ≤ maxDepth
  patterns : ∀ c ∈ t.conditions, c.isTooLong = false

theorem WithinLimits.fits (ht : t.WithinLimits) : t.extent.Fits :=
  ⟨ht.values, ht.depth, show 3 ≤ maxTerms by decide⟩

theorem found_eq (hp : ∀ c ∈ t.conditions, c.isTooLong = false) (side : Side) (time : Int)
    (s : Store) : t.found side time s
      = .ok ((t.matching s).filter fun m => t.liesOn side time m.entry) := by
  have hp' : ∀ c ∈ Condition.inTestOrder t.query.allConditions, c.isTooLong = false := by
    intro c hc
    rcases List.mem_cons.1 (Condition.mem_inTestOrder.1 hc) with rfl | hc
    · rfl
    · rcases List.mem_cons.1 hc with rfl | hc
      · rfl
      · exact hp c hc
  unfold found
  dsimp only
  split
  · rw [Condition.select_eq_filter hp', List.filter_filter, matching, List.filter_filter]
    simp only [Condition.all_inTestOrder, Bool.and_comm]
  · rw [Condition.select_eq_filter hp']
    simp only [Condition.all_inTestOrder]
    rfl

end Trail

/-- The row as a neighbour. -/
def Listed.sibling (l : Listed) : Sibling := ⟨l.entry.id, l.entry.title⟩

/-- The neighbours on an ascending listing, in the order of a listing with the given direction. -/
def Direction.arrange {α : Type} (d : Direction) (before after : α) : α × α :=
  match d with
  | .ascending => (before, after)
  | .descending => (after, before)

/-- An ascending listing as it is shown in this direction, and the other way round. -/
def Direction.shown (d : Direction) (ls : List Listed) : List Listed :=
  match d with
  | .ascending => ls
  | .descending => ls.reverse

theorem Direction.mem_shown {d : Direction} {ls : List Listed} {l : Listed} :
    l ∈ d.shown ls ↔ l ∈ ls := by
  cases d with
  | ascending => rfl
  | descending => exact List.mem_reverse

theorem Direction.shown_perm (d : Direction) (ls : List Listed) : (d.shown ls).Perm ls := by
  cases d with
  | ascending => exact List.Perm.refl ls
  | descending => exact List.reverse_perm ls

theorem Direction.shown_shown (d : Direction) (ls : List Listed) : d.shown (d.shown ls) = ls := by
  cases d with
  | ascending => rfl
  | descending => exact List.reverse_reverse ls

namespace Action

open Trail

variable {t : Trail} {s : Session}

theorem perform_neighbour (hs : s.Ready) (ht : t.WithinLimits) (side : Side) (time : Int) :
    (neighbour t side time).perform s
      = (.ok ((t.nearest? side ((t.matching s.store).filter fun m =>
          t.liesOn side time m.entry)).map Listed.sibling), s) := by
  unfold neighbour
  rw [perform_readWithin, hs.refusal? _ ht.fits, neighbour?, found_eq ht.patterns]
  rfl

/-- The time of the anchor is read first, and then both sides. -/
theorem perform_ascendingNeighbours_eq (hs : s.Ready) :
    (ascendingNeighbours t).perform s
      = (match t.anchorTime? s.store with
        | none => (pure (none, none) : Action (Option Sibling × Option Sibling))
        | some time => do return (← neighbour t .before time, ← neighbour t .after time)).perform
          s := by
  unfold ascendingNeighbours
  rw [perform_bind, read, perform_readWithin, hs.refusal? _ .empty]
  rfl

theorem perform_ascendingNeighbours (hs : s.Ready) (ht : t.WithinLimits) :
    (ascendingNeighbours t).perform s
      = (.ok (match t.anchorTime? s.store with
          | none => (none, none)
          | some time =>
            ((t.nearest? .before ((t.matching s.store).filter fun m =>
                t.liesOn .before time m.entry)).map Listed.sibling,
              (t.nearest? .after ((t.matching s.store).filter fun m =>
                t.liesOn .after time m.entry)).map Listed.sibling)), s) := by
  rw [perform_ascendingNeighbours_eq hs]
  cases t.anchorTime? s.store with
  | none => rfl
  | some time =>
      dsimp only
      rw [perform_bind, perform_neighbour hs ht]
      dsimp only
      rw [perform_bind, perform_neighbour hs ht]
      rfl

theorem perform_neighbours (hs : s.Ready) {pair : Option Sibling × Option Sibling}
    (h : (ascendingNeighbours t).perform s = (.ok pair, s)) :
    (neighbours t).perform s = (.ok (t.direction.arrange pair.1 pair.2), s) := by
  have hopen : s.access.isOpen = true := by rw [hs]
  unfold neighbours
  rw [perform_bind, perform_transaction, if_pos hopen, h]
  obtain ⟨before, after⟩ := pair
  cases t.direction with
  | ascending => simp [Direction.arrange]
  | descending => simp [Direction.arrange]

/-- Asking for neighbours is answered, whatever the anchor. -/
theorem exists_perform_neighbours (hs : s.Ready) (ht : t.WithinLimits) :
    ∃ pair, (neighbours t).perform s = (.ok pair, s) :=
  ⟨_, perform_neighbours hs (perform_ascendingNeighbours hs ht)⟩

/-- The neighbours of an entry of the user are the nearest matching ones on its sides. -/
theorem perform_neighbours_of_listed (hs : Reachable s) (ht : t.WithinLimits) {l : Listed}
    (hl : l ∈ s.store.listed) (huser : l.entry.userId = t.user) :
    (neighbours (t.anchoredAt l.entry.id)).perform s
      = (.ok (t.direction.arrange ((t.nearestTo .before l s.store).map Listed.sibling)
          ((t.nearestTo .after l s.store).map Listed.sibling)), s) := by
  have hready : s.Ready := hs.ready
  have hlimits : (t.anchoredAt l.entry.id).WithinLimits := ⟨ht.values, ht.depth, ht.patterns⟩
  have htime := anchorTime?_anchoredAt hs.integrity (Store.of_mem_listed hl).1 huser
  rw [perform_neighbours hready (perform_ascendingNeighbours hready hlimits), htime]
  rfl

theorem perform_neighbours_of_mem (hs : Reachable s) (ht : t.WithinLimits) {l : Listed}
    (hl : l ∈ t.matching s.store) :
    (neighbours (t.anchoredAt l.entry.id)).perform s
      = (.ok (t.direction.arrange ((t.nearestTo .before l s.store).map Listed.sibling)
          ((t.nearestTo .after l s.store).map Listed.sibling)), s) := by
  obtain ⟨hlisted, hconds⟩ := mem_matching.1 hl
  have huser : l.entry.userId = t.user := by
    simpa [Condition.holds] using hconds (.user t.user) List.mem_cons_self
  exact perform_neighbours_of_listed hs ht hlisted huser

end Action

end FeedStore

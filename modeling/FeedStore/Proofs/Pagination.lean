import FeedStore.Proofs.Neighbours
import FeedStore.Proofs.Sorting

/-!
# Neighbours and listings

A listing is asked for by a query, and neighbours along a trail; both take the same filters, and what
the one lists is what the other goes along (`Action.lists_sort`). On a tidy listing neighbours are next
to each other, in either direction (`Action.perform_neighbours_of_tidy`), and a listing by time of
creation always is tidy.
-/

namespace FeedStore

/-! ## Filters -/

/-- A filter that both queries and trails take. -/
inductive Filter where
  | status (s : Status)
  | feed (id : Id)
  | category (id : Id)
  | starred (starred : Bool)
  | tags (tags : List String)
  | search (text : String)
  | shown
  deriving DecidableEq, Repr

namespace Filter

/-- The query with the filter. -/
def apply (f : Filter) (q : Query) : Query :=
  match f with
  | status s => q.withStatus s
  | feed id => q.withFeed id
  | category id => q.withCategory id
  | starred b => q.withStarred b
  | tags ts => q.withTags ts
  | search text => q.withSearch text
  | shown => q.withShown

/-- The conditions that a filter adds. -/
def conditions : Filter → List Condition
  | status s => [.status s]
  | feed id => if id ≤ 0 then [] else [.feed id]
  | category id => if id ≤ 0 then [] else [.category id]
  | starred b => [.starred b]
  | tags ts => ts.map .tag
  | search text => if text = "" then [] else [.search text]
  | shown => [.shown]

theorem withTags_eq (q : Query) (ts : List String) :
    q.withTags ts = { q with conditions := q.conditions ++ ts.map .tag } := by
  unfold Query.withTags
  induction ts generalizing q with
  | nil => simp
  | cons t ts ih =>
      rw [List.foldl_cons, ih]
      simp [Query.having]

theorem apply_eq (f : Filter) (q : Query) :
    f.apply q = { q with conditions := q.conditions ++ f.conditions } := by
  cases f with
  | status s => rfl
  | feed id =>
      by_cases h : id ≤ 0
      · simp [apply, conditions, Query.withFeed, h]
      · simp [apply, conditions, Query.withFeed, Query.having, h]
  | category id =>
      by_cases h : id ≤ 0
      · simp [apply, conditions, Query.withCategory, h]
      · simp [apply, conditions, Query.withCategory, Query.having, h]
  | starred b => rfl
  | tags ts => exact withTags_eq q ts
  | search text =>
      by_cases h : text = ""
      · simp [apply, conditions, Query.withSearch, h]
      · simp [apply, conditions, Query.withSearch, Query.having, h]
  | shown => rfl

theorem foldl_apply (fs : List Filter) (q : Query) :
    fs.foldl (fun q f => f.apply q) q
      = { q with conditions := q.conditions ++ fs.flatMap conditions } := by
  induction fs generalizing q with
  | nil => simp
  | cons f fs ih =>
      rw [List.foldl_cons, ih, apply_eq]
      simp

theorem foldl_having (fs : List Filter) (t : Trail) :
    fs.foldl (fun t f => t.having f.apply) t
      = { t with conditions := t.conditions ++ fs.flatMap conditions } := by
  induction fs generalizing t with
  | nil => simp
  | cons f fs ih =>
      rw [List.foldl_cons, ih, Trail.having, apply_eq]
      simp

end Filter

/-! ## The query for a listing -/

/-- The field that a timeline goes along. -/
def Timeline.field : Timeline → SortField
  | publication => .publishedAt
  | creation => .createdAt
  | change => .changedAt

/-- The other direction. -/
def Direction.reversed : Direction → Direction
  | ascending => .descending
  | descending => .ascending

/-- The terms of a listing along a timeline; where times are equal, identifiers go in the other
direction. -/
def SortTerm.along (tl : Timeline) (d : Direction) : List SortTerm :=
  [⟨tl.field, d⟩, ⟨.id, d.reversed⟩]

/-- The trail with these filters, built one by one. -/
def Trail.filtered (user anchor : Id) (tl : Timeline) (d : Direction) (fs : List Filter) : Trail :=
  fs.foldl (fun t f => t.having f.apply) { user, anchor, timeline := tl, direction := d }

/-- The query with these filters for what is not removed, sorted along a timeline. -/
def Query.listing (user : Id) (tl : Timeline) (d : Direction) (fs : List Filter) : Query :=
  let filtered := fs.foldl (fun (q : Query) (f : Filter) => f.apply q) { user }
  ((filtered.withoutStatus .removed).sortedBy tl.field d).sortedBy .id d.reversed

variable {user anchor : Id} {tl : Timeline} {d : Direction} {fs : List Filter}

theorem Trail.filtered_eq : Trail.filtered user anchor tl d fs
    = { user, anchor, timeline := tl, direction := d,
        conditions := fs.flatMap Filter.conditions } := by
  unfold Trail.filtered
  rw [Filter.foldl_having, List.nil_append]

theorem Trail.anchoredAt_filtered (id : Id) :
    (Trail.filtered user anchor tl d fs).anchoredAt id = Trail.filtered user id tl d fs := by
  rw [Trail.filtered_eq, Trail.filtered_eq]
  rfl

theorem Query.listing_eq : Query.listing user tl d fs
    = { user, conditions := fs.flatMap Filter.conditions ++ [.statusNot .removed],
        terms := SortTerm.along tl d } := by
  unfold Query.listing
  rw [Filter.foldl_apply, List.nil_append]
  rfl

/-! ### Limits -/

theorem Condition.foldl_levels_mono (levels : List Nat) {m n : Nat} (h : m ≤ n) :
    levels.foldl (fun acc level => max acc level + 1) m
      ≤ levels.foldl (fun acc level => max acc level + 1) n := by
  induction levels generalizing m n with
  | nil => exact h
  | cons level levels ih =>
      rw [List.foldl_cons, List.foldl_cons]
      refine ih ?_
      omega

/-- A query for a listing exceeds no limit that looking for neighbours does not exceed. -/
theorem Query.fits_listing (h : (Trail.filtered user anchor tl d fs).WithinLimits) :
    (Query.listing user tl d fs).pageExtent.Fits := by
  have hvalues := h.values
  have hdepth := h.depth
  rw [Trail.filtered_eq] at hvalues hdepth
  rw [Query.listing_eq]
  refine ⟨?_, ?_, show 2 ≤ maxTerms by decide⟩
  · refine le_trans ?_ hvalues
    simp only [Query.pageExtent, Query.values, Query.allConditions, Trail.extent, Trail.query,
      ← List.sum_eq_foldr, List.map_cons, List.map_append, List.sum_cons, List.sum_append,
      List.map_nil, List.sum_nil, Option.toList_none, List.length_nil]
    omega
  · refine le_trans ?_ hdepth
    have hmono := Condition.foldl_levels_mono
      ((fs.flatMap Filter.conditions).flatMap Condition.levels)
      (show 3 ≤ max 3 3 + 1 by omega)
    simp only [Query.pageExtent, Query.allConditions, Trail.extent, Trail.query, Condition.depth,
      List.flatMap_cons, List.flatMap_append, List.flatMap_nil, Condition.levels, List.append_nil,
      List.foldl_append, List.foldl_cons, List.foldl_nil, List.cons_append, List.nil_append]
    omega

/-! ## Answers to the query -/

/-- Trails with the same filters match what the query for their listing asks for. -/
theorem Query.matching_listing (anchor : Id) (s : Store) :
    (Query.listing user tl d fs).matching s = (Trail.filtered user anchor tl d fs).matching s := by
  have hperm : (Query.listing user tl d fs).allConditions.Perm
      (Trail.filtered user anchor tl d fs).query.allConditions := by
    rw [Query.listing_eq, Trail.filtered_eq]
    exact (List.perm_append_singleton _ _).cons _
  exact List.filter_congr fun l _ => hperm.all_eq

namespace Trail

variable {t : Trail} {s : Store}

/-- The terms of a listing compare as the listing shows, but for entries that are one. -/
theorem isLE_compareAll_terms (a b : Listed) :
    (SortTerm.compareAll (SortTerm.along tl d) a b).isLE = true
      ↔ match d with
        | .ascending => tl.time a.entry < tl.time b.entry
            ∨ tl.time a.entry = tl.time b.entry ∧ b.entry.id ≤ a.entry.id
        | .descending => tl.time b.entry < tl.time a.entry
            ∨ tl.time a.entry = tl.time b.entry ∧ a.entry.id ≤ b.entry.id := by
  have hlex : ∀ x y z w : Int, ((compare x y).then ((compare z w).then .eq)).isLE = true
      ↔ x < y ∨ x = y ∧ z ≤ w := fun x y z w => by
    rw [Ordering.then_eq]
    simp only [Ordering.isLE_then_iff_or, Std.isLE_compare, Std.compare_eq_lt, compare_eq_iff_eq]
  have hfield : ∀ l m : Listed,
      tl.field.compare l m = compare (tl.time l.entry) (tl.time m.entry) := by
    intro l m
    cases tl with
    | publication => rfl
    | creation => rfl
    | change => rfl
  cases d with
  | ascending =>
      show ((tl.field.compare a b).then ((compare b.entry.id a.entry.id).then .eq)).isLE = true ↔ _
      rw [hfield]
      exact hlex _ _ _ _
  | descending =>
      show ((tl.field.compare b a).then ((compare a.entry.id b.entry.id).then .eq)).isLE = true ↔ _
      rw [hfield, eq_comm (a := tl.time a.entry)]
      exact hlex _ _ _ _

/-- The answer to an ascending query, and a descending one read backwards, is the listing. -/
theorem lists_of_perm {ls : List Listed} (hs : s.Integrity) (hperm : ls.Perm (t.matching s))
    (hle : ls.Pairwise fun a b => t.timeline.time a.entry < t.timeline.time b.entry
      ∨ t.timeline.time a.entry = t.timeline.time b.entry ∧ b.entry.id ≤ a.entry.id) :
    t.Lists s ls := by
  have hne : (t.matching s).Pairwise fun a b => a.entry.id ≠ b.entry.id :=
    ((Store.pairwise_id_listed hs.entries).filter _).imp fun hlt => ne_of_lt hlt
  have hne : ls.Pairwise fun a b => a.entry.id ≠ b.entry.id :=
    (hperm.pairwise_iff fun h => h.symm).2 hne
  refine ⟨hperm, (hle.and hne).imp fun ⟨h, hid⟩ => ?_⟩
  exact h.imp_right fun ⟨heq, hle⟩ => ⟨heq, lt_of_le_of_ne hle hid.symm⟩

/-- Equal times of creation where times are equal make a listing tidy. -/
theorem tidy_of_createdAt_eq
    (h : t.timeline = .creation ∨ ∀ a ∈ t.matching s, ∀ b ∈ t.matching s,
      t.timeline.time a.entry = t.timeline.time b.entry → a.entry.createdAt = b.entry.createdAt) :
    t.Tidy s := by
  intro a ha b hb heq _
  rcases h with h | h
  · rw [h] at heq
    exact le_of_eq heq.symm
  · exact le_of_eq (h a ha b hb heq).symm

end Trail

/-- Three entries that were created together, two of them published at the same time. -/
def Session.published : Session :=
  Session.subscribed.run
    [.refreshFeed 1 1 [.bare "a" 10, .bare "b" 20, .bare "c" 20] false]

namespace Action

open Trail

variable {s : Session}

theorem perform_entryIds_listing (hs : s.Ready)
    (ht : (Trail.filtered user anchor tl d fs).WithinLimits) :
    (entryIds (Query.listing user tl d fs)).perform s
      = (.ok ((SortTerm.sort (SortTerm.along tl d)
          ((Trail.filtered user anchor tl d fs).matching s.store)).map (·.entry.id)), s) := by
  have hp : ∀ c ∈ (Query.listing user tl d fs).conditions, c.isTooLong = false := by
    have hp := ht.patterns
    rw [Trail.filtered_eq] at hp
    rw [Query.listing_eq]
    exact List.forall_mem_append.2 ⟨hp, List.forall_mem_singleton.2 rfl⟩
  unfold entryIds
  rw [perform_readWithin, hs.refusal? _ (Query.fits_listing ht), Query.page_eq hp,
    Query.matching_listing anchor, Query.listing_eq]
  rfl

/-- On a tidy listing that is shown in the trail's direction, neighbours are next to each
other. -/
theorem perform_neighbours_of_tidy {t : Trail} {front back : List Listed} {l : Listed}
    (hs : Reachable s) (ht : t.WithinLimits) (htidy : t.Tidy s.store)
    (hls : t.Lists s.store (t.direction.shown (front ++ l :: back))) :
    (neighbours (t.anchoredAt l.entry.id)).perform s
      = (.ok (front.getLast?.map Listed.sibling, back.head?.map Listed.sibling), s) := by
  have hmem : l ∈ t.matching s.store := by
    rw [← hls.perm.mem_iff, Direction.mem_shown]
    exact List.mem_append_right _ List.mem_cons_self
  rw [perform_neighbours_of_mem hs ht hmem]
  cases hd : t.direction with
  | ascending =>
      rw [hd] at hls
      rw [hls.nearestTo_before_of_tidy hs.integrity htidy,
        hls.nearestTo_after_of_tidy hs.integrity htidy]
      rfl
  | descending =>
      have hls : t.Lists s.store (back.reverse ++ l :: front.reverse) := by
        rw [hd] at hls
        simpa [Direction.shown] using hls
      rw [hls.nearestTo_before_of_tidy hs.integrity htidy,
        hls.nearestTo_after_of_tidy hs.integrity htidy, List.getLast?_reverse, List.head?_reverse]
      rfl

/-- The answer to the query for a listing is the listing, as it is shown. -/
theorem lists_sort {t : Trail} (hs : Reachable s) :
    t.Lists s.store (t.direction.shown
      (SortTerm.sort (SortTerm.along t.timeline t.direction) (t.matching s.store))) := by
  have hperm := SortTerm.sort_perm (SortTerm.along t.timeline t.direction) (t.matching s.store)
  have hsorted := SortTerm.pairwise_compareAll_sort (SortTerm.along t.timeline t.direction)
    (t.matching s.store)
  simp only [isLE_compareAll_terms] at hsorted
  refine lists_of_perm hs.integrity ((Direction.shown_perm _ _).trans hperm) ?_
  cases hd : t.direction with
  | ascending =>
      rw [hd] at hsorted
      exact hsorted
  | descending =>
      rw [hd] at hsorted
      refine List.pairwise_reverse.2 (hsorted.imp fun h => ?_)
      exact h.imp_right fun ⟨heq, hle⟩ => ⟨heq.symm, hle⟩

end Action

end FeedStore

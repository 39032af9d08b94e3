import FeedStore.Query.Basic
import Mathlib.Algebra.Order.Ring.Int

/-!
# What a query finds and how it is sorted

A query whose wildcard patterns are not too long finds the rows that satisfy all of its
conditions, in whichever order the engine tests them (`Query.found_eq`). Sort terms compare two
rows lexicographically: the first term in which the rows differ decides
(`SortTerm.isLE_compareAll_iff`). Each term compares in a transitive way and so do several of
them, in whichever directions, so a sorted listing is ordered throughout
(`SortTerm.ordered_sort`).
-/

namespace FeedStore

/-- Whatever a listing is sorted by, its values are compared in a transitive way. -/
instance SortField.transCmp_compare (f : SortField) : Std.TransCmp f.compare := by
  have hnumber : ∀ key : Listed → Int, Std.TransCmp fun a b => Ord.compare (key a) (key b) :=
    fun key => inferInstanceAs (Std.TransCmp (compareOn key))
  have htext : ∀ key : Listed → String, Std.TransCmp fun a b => Ord.compare (key a) (key b) :=
    fun key => inferInstanceAs (Std.TransCmp (compareOn key))
  cases f with
  | id => exact hnumber fun l => l.entry.id
  | status => exact htext fun l => l.entry.status.text
  | title => exact htext fun l => l.entry.title
  | author => exact htext fun l => l.entry.author
  | publishedAt => exact hnumber fun l => l.entry.publishedAt
  | createdAt => exact hnumber fun l => l.entry.createdAt
  | changedAt => exact hnumber fun l => l.entry.changedAt
  | readingTime => exact hnumber fun l => l.entry.readingTime
  | feedTitle => exact htext fun l => l.feed.title

namespace SortTerm

instance transCmp_compare (t : SortTerm) : Std.TransCmp t.compare := by
  obtain ⟨field, direction⟩ := t
  cases direction with
  | ascending => exact field.transCmp_compare
  | descending => exact inferInstanceAs (Std.TransCmp fun a b => field.compare b a)

instance transCmp_compareAll : ∀ ts : List SortTerm, Std.TransCmp (compareAll ts)
  | [] => { eq_swap := rfl, isLE_trans := fun _ _ => rfl }
  | t :: ts =>
    have := transCmp_compareAll ts
    inferInstanceAs (Std.TransCmp (compareLex t.compare (compareAll ts)))

/-- The first term that tells the rows apart does not ask for the second one before the first. -/
def Ordered (ts : List SortTerm) (a b : Listed) : Prop :=
  ∀ front t back, ts = front ++ t :: back → (∀ u ∈ front, u.compare a b = .eq) →
    t.compare a b ≠ .gt

theorem ordered_cons {t : SortTerm} {ts : List SortTerm} {a b : Listed} :
    Ordered (t :: ts) a b ↔ t.compare a b = .lt ∨ t.compare a b = .eq ∧ Ordered ts a b := by
  constructor
  · intro h
    cases hc : t.compare a b with
    | lt => exact Or.inl rfl
    | gt => exact absurd hc (h [] t ts rfl fun u hu => nomatch hu)
    | eq =>
        refine Or.inr ⟨rfl, fun front u back hts hfront => ?_⟩
        refine h (t :: front) u back (by rw [hts]; rfl) ?_
        exact List.forall_mem_cons.2 ⟨hc, hfront⟩
  · intro h front u back hts hfront
    cases front with
    | nil =>
        obtain ⟨rfl, -⟩ := List.cons.inj hts
        rcases h with hlt | ⟨heq, -⟩
        · rw [hlt]
          decide
        · rw [heq]
          decide
    | cons v front =>
        obtain ⟨rfl, hrest⟩ := List.cons.inj hts
        rw [List.forall_mem_cons] at hfront
        rcases h with hlt | ⟨-, hordered⟩
        · rw [hlt] at hfront
          exact absurd hfront.1 (by decide)
        · exact hordered front u back hrest hfront.2

theorem isLE_compareAll_iff {ts : List SortTerm} {a b : Listed} :
    (compareAll ts a b).isLE = true ↔ Ordered ts a b := by
  induction ts with
  | nil =>
      refine iff_of_true rfl fun front t back hts _ => ?_
      exact absurd hts.symm (List.append_ne_nil_of_right_ne_nil front (List.cons_ne_nil t back))
  | cons t ts ih => rw [compareAll, Ordering.isLE_then_iff_or, ih, ordered_cons]

theorem pairwise_compareAll_sort (ts : List SortTerm) (ls : List Listed) :
    (sort ts ls).Pairwise fun a b => (compareAll ts a b).isLE = true := by
  refine List.pairwise_mergeSort (fun a b c => Std.TransCmp.isLE_trans) (fun a b => ?_) ls
  have hswap : compareAll ts b a = (compareAll ts a b).swap := Std.OrientedCmp.eq_swap
  rw [Bool.or_eq_true, hswap]
  cases compareAll ts a b with
  | lt => exact Or.inl rfl
  | eq => exact Or.inl rfl
  | gt => exact Or.inr rfl

/-- A sorted listing is ordered, whichever two of its rows are compared. -/
theorem ordered_sort (ts : List SortTerm) (ls : List Listed) :
    (sort ts ls).Pairwise (Ordered ts) :=
  (pairwise_compareAll_sort ts ls).imp isLE_compareAll_iff.1

end SortTerm

namespace Query

/-- The rows that satisfy every condition of the query. -/
def matching (q : Query) (s : Store) : List Listed :=
  s.listed.filter fun l => q.allConditions.all (·.holds l)

theorem mem_matching {q : Query} {s : Store} {l : Listed} :
    l ∈ q.matching s ↔ l ∈ s.listed ∧ ∀ c ∈ q.allConditions, c.holds l = true := by
  rw [matching, List.mem_filter, List.all_eq_true]

/-- The order in which conditions are tested does not matter, and an empty list of entries, for
which nothing is tested at all, is satisfied by nothing. -/
theorem found_eq {q : Query} (hp : ∀ c ∈ q.conditions, c.isTooLong = false) (s : Store) :
    q.found s = .ok (q.matching s) := by
  have hlong : ∀ c ∈ Condition.inTestOrder q.allConditions, c.isTooLong = false := by
    intro c hc
    rcases List.mem_cons.1 (Condition.mem_inTestOrder.1 hc) with rfl | hc
    · rfl
    · exact hp c hc
  unfold found
  dsimp only
  split
  · rename_i hnone
    rw [List.contains_iff_mem, Condition.mem_inTestOrder] at hnone
    refine congrArg Except.ok (List.filter_eq_nil_iff.2 fun l _ hl => ?_).symm
    have := List.all_eq_true.1 hl _ hnone
    cases this
  · rw [Condition.select_eq_filter hlong]
    simp only [Condition.all_inTestOrder, matching]

theorem page_eq {q : Query} (hp : ∀ c ∈ q.conditions, c.isTooLong = false) (s : Store) :
    q.page s = .ok (q.cut (SortTerm.sort q.terms (q.matching s))) := by
  rw [page, found_eq hp]
  rfl

end Query

end FeedStore

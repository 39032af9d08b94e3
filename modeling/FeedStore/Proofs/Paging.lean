import FeedStore.Proofs.Denotation
import Mathlib.Data.List.Forall2

/-!
# Paging through a listing

A reader pages through a listing by asking for it again and again, each time a page further on, until a
page is empty (`Query.Pages`). No state is kept in between, so the pages make up the listing only if all
of these queries sort it in the same way. They have to if it is sorted by identifiers among other terms:
then there is one way to sort it (`Query.Denotes.eq_of_sorting_id`), and the pages are its parts, one
behind the other (`Reachable.pages_through`). Of too many terms, however, the engine makes no listing at
all (`Reachable.not_forall_pages_through`).
-/

namespace FeedStore

/-! ## One order -/

/-- Rows that may come in either order have one identifier, if that is among the terms. -/
theorem SortTerm.Ordered.id_eq {ts : List SortTerm} {a b : Listed} {d : Direction}
    (hid : ⟨.id, d⟩ ∈ ts) (h : Ordered ts a b) (h' : Ordered ts b a) :
    a.entry.id = b.entry.id := by
  induction ts with
  | nil => cases hid
  | cons t ts ih =>
      have hswap : t.compare b a = (t.compare a b).swap := Std.OrientedCmp.eq_swap
      rw [ordered_cons] at h h'
      rcases h with hlt | ⟨heq, h⟩
      · rw [hswap, hlt] at h'
        rcases h' with h' | ⟨h', -⟩
        · cases h'
        · cases h'
      · rw [hswap, heq] at h'
        rcases h' with h' | ⟨-, h'⟩
        · cases h'
        · rcases List.mem_cons.1 hid with rfl | hid
          · cases d with
            | ascending => exact compare_eq_iff_eq.1 heq
            | descending => exact (compare_eq_iff_eq.1 heq).symm
          · exact ih hid h h'

namespace Query

variable {user : Id} {as bs : List Addition} {s : Store} {ls ms : List Listed}

/-- What a chain asks for is one list, if it sorts by identifiers among other terms. -/
theorem Denotes.eq_of_sorting_id (hs : s.Integrity) {d : Direction} (hid : .sorting .id d ∈ as)
    (h : Denotes user as s ls) (h' : Denotes user as s ms) : ls = ms := by
  have hperm : ls.Perm ms := h.perm hs h' fun _ _ => Iff.rfl
  have hterm : ⟨.id, d⟩ ∈ as.flatMap Addition.terms :=
    List.mem_flatMap.2 ⟨_, hid, List.mem_singleton_self _⟩
  refine hperm.eq_of_pairwise (fun a b ha hb hab hba => ?_) h.ordered h'.ordered
  exact List.inj_on_of_nodup_map h.once ha (hperm.mem_iff.2 hb) (hab.id_eq hterm hba)

/-! ## Limits and offsets at the end of a chain -/

/-- Additions that are neither conditions nor terms leave the listing as it is. -/
theorem sorted_built_append (hconditions : bs.flatMap Addition.conditions = [])
    (hterms : bs.flatMap Addition.terms = []) (s : Store) :
    (built user (as ++ bs)).sorted s = (built user as).sorted s := by
  rw [built_eq, built_eq, List.flatMap_append, List.flatMap_append, hconditions, hterms,
    List.append_nil, List.append_nil]
  rfl

theorem withinLimits_built_append (bs : List Addition)
    (hconditions : bs.flatMap Addition.conditions = []) (hterms : bs.flatMap Addition.terms = [])
    (hq : (built user as).WithinLimits) :
    (built user (as ++ bs)).WithinLimits := by
  rw [built_eq] at hq
  rw [built_eq, List.flatMap_append, hconditions, List.append_nil, List.flatMap_append, hterms,
    List.append_nil]
  exact ⟨⟨hq.values, hq.depth, hq.patterns⟩, hq.terms⟩

/-- The offset at the end of a chain without one counts, also if it is zero. -/
theorem lastOffset_concat (h : (as.flatMap Addition.offsets).getLast? = none) (k : Nat) :
    lastOffset (as ++ [.offset k]) = k := by
  unfold lastOffset
  rw [List.flatMap_append, List.getLast?_append, h, Option.or_none, List.flatMap_singleton,
    Addition.offsets]
  split
  · show 0 = (k : Int)
    omega
  · rfl

variable {n : Nat}

/-- The part of a listing that a page shows. -/
theorem window_page (hoffset : (as.flatMap Addition.offsets).getLast? = none) (hn : 0 < n) (k : Nat)
    (ls : List Listed) : window (as ++ [.limit n, .offset k]) ls = (ls.drop k).take n := by
  have hlimits : (as ++ [.limit n, .offset k] : List Addition).flatMap Addition.limits
      = as.flatMap Addition.limits ++ [(n : Int)] := by
    rw [List.flatMap_append]
    refine congrArg _ ?_
    show (if (n : Int) ≤ 0 then [] else [(n : Int)]) ++ [] = _
    rw [if_neg (by omega), List.append_nil]
  have hoffset : lastOffset (as ++ [.limit n, .offset k]) = k := by
    rw [List.append_cons]
    refine lastOffset_concat ?_ k
    rw [List.flatMap_append]
    exact (congrArg List.getLast? (List.append_nil _)).trans hoffset
  unfold window lastLimit
  rw [hoffset, hlimits, List.getLast?_concat]
  rfl

/-! ## Pages -/

/-- The reader asks for pages of `n` from an offset on, up to the first empty one. What they show is put
together to a list. -/
inductive Pages {α : Type} (ask : Query → Action (List α)) (user : Id) (as : List Addition) (n : Nat)
    (s : Session) : Nat → List α → Prop
  | last {k : Nat}
      (h : (ask (built user (as ++ [.limit n, .offset k]))).perform s = (.ok [], s)) :
      Pages ask user as n s k []
  | page {k : Nat} {shown rest : List α}
      (h : (ask (built user (as ++ [.limit n, .offset k]))).perform s = (.ok shown, s))
      (hne : shown ≠ []) (hrest : Pages ask user as n s (k + n) rest) :
      Pages ask user as n s k (shown ++ rest)

/-- Pages that are the parts of a list make up the list. -/
theorem pages_iff {α : Type} {ask : Query → Action (List α)} {s : Session} {xs : List α} (hn : 0 < n)
    (hask : ∀ k : Nat, (ask (built user (as ++ [.limit n, .offset k]))).perform s
      = (.ok ((xs.drop k).take n), s)) {k : Nat} {ys : List α} :
    Pages ask user as n s k ys ↔ ys = xs.drop k := by
  have hpart : ∀ {k : Nat} {shown : List α},
      (ask (built user (as ++ [.limit n, .offset k]))).perform s = (.ok shown, s) →
        shown = (xs.drop k).take n := fun h =>
    Except.ok.inj (congrArg Prod.fst (h.symm.trans (hask _)))
  have hempty : ∀ k : Nat, (xs.drop k).take n = [] ↔ xs.drop k = [] := fun k =>
    List.take_eq_nil_iff.trans (or_iff_right hn.ne')
  constructor
  · intro h
    induction h with
    | last h => exact ((hempty _).1 (hpart h).symm).symm
    | page h _ _ ih => rw [hpart h, ih, ← List.drop_drop, List.take_append_drop]
  · rintro rfl
    -- behind a page that shows something less is left
    induction hlen : (xs.drop k).length using Nat.strong_induction_on generalizing k with
    | _ len ih =>
        by_cases hnil : xs.drop k = []
        · rw [hnil]
          refine .last ?_
          rw [hask, hnil, List.take_nil]
        · have hpos : 0 < (xs.drop k).length := List.length_pos_iff.2 hnil
          have hfewer : (xs.drop (k + n)).length < len := by
            rw [List.length_drop] at hlen hpos ⊢
            omega
          have hrest := ih _ hfewer rfl
          rw [← List.take_append_drop n (xs.drop k), List.drop_drop]
          exact .page (hask k) (fun h => hnil ((hempty k).1 h)) hrest

end Query

/-! ## What each page shows -/

section

variable {α β : Type} {R : α → β → Prop} {as : List α} {bs : List β}

theorem rel_getElem?_of_forall₂ (h : List.Forall₂ R as bs) (k : Nat) :
    Option.Rel R as[k]? bs[k]? := by
  induction h generalizing k with
  | nil => exact .none
  | cons hab _ ih =>
      cases k with
      | zero => exact .some hab
      | succ k => exact ih k

theorem eq_of_option_rel {a : Option α} {b c : Option β} (hR : Relator.RightUnique R)
    (h : Option.Rel R a b) (h' : Option.Rel R a c) : b = c := by
  cases h with
  | none =>
      cases h'
      rfl
  | some h =>
      cases h' with
      | some h' => rw [hR h h']

end

theorem Listed.rightUnique_shownAs (s : Store) : Relator.RightUnique (Listed.ShownAs s) :=
  fun _ _ _ h h' => h.unique h'

namespace Query

variable {user : Id} {as : List Addition} {s : Session} {vs : List EntryView} {n : Nat}

theorem perform_entries_page (hs : Reachable s) (hq : (built user as).WithinLimits)
    (hoffset : (as.flatMap Addition.offsets).getLast? = none)
    (hvs : List.Forall₂ (Listed.ShownAs s.store) ((built user as).sorted s.store) vs) (hn : 0 < n)
    (k : Nat) :
    (Action.entries (built user (as ++ [.limit n, .offset k]))).perform s
      = (.ok ((vs.drop k).take n), s) := by
  obtain ⟨ws, hperform, hws, -⟩ :=
    (answers_sorted hs (withinLimits_built_append [.limit n, .offset k] rfl rfl hq)).entries
  rw [sorted_built_append rfl rfl, window_page hoffset hn] at hws
  have hpart := List.forall₂_take n (List.forall₂_drop k hvs)
  rw [hperform, List.right_unique_forall₂' (Listed.rightUnique_shownAs s.store) hws hpart]

theorem perform_entryIds_page (hs : Reachable s) (hq : (built user as).WithinLimits)
    (hoffset : (as.flatMap Addition.offsets).getLast? = none) (hn : 0 < n) (k : Nat) :
    (Action.entryIds (built user (as ++ [.limit n, .offset k]))).perform s
      = (.ok (((((built user as).sorted s.store).map (·.entry.id)).drop k).take n), s) := by
  have hanswers := answers_sorted hs
    (withinLimits_built_append [.limit n, .offset k] rfl rfl hq)
  rw [hanswers.ids, sorted_built_append rfl rfl, window_page hoffset hn, List.map_take,
    List.map_drop]

theorem perform_firstEntry_offset (hs : Reachable s) (hq : (built user as).WithinLimits)
    (hoffset : (as.flatMap Addition.offsets).getLast? = none)
    (hvs : List.Forall₂ (Listed.ShownAs s.store) ((built user as).sorted s.store) vs) (k : Nat) :
    (Action.firstEntry (built user (as ++ [.offset k]))).perform s = (.ok vs[k]?, s) := by
  obtain ⟨v, hperform, hv⟩ :=
    (answers_sorted hs (withinLimits_built_append [.offset k] rfl rfl hq)).first
  rw [sorted_built_append rfl rfl, lastOffset_concat hoffset] at hv
  have hrow := rel_getElem?_of_forall₂ hvs k
  rw [hperform, eq_of_option_rel (Listed.rightUnique_shownAs s.store) hv hrow]

end Query

/-- A chain without limit and offset that sorts by identifiers among other terms asks for one list, with
every entry that its additions admit in it once. In a reachable session the pages of any size, put
together, are the answer to the chain as it is, as entries and as identifiers, and asking for one entry
at an offset gives the one at that place, if there is one. -/
theorem Reachable.pages_through {s : Session} (hs : Reachable s) {user : Id} {as : List Addition}
    {d : Direction} (hid : .sorting .id d ∈ as) (hlimit : (Query.built user as).limit = none)
    (hoffset : (Query.built user as).offset = none) (hq : (Query.built user as).WithinLimits) :
    ∃ ls vs, Query.Denotes user as s.store ls
      ∧ (∀ ms, Query.Denotes user as s.store ms → ms = ls)
      ∧ List.Forall₂ (Listed.ShownAs s.store) ls vs
      ∧ (Action.entries (Query.built user as)).perform s = (.ok vs, s)
      ∧ (Action.entryIds (Query.built user as)).perform s = (.ok (ls.map (·.entry.id)), s)
      ∧ (∀ n, 0 < n → ∀ ws, Query.Pages Action.entries user as n s 0 ws ↔ ws = vs)
      ∧ (∀ n, 0 < n → ∀ ids, Query.Pages Action.entryIds user as n s 0 ids
          ↔ ids = ls.map (·.entry.id))
      ∧ ∀ k : Nat, (Action.firstEntry (Query.built user (as ++ [.offset k]))).perform s
          = (.ok vs[k]?, s) := by
  have hdenotes := Query.denotes_sorted hs.integrity user as
  have hanswers := Query.answers_sorted hs hq
  have hnoLimit : (as.flatMap Addition.limits).getLast? = none := by rwa [Query.built_eq] at hlimit
  have hnoOffset : (as.flatMap Addition.offsets).getLast? = none := by
    rwa [Query.built_eq] at hoffset
  have hwhole : ∀ ls, Query.window as ls = ls := fun ls => by
    unfold Query.window Query.lastLimit Query.lastOffset
    rw [hnoLimit, hnoOffset]
    exact List.take_length
  obtain ⟨vs, hvs, hshown, -⟩ := hanswers.entries
  have hids := hanswers.ids
  rw [hwhole] at hshown hids
  refine ⟨_, vs, hdenotes, fun ms hms => hms.eq_of_sorting_id hs.integrity hid hdenotes, hshown,
    hvs, hids, fun n hn ws => ?_, fun n hn ids => ?_, fun k => ?_⟩
  · exact Query.pages_iff hn (Query.perform_entries_page hs hq hnoOffset hshown hn)
  · exact Query.pages_iff hn (Query.perform_entryIds_page hs hq hnoOffset hn)
  · exact Query.perform_firstEntry_offset hs hq hnoOffset hshown k

/-- The latest entries first, and those of one time in the order of their identifiers. -/
def Addition.latestFirst : List Addition :=
  [.sorting .publishedAt .descending, .sorting .id .ascending]

/-- Of three entries two were published at the same time. There is a full page of two, one that is not
full, and an empty one. -/
theorem Reachable.pages_through_latestFirst :
    ∃ vs, (Action.entries (Query.built 1 Addition.latestFirst)).perform .published
        = (.ok vs, .published)
      ∧ vs.length = 3
      ∧ Query.Pages Action.entries 1 Addition.latestFirst 2 .published 0 vs
      ∧ Query.Pages Action.entryIds 1 Addition.latestFirst 2 .published 0 (vs.map (·.id))
      ∧ ∀ k : Nat, (Action.firstEntry (Query.built 1 (Addition.latestFirst ++ [.offset k]))).perform
          .published = (.ok vs[k]?, .published) := by
  have hs : Reachable .published := Reachable.subscribed.run _
  have hid : .sorting .id .ascending ∈ Addition.latestFirst := by decide
  have hq : (Query.built 1 Addition.latestFirst).WithinLimits :=
    ⟨⟨by decide +kernel, by decide +kernel, by decide +kernel⟩, by decide⟩
  obtain ⟨ls, vs, -, hone, hshown, hvs, -, hpages, hidPages, hfirst⟩ :=
    hs.pages_through hid rfl rfl hq
  have hcount : (Action.countEntries (Query.built 1 Addition.latestFirst)).perform .published
      = (.ok 3, .published) := by rfl
  have hlength : ls.length = 3 := by
    rw [(Query.answers_sorted hs hq).count, hone _ (Query.denotes_sorted hs.integrity 1 _)] at hcount
    exact Except.ok.inj (Prod.mk.inj hcount).1
  have hids : vs.map (·.id) = ls.map (·.entry.id) := map_eq_of_forall₂ hshown fun _ _ h => h.id
  exact ⟨vs, hvs, hshown.length_eq ▸ hlength, (hpages 2 (by decide) vs).2 rfl,
    (hidPages 2 (by decide) _).2 hids, hfirst⟩

/-- Terms can be added without end, but the engine does not sort by more than two thousand, and then
there are neither pages nor a listing to compare them with. -/
theorem Reachable.not_forall_pages_through :
    ¬ ∀ (s : Session) (user : Id) (as : List Addition) (d : Direction), Reachable s →
      .sorting .id d ∈ as → (Query.built user as).limit = none →
      (Query.built user as).offset = none → (Query.built user as).ConditionsFit → ∀ n, 0 < n →
        ∃ vs, (Action.entries (Query.built user as)).perform s = (.ok vs, s)
          ∧ Query.Pages Action.entries user as n s 0 vs := by
  intro h
  have hq := Query.built_replicate_sorting 1 2001
  have hid : Addition.sorting .id .ascending ∈ List.replicate 2001 (.sorting .id .ascending) :=
    List.mem_replicate.2 ⟨by decide, rfl⟩
  obtain ⟨vs, hvs, -⟩ := h { now := 0 } 1 _ .ascending (.fresh 0) hid (by rw [hq]) (by rw [hq])
    (Query.conditionsFit_replicate_sorting 1 2001) 1 Nat.one_pos
  refine Action.perform_entries_ne_ok ?_ _ vs hvs
  rw [hq, List.length_replicate]
  decide

end FeedStore

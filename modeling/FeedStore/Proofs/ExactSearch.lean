import FeedStore.Proofs.EnclosureReads
import FeedStore.Proofs.TextSearch

/-!
# Searches that distinguish case

A search that distinguishes case asks for its text as it stands. The other search takes the text for
a pattern, and since every character of a pattern stands for itself among others, it holds wherever
the first one does, as long as nothing is cut off at a `U+0000` (`Condition.holds_search_of_exact`).
Which of the two a query has makes no difference to what is tested before them, and nothing that is
tested after them can fail (`Condition.test_exchange`). So whatever the query asks for besides, what
it finds with the first search it finds with the second (`exactSearch_within_search`).
-/

namespace FeedStore

open Text

/-- Neither the titles nor the contents of the store hold a `U+0000`. -/
def Store.LacksNul (s : Store) : Prop :=
  ∀ e ∈ s.entries.rows, '\x00' ∉ e.title.toList ∧ '\x00' ∉ e.content.toList

namespace Condition

/-! ## One row -/

variable {c d : Condition} {cs front back : List Condition} {l : Listed} {ls found : List Listed}

/-- A text that occurs is found by the pattern that it makes, whatever wildcards are in it. -/
theorem mentions_of_isInfix {q text : String} (hq : '\x00' ∉ q.toList) (ht : '\x00' ∉ text.toList)
    (h : q.toList <:+: text.toList) : mentions q text = true := by
  rw [mentions_iff hq, beforeNul_eq_self ht]
  exact Wildcard.matches_within (.refl q.toList) h

theorem holds_search_of_exact {q : String} (hq : '\x00' ∉ q.toList)
    (htitle : '\x00' ∉ l.entry.title.toList) (hcontent : '\x00' ∉ l.entry.content.toList)
    (h : (searchExact q).holds l = true) : (search q).holds l = true := by
  simp only [holds, Bool.or_eq_true, occursIn_iff] at h ⊢
  rcases h with h | h
  · exact Or.inl (mentions_of_isInfix hq htitle h)
  · exact Or.inr (mentions_of_isInfix hq hcontent h)

/-- Patterns are tested neither first nor last. -/
theorem isTooLong_of_stage (h : c.stage ≠ 1) : c.isTooLong = false := by
  cases c with
  | tag t => exact absurd rfl h
  | search q => exact absurd rfl h
  | _ => rfl

/-- When a condition is exchanged for one that holds where it does, a row that could be tested still
can be, and passes if it did. -/
theorem test_exchange (hd : d.isTooLong = false) (hback : ∀ e ∈ back, e.isTooLong = false)
    (hcd : c.holds l = true → d.holds l = true) {keep : Bool}
    (h : test (front ++ c :: back) l = .ok keep) :
    ∃ keep', test (front ++ d :: back) l = .ok keep' ∧ (keep = true → keep' = true) := by
  induction front with
  | nil =>
      -- conditions without a long pattern never fail, so more rows may get to them
      rw [List.nil_append, test, test_eq_all hback] at h
      rw [List.nil_append, test, test_eq_all hback, hd, if_neg Bool.false_ne_true]
      split at h
      · cases h
      · split at h
        · rename_i hholds
          rw [if_pos (hcd hholds)]
          exact ⟨_, h, id⟩
        · obtain rfl : false = keep := Except.ok.inj h
          split
          · exact ⟨_, rfl, fun hfalse => absurd hfalse Bool.false_ne_true⟩
          · exact ⟨_, rfl, fun hfalse => absurd hfalse Bool.false_ne_true⟩
  | cons e front ih =>
      rw [List.cons_append, test] at h
      rw [List.cons_append, test]
      split at h
      · cases h
      · rename_i hlong
        rw [if_neg hlong]
        split at h
        · rename_i hholds
          rw [if_pos hholds]
          exact ih h
        · rename_i hholds
          rw [if_neg hholds]
          exact ⟨_, h, id⟩

/-! ## All rows -/

/-- Rows that are found are found when the conditions are exchanged for ones that let as many
through. -/
theorem exists_select {ds : List Condition}
    (htest : ∀ l ∈ ls, ∀ keep, test cs l = .ok keep →
      ∃ keep', test ds l = .ok keep' ∧ (keep = true → keep' = true))
    (h : select cs ls = .ok found) :
    ∃ found', select ds ls = .ok found' ∧ found.Sublist found' := by
  induction ls generalizing found with
  | nil =>
      cases h
      exact ⟨[], rfl, .slnil⟩
  | cons l ls ih =>
      rw [List.forall_mem_cons] at htest
      unfold select at h ⊢
      cases hkeep : test cs l with
      | error fault =>
          rw [hkeep] at h
          cases h
      | ok keep =>
          cases hrest : select cs ls with
          | error fault =>
              rw [hkeep, hrest] at h
              cases h
          | ok rest =>
              rw [hkeep, hrest] at h
              obtain rfl : (if keep then l :: rest else rest) = found := Except.ok.inj h
              obtain ⟨keep', hkeep', hmore⟩ := htest.1 keep hkeep
              obtain ⟨rest', hrest', hsub⟩ := ih htest.2 hrest
              rw [hkeep', hrest']
              refine ⟨if keep' then l :: rest' else rest', rfl, ?_⟩
              cases keep with
              | true =>
                  rw [hmore rfl]
                  exact hsub.cons_cons l
              | false =>
                  cases keep' with
                  | true => exact hsub.cons l
                  | false => exact hsub

/-- Of two searches that come last, either is tested at the same place. -/
theorem inTestOrder_append_singleton (hc : c.stage = 1) (cs : List Condition) :
    inTestOrder (cs ++ [c])
      = (cs.filter (·.stage == 0) ++ cs.filter (·.stage == 1))
        ++ c :: cs.filter (·.stage == 2) := by
  unfold inTestOrder
  simp [List.filter_append, hc]

/-- Whether a condition asks for no entry at all is up to the others, if this one does not. -/
theorem contains_entryIn_nil (hc : c ≠ .entryIn []) (front back : List Condition) :
    (front ++ c :: back).contains (.entryIn []) = (front ++ back).contains (.entryIn []) := by
  rw [Bool.eq_iff_iff]
  simp [Ne.symm hc]

/-- Conditions nest no deeper when the last one nests less deeply itself. -/
theorem depth_append_singleton_le {m n : Nat} (hmn : m ≤ n) (hc : c.levels = [m])
    (hd : d.levels = [n]) (first : Condition) (hfirst : first.levels ≠ []) (cs : List Condition) :
    depth (first :: (cs ++ [c])) ≤ depth (first :: (cs ++ [d])) := by
  unfold depth
  rw [List.flatMap_cons, List.flatMap_cons, List.flatMap_append, List.flatMap_append,
    List.flatMap_singleton, List.flatMap_singleton, hc, hd]
  cases hlevels : first.levels with
  | nil => exact absurd hlevels hfirst
  | cons level levels =>
      simp only [List.cons_append, List.foldl_append, List.foldl_cons, List.foldl_nil]
      omega

end Condition

/-- What does not exceed the limits of the engine does not with a smaller extent either. -/
theorem Session.refusal?_eq_none_of_le {s : Session} {statement : Statement}
    {extent extent' : Extent} (hvalues : extent'.values ≤ extent.values)
    (hdepth : extent'.depth ≤ extent.depth) (hterms : extent'.terms ≤ extent.terms)
    (h : s.refusal? statement extent = none) : s.refusal? statement extent' = none := by
  obtain ⟨hopen, hextent, hrest⟩ := refusal?_eq_none_iff.1 h
  have hfits : extent'.Fits :=
    ⟨hvalues.trans hextent.values, hdepth.trans hextent.depth, hterms.trans hextent.terms⟩
  exact refusal?_eq_none_iff.2 ⟨hopen, hfits, hrest⟩

theorem exceptMap_eq_ok_iff {ε α β : Type} {f : α → β} {x : Except ε α} {b : β} :
    x.map f = .ok b ↔ ∃ a, x = .ok a ∧ f a = b := by
  cases x <;> simp [Except.map]

theorem Action.perform_readWithin_eq_ok_iff {α : Type} {extent : Extent} {context : String}
    {tables : List TableName} {f : Store → Except Fault α} {s : Session} {a : α} :
    (readWithin extent context tables f).perform s = (.ok a, s)
      ↔ s.refusal? (.select tables) extent = none ∧ f s.store = .ok a := by
  rw [perform_readWithin]
  cases s.refusal? (.select tables) extent with
  | some fault => simp
  | none => cases f s.store <;> simp [Except.mapError]

/-! ## Queries -/

namespace Query

variable {s : Store} {text : String} {q : Query} {ls : List Listed}

theorem allConditions_having (q : Query) (c : Condition) :
    (q.having c).allConditions = q.allConditions ++ [c] := rfl

/-- Rows that are found with the search that distinguishes case are found with the other one. -/
theorem exists_found_withSearch (hs : s.LacksNul) (hshort : text.utf8ByteSize ≤ 49998)
    (htext : '\x00' ∉ text.toList) (h : (q.withExactSearch text).found s = .ok ls) :
    ∃ ls', (q.withSearch text).found s = .ok ls' ∧ ls.Sublist ls' := by
  by_cases hempty : text = ""
  · subst hempty
    exact ⟨ls, h, List.Sublist.refl ls⟩
  · rw [withExactSearch, if_neg hempty] at h
    rw [withSearch, if_neg hempty]
    unfold found at h ⊢
    rw [allConditions_having, Condition.inTestOrder_append_singleton rfl] at h ⊢
    dsimp only at h ⊢
    rw [Condition.contains_entryIn_nil (show Condition.searchExact text ≠ .entryIn [] by simp)] at h
    rw [Condition.contains_entryIn_nil (show Condition.search text ≠ .entryIn [] by simp)]
    split at h
    · rename_i hnone
      rw [if_pos hnone]
      exact ⟨ls, h, List.Sublist.refl ls⟩
    · rename_i hnone
      rw [if_neg hnone]
      refine Condition.exists_select (fun l hl keep => ?_) h
      obtain ⟨htitle, hcontent⟩ := hs l.entry (Store.of_mem_listed hl).1
      refine Condition.test_exchange (Condition.isTooLong_search hshort) (fun c hc => ?_)
        (Condition.holds_search_of_exact htext htitle hcontent)
      refine Condition.isTooLong_of_stage ?_
      rw [beq_iff_eq.1 (List.mem_filter.1 hc).2]
      decide

theorem values_withSearch (q : Query) (text : String) :
    (q.withSearch text).values = (q.withExactSearch text).values := by
  by_cases hempty : text = ""
  · subst hempty
    rfl
  · rw [withSearch, withExactSearch, if_neg hempty, if_neg hempty]
    unfold values
    rw [allConditions_having, allConditions_having, List.map_append, List.map_append]
    rfl

/-- The search that distinguishes case nests no less deeply than the other one. -/
theorem depth_withSearch_le (q : Query) (text : String) :
    Condition.depth (q.withSearch text).allConditions
      ≤ Condition.depth (q.withExactSearch text).allConditions := by
  by_cases hempty : text = ""
  · subst hempty
    exact le_rfl
  · rw [withSearch, withExactSearch, if_neg hempty, if_neg hempty]
    exact Condition.depth_append_singleton_le (by decide : 4 ≤ 5) rfl rfl (.user q.user)
      (List.cons_ne_nil 3 []) q.conditions

/-- A search is neither a limit nor an offset. -/
theorem limit_offset_withSearch (q : Query) (text : String) :
    ((q.withSearch text).limit = q.limit ∧ (q.withSearch text).offset = q.offset)
      ∧ (q.withExactSearch text).limit = q.limit ∧ (q.withExactSearch text).offset = q.offset := by
  unfold withSearch withExactSearch
  split <;> exact ⟨⟨rfl, rfl⟩, rfl, rfl⟩

theorem pageExtent_withSearch (q : Query) (text : String) :
    (q.withSearch text).pageExtent.values = (q.withExactSearch text).pageExtent.values
      ∧ (q.withSearch text).pageExtent.terms = (q.withExactSearch text).pageExtent.terms := by
  obtain ⟨⟨hlimit, hoffset⟩, hlimitExact, hoffsetExact⟩ := q.limit_offset_withSearch text
  unfold pageExtent
  rw [values_withSearch, hlimit, hoffset, hlimitExact, hoffsetExact]
  refine ⟨rfl, ?_⟩
  unfold withSearch withExactSearch
  split <;> rfl

/-- Without limit and offset the listing is whatever was found, sorted. -/
theorem page_eq_map_sort (hlimit : q.limit = none) (hoffset : q.offset = none) (s : Store) :
    q.page s = (q.found s).map (SortTerm.sort q.terms) := by
  unfold page cut
  rw [hlimit, hoffset]
  rfl

/-- Without limit and offset, what is listed with the search that distinguishes case is listed with
the other one. -/
theorem exists_page_withSearch (hs : s.LacksNul) (hshort : text.utf8ByteSize ≤ 49998)
    (htext : '\x00' ∉ text.toList) (hlimit : q.limit = none) (hoffset : q.offset = none)
    (h : (q.withExactSearch text).page s = .ok ls) :
    ∃ ls', (q.withSearch text).page s = .ok ls' ∧ ls ⊆ ls' := by
  obtain ⟨⟨hlimit', hoffset'⟩, hlimitExact, hoffsetExact⟩ := q.limit_offset_withSearch text
  rw [page_eq_map_sort (hlimitExact.trans hlimit) (hoffsetExact.trans hoffset)] at h
  rw [page_eq_map_sort (hlimit'.trans hlimit) (hoffset'.trans hoffset)]
  obtain ⟨found, hfound, rfl⟩ := exceptMap_eq_ok_iff.1 h
  obtain ⟨found', hfound', hsub⟩ := exists_found_withSearch hs hshort htext hfound
  refine ⟨_, exceptMap_eq_ok_iff.2 ⟨found', hfound', rfl⟩, fun l hl => ?_⟩
  exact SortTerm.mem_sort.2 (hsub.subset (SortTerm.mem_sort.1 hl))

theorem matching_withSearch (hs : s.LacksNul) (htext : '\x00' ∉ text.toList) {l : Listed}
    (hl : l ∈ (q.withExactSearch text).matching s) : l ∈ (q.withSearch text).matching s := by
  by_cases hempty : text = ""
  · subst hempty
    exact hl
  · rw [withExactSearch, if_neg hempty, mem_matching, allConditions_having,
      List.forall_mem_append, List.forall_mem_singleton] at hl
    rw [withSearch, if_neg hempty, mem_matching, allConditions_having, List.forall_mem_append,
      List.forall_mem_singleton]
    obtain ⟨hlisted, hrest, hexact⟩ := hl
    obtain ⟨htitle, hcontent⟩ := hs l.entry (Store.of_mem_listed hlisted).1
    exact ⟨hlisted, hrest, Condition.holds_search_of_exact htext htitle hcontent hexact⟩

end Query

/-- What a query finds with the search that distinguishes case it finds with the other one instead,
whatever wildcards the text contains. So it does not count fewer entries then, and without limit and
offset its listing misses none of them. Whenever the engine answers the first query it answers the
second one. -/
theorem exactSearch_within_search {s : Session} (hs : s.store.LacksNul) {text : String}
    (hshort : text.utf8ByteSize ≤ 49998) (htext : '\x00' ∉ text.toList) (q : Query) :
    (∀ l ∈ (q.withExactSearch text).matching s.store, l ∈ (q.withSearch text).matching s.store)
      ∧ (∀ n, (Action.countEntries (q.withExactSearch text)).perform s = (.ok n, s) →
          ∃ m, (Action.countEntries (q.withSearch text)).perform s = (.ok m, s) ∧ n ≤ m)
      ∧ (q.limit = none → q.offset = none → ∀ ids,
          (Action.entryIds (q.withExactSearch text)).perform s = (.ok ids, s) →
            ∃ ids', (Action.entryIds (q.withSearch text)).perform s = (.ok ids', s)
              ∧ ids ⊆ ids') := by
  have hvalues : (q.withSearch text).countExtent.values
      = (q.withExactSearch text).countExtent.values := q.values_withSearch text
  have hdepth := q.depth_withSearch_le text
  refine ⟨fun l hl => Query.matching_withSearch hs htext hl, fun n hn => ?_,
    fun hlimit hoffset ids hids => ?_⟩
  · obtain ⟨haccepted, hcounted⟩ := Action.perform_readWithin_eq_ok_iff.1 hn
    obtain ⟨ls, hfound, rfl⟩ := exceptMap_eq_ok_iff.1 hcounted
    obtain ⟨ls', hfound', hsub⟩ := Query.exists_found_withSearch hs hshort htext hfound
    refine ⟨ls'.length, Action.perform_readWithin_eq_ok_iff.2 ⟨?_, ?_⟩, hsub.length_le⟩
    · exact Session.refusal?_eq_none_of_le hvalues.le hdepth le_rfl haccepted
    · exact exceptMap_eq_ok_iff.2 ⟨ls', hfound', rfl⟩
  · obtain ⟨haccepted, hlisted⟩ := Action.perform_readWithin_eq_ok_iff.1 hids
    obtain ⟨ls, hpage, rfl⟩ := exceptMap_eq_ok_iff.1 hlisted
    obtain ⟨ls', hpage', hsub⟩ :=
      Query.exists_page_withSearch hs hshort htext hlimit hoffset hpage
    refine ⟨ls'.map (·.entry.id), Action.perform_readWithin_eq_ok_iff.2 ⟨?_, ?_⟩,
      List.map_subset _ hsub⟩
    · obtain ⟨hpageValues, hterms⟩ := q.pageExtent_withSearch text
      exact Session.refusal?_eq_none_of_le hpageValues.le hdepth hterms.le haccepted
    · exact exceptMap_eq_ok_iff.2 ⟨ls', hpage', rfl⟩

/-- The percent sign is looked for as such by one search, and stands for any text in the other. -/
theorem exactSearch_within_search_percent :
    ∃ s, Reachable s ∧ s.store.LacksNul
      ∧ (Action.countEntries (({ user := 1 } : Query).withExactSearch "0%")).perform s = (.ok 1, s)
      ∧ (∃ m, (Action.countEntries (({ user := 1 } : Query).withSearch "0%")).perform s = (.ok m, s)
        ∧ 1 ≤ m)
      ∧ (Action.countEntries (({ user := 1 } : Query).withSearch "0%")).perform s = (.ok 2, s) := by
  let s := Session.subscribed.run
    [.refreshFeed 1 1 [{ Candidate.bare "a" 1 with title := "up 10% today" },
      { Candidate.bare "b" 2 with content := "10 years" },
      { Candidate.bare "c" 3 with title := "a tenth" }] false]
  have hs : Reachable s := Reachable.subscribed.run _
  have hnul : s.store.LacksNul := by
    unfold Store.LacksNul
    decide +kernel
  have hexact : (Action.countEntries (({ user := 1 } : Query).withExactSearch "0%")).perform s
      = (.ok 1, s) :=
    Action.perform_readWithin_eq_ok_iff.2 ⟨by decide +kernel, by decide +kernel⟩
  have hother : (Action.countEntries (({ user := 1 } : Query).withSearch "0%")).perform s
      = (.ok 2, s) :=
    Action.perform_readWithin_eq_ok_iff.2 ⟨by decide +kernel, by decide +kernel⟩
  have hshort : "0%".utf8ByteSize ≤ 49998 := by decide
  have htext : '\x00' ∉ "0%".toList := by decide
  obtain ⟨-, hcount, -⟩ := exactSearch_within_search hnul hshort htext { user := 1 }
  exact ⟨s, hs, hnul, hexact, hcount 1 hexact, hother⟩

end FeedStore

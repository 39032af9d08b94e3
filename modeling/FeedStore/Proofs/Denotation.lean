import FeedStore.Proofs.Building
import FeedStore.Proofs.Readable
import Mathlib.Data.Nat.Cast.Order.Ring

/-!
# What a query asks for

Each addition to a query admits some entries (`Addition.Admits`), which is said of the stored rows
alone. A chain of additions asks for the entries of the user that all of them admit, each once,
in the order of the sort terms (`Query.Denotes`). In a reachable session every chain within the
engine's limits is answered with that listing in each of the four ways: as a number, as
identifiers, as entries, and as one entry (`Reachable.answers_built`). Among these limits are
those on how deeply conditions nest and on how many terms there are, and neither can be left out
(`Reachable.not_forall_answers_built`).
-/

namespace FeedStore

/-! ## What an addition admits -/

/-- The text matches the pattern, both up to their first `U+0000`. -/
def Text.Wildcard.Fits (pattern text : String) : Prop :=
  Matches (beforeNul pattern.toList) (beforeNul text.toList)

theorem Text.Wildcard.matchText_iff {pattern text : String} :
    matchText pattern text = true ↔ Fits pattern text := matchChars_iff

namespace Filter

/-- The filter admits the entry of the store. -/
def Admits (s : Store) (e : Entry) : Filter → Prop
  | status st => e.status = .known st
  | feed id => 0 < id → e.feedId = id
  | category id => 0 < id → ∃ f ∈ s.feeds.rows, f.id = e.feedId ∧ f.categoryId = id
  | starred b => e.starred = b
  | tags ts => ∀ t ∈ ts,
      Text.Wildcard.Fits (Condition.tagPattern t) (String.ofList (Text.foldChars e.tags.toList))
  | search text => text ≠ "" → Text.Wildcard.Fits (Condition.searchPattern text) e.title
      ∨ Text.Wildcard.Fits (Condition.searchPattern text) e.content
  | shown => ∃ f ∈ s.feeds.rows, f.id = e.feedId ∧ f.hideGlobally = false
      ∧ ∃ c ∈ s.categories.rows, c.id = f.categoryId ∧ c.hideGlobally = false

end Filter

namespace Addition

/-- The addition admits the entry of the store. What is no filter admits every entry. -/
def Admits (s : Store) (e : Entry) : Addition → Prop
  | filter f => f.Admits s e
  | statuses ss => ss ≠ [] → ∃ st ∈ ss, e.status = .known st
  | statusNot st => e.status ≠ .known st
  | exactSearch text => text ≠ "" →
      text.toList <:+: e.title.toList ∨ text.toList <:+: e.content.toList
  | entry id => e.id = id
  | entries ids => e.id ∈ ids
  | shareCode code => e.shareCode = code
  | publishedAfter time => time < e.publishedAt
  | publishedBefore time => e.publishedAt < time
  | createdAfter time => time < e.createdAt
  | changedAfter time => time < e.changedAt
  | sorting _ _ | limit _ | offset _ => True

end Addition

/-! ### Conditions and what they admit -/

/-- Feed and category are those that the entry refers to. -/
structure Store.Joins (s : Store) (l : Listed) : Prop where
  feed : l.feed ∈ s.feeds.rows
  feedId : l.feed.id = l.entry.feedId
  category : l.category ∈ s.categories.rows
  categoryId : l.category.id = l.feed.categoryId

theorem Store.joins_of_mem_listed {s : Store} {l : Listed} (h : l ∈ s.listed) : s.Joins l := by
  have h := (of_mem_listed h).2
  simp only [listed?, Option.bind_eq_bind, Option.bind_eq_some_iff] at h
  obtain ⟨f, hf, c, hc, h⟩ := h
  have hfeed : f.id = l.entry.feedId := by simpa using List.find?_some hf
  have hcategory : c.id = f.categoryId := by simpa using List.find?_some hc
  rw [← Option.some.inj h]
  exact ⟨List.mem_of_find?_eq_some hf, hfeed, List.mem_of_find?_eq_some hc, hcategory⟩

/-- The feed of an entry is the only one with its identifier. -/
theorem Store.Joins.exists_feed_iff {s : Store} {l : Listed} (hs : s.Integrity) (h : s.Joins l)
    {P : Feed → Prop} : (∃ f ∈ s.feeds.rows, f.id = l.entry.feedId ∧ P f) ↔ P l.feed := by
  constructor
  · rintro ⟨f, hf, hid, hp⟩
    rwa [hs.feeds.distinct.eq_of_eq h.feed hf (h.feedId.trans hid.symm)]
  · exact fun hp => ⟨l.feed, h.feed, h.feedId, hp⟩

theorem Store.Joins.exists_category_iff {s : Store} {l : Listed} (hs : s.Integrity) (h : s.Joins l)
    {P : Category → Prop} :
    (∃ c ∈ s.categories.rows, c.id = l.feed.categoryId ∧ P c) ↔ P l.category := by
  constructor
  · rintro ⟨c, hc, hid, hp⟩
    rwa [hs.categories.distinct.eq_of_eq h.category hc (h.categoryId.trans hid.symm)]
  · exact fun hp => ⟨l.category, h.category, h.categoryId, hp⟩

/-- An entry is joined with one feed and one category only. -/
theorem Store.Joins.eq_of_entry_eq {s : Store} {l m : Listed} (hs : s.Integrity) (h : s.Joins l)
    (h' : s.Joins m) (he : l.entry = m.entry) : l = m := by
  have hfeed : l.feed = m.feed := by
    refine hs.feeds.distinct.eq_of_eq h.feed h'.feed ?_
    rw [h.feedId, h'.feedId, he]
  have hcategory : l.category = m.category := by
    refine hs.categories.distinct.eq_of_eq h.category h'.category ?_
    rw [h.categoryId, h'.categoryId, hfeed]
  cases l
  cases m
  subst he hfeed hcategory
  rfl

/-- The conditions of a filter hold of a row exactly when the filter admits its entry. -/
theorem Filter.forall_holds_iff {s : Store} {l : Listed} (hs : s.Integrity) (hl : s.Joins l)
    (f : Filter) : (∀ c ∈ f.conditions, c.holds l = true) ↔ f.Admits s l.entry := by
  cases f with
  | status st => simp [conditions, Condition.holds, Admits]
  | feed id =>
      by_cases hid : id ≤ 0
      · simp [conditions, Admits, hid, Int.not_lt.2 hid]
      · simp [conditions, Condition.holds, Admits, hid, Int.not_le.1 hid]
  | category id =>
      have hfeed := hl.exists_feed_iff hs (P := fun f => f.categoryId = id)
      by_cases hid : id ≤ 0
      · simp [conditions, Admits, hid, Int.not_lt.2 hid]
      · simp [conditions, Condition.holds, Admits, hid, Int.not_le.1 hid, hfeed, hl.categoryId]
  | starred b => simp [conditions, Condition.holds, Admits]
  | tags ts => simp [conditions, Condition.holds, Condition.hasTag, Admits,
      Text.Wildcard.matchText_iff]
  | search text =>
      by_cases htext : text = ""
      · simp [conditions, Admits, htext]
      · simp [conditions, Condition.holds, Condition.mentions, Admits, htext,
          Text.Wildcard.matchText_iff]
  | shown =>
      simp [conditions, Condition.holds, Admits, hl.exists_feed_iff hs, hl.exists_category_iff hs]

/-- The conditions of an addition hold of a row exactly when the addition admits its entry. -/
theorem Addition.forall_holds_iff {s : Store} {l : Listed} (hs : s.Integrity) (hl : s.Joins l)
    (a : Addition) : (∀ c ∈ a.conditions, c.holds l = true) ↔ a.Admits s l.entry := by
  cases a with
  | filter f => exact f.forall_holds_iff hs hl
  | statuses ss =>
      by_cases hss : ss = []
      · simp [conditions, Admits, hss]
      · simp [conditions, Condition.holds, Admits, hss]
  | exactSearch text =>
      by_cases htext : text = ""
      · simp [conditions, Admits, htext]
      · simp [conditions, Condition.holds, Admits, htext, Text.occursIn_iff]
  | statusNot _ | entry _ | entries _ | shareCode _ | publishedAfter _ | publishedBefore _
  | createdAfter _ | changedAfter _ => simp [conditions, Condition.holds, Admits]
  | sorting _ _ | limit _ | offset _ => simp [conditions, Admits]

theorem Addition.admits_of_not_isFilter {s : Store} {e : Entry} {a : Addition}
    (h : ¬ a.IsFilter) : a.Admits s e := by
  cases a with
  | sorting field direction => trivial
  | limit n => trivial
  | offset n => trivial
  | _ => exact absurd trivial h

/-! ## What a chain of additions asks for -/

namespace Query

/-- The rows that a chain of additions asks for: every entry of the user that all of them admit,
once, with its feed and category, in the order of the sort terms. -/
structure Denotes (user : Id) (as : List Addition) (s : Store) (ls : List Listed) : Prop where
  joins : ∀ l ∈ ls, s.Joins l
  mem_iff : ∀ e, (∃ l ∈ ls, l.entry = e)
    ↔ e ∈ s.entries.rows ∧ e.userId = user ∧ ∀ a ∈ as, a.Admits s e
  once : (ls.map (·.entry.id)).Nodup
  ordered : ls.Pairwise (SortTerm.Ordered (as.flatMap Addition.terms))

variable {user : Id} {as bs : List Addition} {s : Store} {ls : List Listed}

theorem mem_matching_built (hs : s.Integrity) {l : Listed} :
    l ∈ (built user as).matching s
      ↔ l ∈ s.listed ∧ l.entry.userId = user ∧ ∀ a ∈ as, a.Admits s l.entry := by
  rw [mem_matching]
  refine and_congr_right fun hl => ?_
  have hjoins := Store.joins_of_mem_listed hl
  rw [allConditions, List.forall_mem_cons]
  refine and_congr ?_ ⟨fun h a ha => ?_, fun h c hc => ?_⟩
  · rw [built_eq]
    exact beq_iff_eq
  · rw [← a.forall_holds_iff hs hjoins]
    exact fun c hc => h c (mem_built_conditions.2 ⟨a, ha, hc⟩)
  · obtain ⟨a, ha, hc⟩ := mem_built_conditions.1 hc
    exact (a.forall_holds_iff hs hjoins).2 (h a ha) c hc

/-- The listing of the query that a chain builds is what the chain asks for. -/
theorem denotes_sorted (hs : s.Integrity) (user : Id) (as : List Addition) :
    Denotes user as s ((built user as).sorted s) := by
  have hmem : ∀ l, l ∈ (built user as).sorted s
      ↔ l ∈ s.listed ∧ l.entry.userId = user ∧ ∀ a ∈ as, a.Admits s l.entry :=
    fun l => SortTerm.mem_sort.trans (mem_matching_built hs)
  have hterms : (built user as).terms = as.flatMap Addition.terms := by rw [built_eq]
  refine ⟨fun l hl => ?_, fun e => ⟨?_, ?_⟩, nodup_id_sorted _ hs, ?_⟩
  · exact Store.joins_of_mem_listed ((hmem l).1 hl).1
  · rintro ⟨l, hl, rfl⟩
    obtain ⟨hlisted, hrest⟩ := (hmem l).1 hl
    exact ⟨(Store.of_mem_listed hlisted).1, hrest⟩
  · rintro ⟨he, hrest⟩
    obtain ⟨l, hl, rfl⟩ := hs.exists_listed he
    exact ⟨l, (hmem l).2 ⟨hl, hrest⟩, rfl⟩
  · rw [← hterms]
    exact SortTerm.ordered_sort _ _

/-- Chains with the same filters ask for the same rows, however often and in whatever order each
of them comes. -/
theorem Denotes.perm (hs : s.Integrity) {ms : List Listed} (h : Denotes user as s ls)
    (h' : Denotes user bs s ms) (hsame : ∀ a : Addition, a.IsFilter → (a ∈ as ↔ a ∈ bs)) :
    ls.Perm ms := by
  have hadmits : ∀ e, (∀ a ∈ as, a.Admits s e) ↔ ∀ a ∈ bs, a.Admits s e := by
    refine fun e => forall_congr' fun a => ?_
    by_cases ha : a.IsFilter
    · rw [hsame a ha]
    · exact iff_of_true (fun _ => a.admits_of_not_isFilter ha) fun _ => a.admits_of_not_isFilter ha
  have hmem : ∀ {cs ds : List Addition} {xs ys : List Listed}, Denotes user cs s xs →
      Denotes user ds s ys → (∀ e, (∀ a ∈ cs, a.Admits s e) → ∀ a ∈ ds, a.Admits s e) →
      ∀ l ∈ xs, l ∈ ys := by
    intro cs ds xs ys hx hy hcd l hl
    obtain ⟨he, huser, hcs⟩ := (hx.mem_iff l.entry).1 ⟨l, hl, rfl⟩
    obtain ⟨m, hm, hentry⟩ := (hy.mem_iff l.entry).2 ⟨he, huser, hcd _ hcs⟩
    rwa [← (hy.joins m hm).eq_of_entry_eq hs (hx.joins l hl) hentry]
  rw [List.perm_ext_iff_of_nodup (List.Nodup.of_map _ h.once) (List.Nodup.of_map _ h'.once)]
  exact fun l => ⟨hmem h h' (fun e => (hadmits e).1) l, hmem h' h (fun e => (hadmits e).2) l⟩

/-- An empty list of entries asks for nothing. -/
theorem Denotes.eq_nil (h : Denotes user as s ls) (hnone : .entries [] ∈ as) : ls = [] := by
  refine List.eq_nil_iff_forall_not_mem.2 fun l hl => ?_
  obtain ⟨-, -, hadmits⟩ := (h.mem_iff l.entry).1 ⟨l, hl, rfl⟩
  exact List.not_mem_nil (hadmits _ hnone)

/-! ## The four answers -/

/-- The limit that counts, the last positive one. -/
def lastLimit (as : List Addition) : Option Int := (as.flatMap Addition.limits).getLast?

/-- The offset that counts, the last positive one, or zero. -/
def lastOffset (as : List Addition) : Int := (as.flatMap Addition.offsets).getLast?.getD 0

/-- The part of a listing that limit and offset leave. -/
def window (as : List Addition) (ls : List Listed) : List Listed :=
  (ls.drop (lastOffset as).toNat).take (match lastLimit as with
    | some n => n.toNat
    | none => ls.length)

/-- The four ways to answer a chain of additions, for the rows that it asks for. -/
structure Answers (user : Id) (as : List Addition) (s : Session) (ls : List Listed) : Prop where
  count : (Action.countEntries (built user as)).perform s = (.ok ls.length, s)
  entries : ∃ vs, (Action.entries (built user as)).perform s = (.ok vs, s)
    ∧ List.Forall₂ (Listed.ShownAs s.store) (window as ls) vs
    ∧ (vs.length : Int) = (match lastLimit as with
        | some n => min n (max 0 (ls.length - lastOffset as))
        | none => max 0 (ls.length - lastOffset as))
  ids : (Action.entryIds (built user as)).perform s
    = (.ok ((window as ls).map (·.entry.id)), s)
  first : ∃ v, (Action.firstEntry (built user as)).perform s = (.ok v, s)
    ∧ Option.Rel (Listed.ShownAs s.store) ls[(lastOffset as).toNat]? v

theorem cut_built : (built user as).cut ls = window as ls := by
  rw [built_eq]
  unfold cut window lastLimit lastOffset
  dsimp only
  cases (as.flatMap Addition.limits).getLast? with
  | some n => rfl
  | none =>
      refine (List.take_of_length_le ?_).symm
      rw [List.length_drop]
      exact Nat.sub_le _ _

theorem lastLimit_pos {n : Int} (h : lastLimit as = some n) : 0 < n := by
  obtain ⟨a, -, ha⟩ := List.mem_flatMap.1 (List.mem_of_getLast? h)
  cases a with
  | limit m =>
      by_cases hm : m ≤ 0
      · simp [Addition.limits, hm] at ha
      · simp only [Addition.limits, if_neg hm, List.mem_singleton] at ha
        rw [ha]
        exact Int.not_le.1 hm
  | _ => cases ha

theorem lastOffset_nonneg (as : List Addition) : 0 ≤ lastOffset as := by
  unfold lastOffset
  cases h : (as.flatMap Addition.offsets).getLast? with
  | none => exact le_rfl
  | some n =>
      obtain ⟨a, -, ha⟩ := List.mem_flatMap.1 (List.mem_of_getLast? h)
      cases a with
      | offset m =>
          by_cases hm : m ≤ 0
          · simp [Addition.offsets, hm] at ha
          · simp only [Addition.offsets, if_neg hm, List.mem_singleton] at ha
            rw [ha]
            exact Int.le_of_lt (Int.not_le.1 hm)
      | _ => cases ha

theorem length_window (as : List Addition) (ls : List Listed) :
    ((window as ls).length : Int) = (match lastLimit as with
      | some n => min n (max 0 (ls.length - lastOffset as))
      | none => max 0 (ls.length - lastOffset as)) := by
  have hoffset := lastOffset_nonneg as
  have hrest : ((ls.drop (lastOffset as).toNat).length : Int)
      = max 0 (ls.length - lastOffset as) := by
    rw [List.length_drop, max_def]
    split
    · omega
    · omega
  unfold window
  rw [List.length_take, Nat.cast_min, hrest]
  cases h : lastLimit as with
  | some n => rw [Int.toNat_of_nonneg (lastLimit_pos h).le]
  | none =>
      refine min_eq_right ?_
      rw [← hrest, List.length_drop]
      dsimp only
      omega

/-- Every chain within the limits is answered with the listing of its query. -/
theorem answers_sorted {s : Session} (hs : Reachable s) (hq : (built user as).WithinLimits) :
    Answers user as s ((built user as).sorted s.store) := by
  obtain ⟨vs, hvs, hshown⟩ := Action.perform_entries hs hq
  obtain ⟨v, hv, hrel⟩ := Action.perform_firstEntry hs hq
  have hoffset : (built user as).offset.getD 0 = lastOffset as := by
    rw [built_eq]
    rfl
  rw [cut_built] at hshown
  rw [hoffset] at hrel
  refine ⟨Action.perform_countEntries hs.ready hq.toConditionsFit, ⟨vs, hvs, hshown, ?_⟩, ?_, v, hv,
    hrel⟩
  · rw [← length_window, hshown.length_eq]
  · rw [Action.perform_entryIds hs.ready hq, cut_built]

end Query

/-- A chain of additions denotes its entries: in a reachable session it is answered with exactly
the entries of the user that all additions admit, sorted, then cut. They are counted without being
sorted, so for that there may be any number of terms. Only the set of filters decides which entries
these are, additions that say nothing change nothing, and an empty list of entries asks for nothing. -/
theorem Reachable.answers_built {s : Session} {user : Id} {as : List Addition} (hs : Reachable s)
    (hq : (Query.built user as).ConditionsFit) :
    (∃ ls, Query.Denotes user as s.store ls
        ∧ (Action.countEntries (Query.built user as)).perform s = (.ok ls.length, s)
        ∧ ((as.flatMap Addition.terms).length ≤ maxTerms → Query.Answers user as s ls))
      ∧ (∀ bs : List Addition, (∀ a : Addition, a.IsFilter → (a ∈ as ↔ a ∈ bs)) →
          ∀ ls ms, Query.Denotes user as s.store ls → Query.Denotes user bs s.store ms →
            ls.Perm ms)
      ∧ (∀ front a back, as = front ++ a :: back → a.IsIdle →
          Query.built user as = Query.built user (front ++ back))
      ∧ (Addition.entries [] ∈ as → ∀ ls, Query.Denotes user as s.store ls → ls = []) := by
  refine ⟨⟨_, Query.denotes_sorted hs.integrity user as, Action.perform_countEntries hs.ready hq,
      fun hfew => Query.answers_sorted hs ⟨hq, ?_⟩⟩,
    fun bs hsame ls ms hls hms => hls.perm hs.integrity hms hsame,
    fun front a back has hidle => ?_, fun hnone ls hls => hls.eq_nil hnone⟩
  · rw [Query.built_eq]
    exact hfew
  · rw [has, Query.built_idle hidle]

/-- A chain with filters that repeat, additions that say nothing, sort terms and an offset. -/
def Addition.repeated : List Addition :=
  [.filter (.feed 1), .offset 1, .filter (.search ""), .sorting .publishedAt .descending,
    .entries [3, 2, 1], .filter (.feed 1), .publishedAfter 10, .limit 0, .limit 5,
    .sorting .id .ascending]

/-- Two of the three entries were published late enough, and one of them lies behind the offset. -/
theorem Reachable.answers_built_repeated :
    ∃ ls vs, Query.Denotes 1 Addition.repeated Session.published.store ls ∧ ls.length = 2
      ∧ (Action.entries (Query.built 1 Addition.repeated)).perform .published
          = (.ok vs, .published)
      ∧ vs.length = 1 := by
  have hs : Reachable .published := Reachable.subscribed.run _
  have hq : (Query.built 1 Addition.repeated).ConditionsFit :=
    ⟨by decide +kernel, by decide +kernel, by decide +kernel⟩
  obtain ⟨⟨ls, hls, -, hsorted⟩, -⟩ := hs.answers_built hq
  have hanswers := hsorted (by decide)
  have hcount : (Action.countEntries (Query.built 1 Addition.repeated)).perform .published
      = (.ok 2, .published) := by rfl
  obtain ⟨hlength, -⟩ := Prod.mk.inj (hanswers.count.symm.trans hcount)
  have hlength : ls.length = 2 := Except.ok.inj hlength
  obtain ⟨vs, hvs, -, hwindow⟩ := hanswers.entries
  refine ⟨ls, vs, hls, hlength, hvs, ?_⟩
  rw [hlength] at hwindow
  exact Int.ofNat.inj hwindow

/-- The engine does not sort by too many terms. -/
theorem Action.perform_entries_ne_ok {q : Query} (h : maxTerms < q.terms.length) (s : Session)
    (vs : List EntryView) : (entries q).perform s ≠ (.ok vs, s) := by
  intro hvs
  unfold entries at hvs
  rw [perform_bind, perform_readWithin] at hvs
  cases hrefusal : s.refusal? (.select listingTables) q.pageExtent with
  | some fault =>
      rw [hrefusal] at hvs
      cases hvs
  | none =>
      have hterms : q.terms.length ≤ maxTerms := (Session.refusal?_eq_none_iff.1 hrefusal).2.1.terms
      exact absurd h (Nat.not_lt.2 hterms)

/-- A chain that sorts by identifiers over and over. -/
theorem Query.built_replicate_sorting (user : Id) (n : Nat) :
    built user (List.replicate n (.sorting .id .ascending))
      = { user, terms := List.replicate n ⟨.id, .ascending⟩ } := by
  simp [built_eq, List.flatMap_replicate, Addition.conditions, Addition.terms, Addition.limits,
    Addition.offsets]

theorem Query.conditionsFit_replicate_sorting (user : Id) (n : Nat) :
    (built user (List.replicate n (.sorting .id .ascending))).ConditionsFit := by
  rw [built_replicate_sorting]
  exact conditionsFit_of_isPlain rfl rfl (Nat.zero_le _)

/-- Limits on values, tags and patterns alone do not do: conditions of other kinds nest as well, and
a chain of too many of them gets no answer. Nor do limits on the conditions, for the terms count too. -/
theorem Reachable.not_forall_answers_built :
    (¬ ∀ (s : Session) (user : Id) (as : List Addition), Reachable s →
        (Query.built user as).values + 2 ≤ maxValues →
        ((Query.built user as).conditions.countP fun c => c matches .tag _) < 900 →
        (∀ c ∈ (Query.built user as).conditions, c.isTooLong = false) →
          ∃ ls, Query.Denotes user as s.store ls ∧ Query.Answers user as s ls)
      ∧ ¬ ∀ (s : Session) (user : Id) (as : List Addition), Reachable s →
        (Query.built user as).ConditionsFit →
          ∃ ls, Query.Denotes user as s.store ls ∧ Query.Answers user as s ls := by
  constructor
  · intro h
    have hq := Query.built_eq 1 (List.replicate 1100 (.filter (.starred true)))
    obtain ⟨ls, -, hanswers⟩ := h { now := 0 } 1 (List.replicate 1100 (.filter (.starred true)))
      (.fresh 0) (by rw [hq]; decide +kernel) (by rw [hq]; decide +kernel)
      (by rw [hq]; decide +kernel)
    have hrefused : ({ now := 0 } : Session).refusal? (.select Action.listingTables)
        (Query.built 1 (List.replicate 1100 (.filter (.starred true)))).countExtent
        = some .tooDeep := by
      rw [hq]
      decide +kernel
    have hcount := hanswers.count
    unfold Action.countEntries at hcount
    rw [Action.perform_readWithin, hrefused] at hcount
    cases hcount
  · intro h
    obtain ⟨ls, -, hanswers⟩ := h { now := 0 } 1 _ (.fresh 0)
      (Query.conditionsFit_replicate_sorting 1 2001)
    obtain ⟨vs, hvs, -⟩ := hanswers.entries
    refine Action.perform_entries_ne_ok ?_ _ vs hvs
    rw [Query.built_replicate_sorting, List.length_replicate]
    decide

end FeedStore

import FeedStore.Operation.Listing
import FeedStore.Proofs.Attachments
import FeedStore.Proofs.Sorting
import FeedStore.Proofs.Views

/-!
# What a reader gets of a listing

Every row that a run has left behind is readable: its status is one of the three and its tags were
written as a list (`Reachable.readable`). So a listing of stored rows never fails on a row, and
it shows each of them with exactly the enclosures that it has, in however many batches these are
looked up (`Action.perform_attachEnclosures`). With that a query within the engine's limits is
answered in each of the four ways.
-/

namespace FeedStore

/-! ## Readable rows -/

/-- The status is one of the three, and the tags were written as a list of texts. -/
def Entry.Readable (e : Entry) : Prop :=
  ∃ status tags, e.status = .known status ∧ e.tags = Json.TextArray.encode tags

namespace Store

open Table

variable {s t : Store} {now : Int}

/-- Every entry of the store is readable. -/
def Readable (s : Store) : Prop := ∀ e ∈ s.entries.rows, e.Readable

/-- Statements write statuses by name and tags as lists. -/
theorem Readable.step (h : s.Readable) (hs : s.Step now t) : t.Readable := by
  -- a change of the status alone, or of neither status nor tags
  have hstatus : ∀ e e' : Entry, e.Readable → ∀ status, e'.status = .known status →
      e'.tags = e.tags → e'.Readable := by
    rintro e e' ⟨-, tags, -, htags⟩ status hstatus htags'
    exact ⟨status, tags, hstatus, htags'.trans htags⟩
  cases hs with
  | addUser _ ht =>
      obtain ⟨-, -, rfl⟩ := of_addUser ht
      exact h
  | addCategory _ ht =>
      obtain ⟨-, -, -, rfl⟩ := of_addCategory ht
      exact h
  | addFeed _ ht =>
      obtain ⟨-, -, -, -, rfl⟩ := of_addFeed ht
      exact h
  | addEntry _ ht =>
      obtain ⟨-, -, -, rfl⟩ := of_addEntry ht
      exact forall_mem_rows_add h ⟨.unread, _, rfl, rfl⟩
  | putEnclosure _ _ ht =>
      rw [putEnclosure_frame ht]
      exact h
  | setShareCode ht =>
      obtain ⟨-, -, rfl⟩ := of_setShareCode ht
      exact forall_mem_rows_modify _ h fun _ he => he
  | refreshEntry user feed c =>
      refine forall_mem_rows_modify _ h fun e he => ?_
      obtain ⟨status, -, hknown, -⟩ := he
      exact ⟨status, c.tags, hknown, rfl⟩
  | updateText user entry title content readingTime => exact forall_mem_rows_modify _ h fun _ he => he
  | setStatus user ids status => exact forall_mem_rows_modify _ h fun e he => hstatus e _ he status rfl rfl
  | setStar user ids starred => exact forall_mem_rows_modify _ h fun _ he => he
  | toggleStar user entry => exact forall_mem_rows_modify _ h fun _ he => he
  | markRead user p => exact forall_mem_rows_modify _ h fun e he => hstatus e _ he .read rfl rfl
  | archive status cutoff limit => exact forall_mem_rows_modify _ h fun e he => hstatus e _ he .removed rfl rfl
  | flush user => exact forall_mem_rows_modify _ h fun e he => hstatus e _ he .removed rfl rfl
  | removeUser user => exact forall_mem_rows_erase _ h
  | removeCategory user category => exact forall_mem_rows_erase _ h
  | removeFeed user feed => exact forall_mem_rows_erase _ h
  | eraseBatch user feed size => exact forall_mem_rows_erase _ h
  | sweep feed _ => exact forall_mem_rows_erase _ h
  | _ => exact h

theorem Readable.steps (h : s.Readable) (hs : s.Steps now t) : t.Readable := by
  induction hs with
  | refl => exact h
  | tail _ hst ih => exact ih.step hst

/-- With its feed and its category there, every entry is listed. -/
theorem Integrity.exists_listed (hs : s.Integrity) {e : Entry} (he : e ∈ s.entries.rows) :
    ∃ l ∈ s.listed, l.entry = e := by
  obtain ⟨f, hf, hfid⟩ := holds_id_iff.1 (hs.entryFeed e he)
  obtain ⟨c, hc, hcid⟩ := holds_id_iff.1 (hs.feedCategory f hf)
  have hl : s.listed? e = some ⟨e, f, c⟩ := by
    unfold listed?
    rw [hs.feeds.find?_id hf hfid, Option.bind_eq_bind, Option.bind_some,
      hs.categories.find?_id hc hcid]
    rfl
  exact ⟨_, List.mem_filterMap.2 ⟨e, he, hl⟩, rfl⟩

end Store

/-- Every entry that a run has left behind is readable. -/
theorem Reachable.readable {s : Session} (h : Reachable s) : s.store.Readable := by
  refine h.invariant (P := fun s => s.store.Readable) (fun _ => ?_) fun s c hs => ?_
  · intro e he
    cases he
  · exact hs.steps (c.takes_next s).store

/-! ## Shown rows -/

/-- What the reader gets is the row, decoded, with its feed's title, its category and all of its
enclosures. -/
def Listed.ShownAs (s : Store) (l : Listed) (v : EntryView) : Prop :=
  ∃ status tags, l.entry.status = .known status ∧ l.entry.tags = Json.TextArray.encode tags
    ∧ v = { l.viewWith status tags with enclosures := s.attached l.entry.id }

theorem Listed.ShownAs.id {s : Store} {l : Listed} {v : EntryView} (h : l.ShownAs s v) :
    v.id = l.entry.id := by
  obtain ⟨status, tags, -, -, rfl⟩ := h
  rfl

/-- A row is shown in one way only. -/
theorem Listed.ShownAs.unique {s : Store} {l : Listed} {v w : EntryView} (h : l.ShownAs s v)
    (h' : l.ShownAs s w) : v = w := by
  obtain ⟨status, tags, hstatus, htags, rfl⟩ := h
  obtain ⟨status', tags', hstatus', htags', rfl⟩ := h'
  obtain rfl : status = status' := StoredStatus.known.inj (hstatus.symm.trans hstatus')
  obtain rfl : tags = tags' := by
    have hdecode := congrArg Json.TextArray.decode? (htags.symm.trans htags')
    rw [Json.TextArray.decode?_encode, Json.TextArray.decode?_encode] at hdecode
    exact Option.some.inj hdecode
  rfl

/-- Lists that agree element by element in some respect agree in it as a whole. -/
theorem map_eq_of_forall₂ {α β γ : Type} {R : α → β → Prop} {f : α → γ} {g : β → γ} {as : List α}
    {bs : List β} (h : List.Forall₂ R as bs) (hR : ∀ a b, R a b → g b = f a) :
    bs.map g = as.map f := by
  induction h with
  | nil => rfl
  | cons hab _ ih => rw [List.map_cons, List.map_cons, hR _ _ hab, ih]

/-- Each of the second list has one of the first to go with it. -/
theorem exists_of_forall₂ {α β : Type} {R : α → β → Prop} {as : List α} {bs : List β} {b : β}
    (h : List.Forall₂ R as bs) (hb : b ∈ bs) : ∃ a ∈ as, R a b := by
  induction h with
  | nil => cases hb
  | @cons a b' as bs hab _ ih =>
      rcases List.mem_cons.1 hb with rfl | hb
      · exact ⟨a, List.mem_cons_self, hab⟩
      · obtain ⟨c, hc, hcb⟩ := ih hb
        exact ⟨c, List.mem_cons_of_mem _ hc, hcb⟩

/-- Enclosures that are looked up for some entries are those of each of them and no others. -/
theorem Store.filter_enclosuresOfAll (s : Store) (ids : List Id) (id : Id) :
    (s.enclosuresOfAll ids).filter (·.entryId == id) = if id ∈ ids then s.attached id else [] := by
  unfold enclosuresOfAll attached Table.select
  rw [List.filter_filter]
  split
  · rename_i hmem
    refine List.filter_congr fun x _ => ?_
    by_cases hx : x.entryId = id
    · simp [hx, hmem]
    · simp [hx]
  · rename_i hmem
    refine List.filter_eq_nil_iff.2 fun x _ hx => ?_
    simp only [Bool.and_eq_true, beq_iff_eq, List.contains_iff_mem] at hx
    exact hmem (hx.1 ▸ hx.2)

namespace Action

variable {s : Session} {ls : List Listed} {ids : List Id}

/-- Readable rows are decoded one by one. -/
theorem perform_views (h : ∀ l ∈ ls, l.entry.Readable) :
    ∃ vs, (views ls).perform s = (.ok vs, s)
      ∧ List.Forall₂ (fun l v => ∃ status tags, l.entry.status = .known status
          ∧ l.entry.tags = Json.TextArray.encode tags ∧ v = l.viewWith status tags) ls vs := by
  induction ls with
  | nil => exact ⟨[], rfl, .nil⟩
  | cons l ls ih =>
      obtain ⟨⟨status, tags, hstatus, htags⟩, hls⟩ := List.forall_mem_cons.1 h
      obtain ⟨vs, hvs, hall⟩ := ih hls
      refine ⟨l.viewWith status tags :: vs, ?_, .cons ⟨status, tags, hstatus, htags, rfl⟩ hall⟩
      unfold views
      rw [Listed.view_eq hstatus htags]
      dsimp only
      rw [perform_bind, hvs]
      rfl

/-- A batch never exceeds the number of values that a statement may bind. -/
theorem perform_enclosuresOfEntries_cons (hs : s.Ready) (hne : ids ≠ []) {rest : List Enclosure}
    (hrest : (enclosuresOfEntries (ids.drop enclosureBatch)).perform s = (.ok rest, s)) :
    (enclosuresOfEntries ids).perform s
      = (.ok (s.store.enclosuresOfAll (ids.take enclosureBatch) ++ rest), s) := by
  have hvalues : (ids.take enclosureBatch).length ≤ maxValues :=
    (List.length_take_le _ _).trans (by decide)
  rw [enclosuresOfEntries, if_neg hne]
  dsimp only
  rw [perform_bind, perform_readWithin, hs.refusal? _ (.of_values hvalues)]
  dsimp only [Except.mapError]
  rw [perform_bind, hrest]
  rfl

/-- However many entries are looked up, each comes with its enclosures, whichever batch it is in. -/
theorem perform_enclosuresOfEntries (hs : s.Ready) (ids : List Id) :
    ∃ xs, (enclosuresOfEntries ids).perform s = (.ok xs, s)
      ∧ (ids.Nodup →
        ∀ id, xs.filter (·.entryId == id) = if id ∈ ids then s.store.attached id else []) := by
  induction ids using enclosuresOfEntries.induct with
  | case1 => exact ⟨[], by rw [enclosuresOfEntries]; rfl, fun _ id => rfl⟩
  | case2 ids hne ih =>
      obtain ⟨rest, hrest, hfilter⟩ := ih
      refine ⟨_, perform_enclosuresOfEntries_cons hs hne hrest, fun hids id => ?_⟩
      have hsplit : ids.take enclosureBatch ++ ids.drop enclosureBatch = ids :=
        List.take_append_drop _ _
      rw [← hsplit, List.nodup_append] at hids
      obtain ⟨-, hdrop, hdisjoint⟩ := hids
      rw [List.filter_append, Store.filter_enclosuresOfAll, hfilter hdrop]
      have hmem : id ∈ ids ↔ id ∈ ids.take enclosureBatch ∨ id ∈ ids.drop enclosureBatch := by
        rw [← List.mem_append, hsplit]
      by_cases htake : id ∈ ids.take enclosureBatch
      · have hnot : id ∉ ids.drop enclosureBatch := fun h => hdisjoint id htake id h rfl
        rw [if_pos htake, if_neg hnot, if_pos (hmem.2 (Or.inl htake)), List.append_nil]
      · rw [if_neg htake, List.nil_append]
        simp only [hmem, htake, false_or]

/-- Rows told apart by their identifiers are shown with their enclosures. -/
theorem perform_attachEnclosures (hs : s.Ready) {vs : List EntryView}
    (hvs : (vs.map (·.id)).Nodup) :
    (attachEnclosures vs).perform s
      = (.ok (vs.map fun v => { v with enclosures := s.store.attached v.id }), s) := by
  obtain ⟨xs, hxs, hfilter⟩ := perform_enclosuresOfEntries hs (vs.map (·.id))
  unfold attachEnclosures
  rw [perform_bind, hxs]
  refine congrArg (fun vs => (Except.ok vs, s)) (List.map_congr_left fun v hv => ?_)
  rw [hfilter hvs, if_pos (List.mem_map_of_mem hv)]

/-- A listing of readable rows that are told apart by their identifiers is shown as a whole. -/
theorem perform_views_attachEnclosures (hs : s.Ready) (h : ∀ l ∈ ls, l.entry.Readable)
    (hls : (ls.map (·.entry.id)).Nodup) :
    ∃ vs, (views ls >>= attachEnclosures).perform s = (.ok vs, s)
      ∧ List.Forall₂ (Listed.ShownAs s.store) ls vs := by
  obtain ⟨vs, hvs, hall⟩ := perform_views (s := s) h
  have hid : vs.map (·.id) = ls.map (·.entry.id) :=
    map_eq_of_forall₂ hall fun l v ⟨_, _, _, _, hv⟩ => by rw [hv]; rfl
  refine ⟨vs.map fun v => { v with enclosures := s.store.attached v.id }, ?_, ?_⟩
  · rw [perform_bind, hvs]
    exact perform_attachEnclosures hs (hid ▸ hls)
  · rw [List.forall₂_map_right_iff]
    refine hall.imp ?_
    rintro l v ⟨status, tags, hstatus, htags, rfl⟩
    exact ⟨status, tags, hstatus, htags, rfl⟩

end Action

/-! ## The four answers to a query -/

/-- The condition compares a field with a single value and has no pattern. -/
def Condition.isPlain (c : Condition) : Bool := c.values == 1 && c.levels == [3] && !c.isTooLong

theorem Condition.isPlain_iff {c : Condition} :
    c.isPlain = true ↔ c.values = 1 ∧ c.levels = [3] ∧ c.isTooLong = false := by
  simp [isPlain, and_assoc]

theorem Condition.foldl_replicate_levels (n : Nat) {level acc : Nat} (h : level ≤ acc) :
    (List.replicate n level).foldl (fun acc level => max acc level + 1) acc = acc + n := by
  induction n generalizing acc with
  | zero => rfl
  | succ n ih =>
      rw [List.replicate_succ, List.foldl_cons, max_eq_left h, ih (Nat.le_succ_of_le h)]
      omega

/-- Every comparison adds a level. -/
theorem Condition.depth_le {cs : List Condition} (h : ∀ c ∈ cs, c.levels = [3]) :
    depth cs ≤ cs.length + 4 := by
  have hlevels : cs.flatMap levels = List.replicate cs.length 3 := by
    rw [List.flatMap_congr h, ← List.map_const']
    exact List.map_eq_flatMap.symm
  unfold depth
  rw [hlevels]
  cases cs with
  | nil => exact Nat.le_add_left 2 2
  | cons c cs =>
      rw [List.length_cons, List.replicate_succ]
      dsimp only
      rw [foldl_replicate_levels _ le_rfl]
      omega

namespace Query

/-- The engine takes the conditions of the query: they do not bind too many values, also with limit and
offset bound besides, they do not nest too deeply and none has too long a wildcard pattern. -/
structure ConditionsFit (q : Query) : Prop where
  values : q.values + 2 ≤ maxValues
  depth : Condition.depth q.allConditions ≤ maxDepth
  patterns : ∀ c ∈ q.conditions, c.isTooLong = false

/-- The engine takes the query: its conditions, and its sort terms as well. -/
structure WithinLimits (q : Query) : Prop extends q.ConditionsFit where
  terms : q.terms.length ≤ maxTerms

theorem ConditionsFit.fits {q : Query} (hq : q.ConditionsFit) : q.countExtent.Fits :=
  ⟨le_trans (Nat.le_add_right _ 2) hq.values, hq.depth, Nat.zero_le _⟩

/-- Limit and offset are two values at most. -/
theorem WithinLimits.fits {q : Query} (hq : q.WithinLimits) : q.pageExtent.Fits := by
  have hone : ∀ n : Option Int, n.toList.length ≤ 1 := fun n => by
    cases n with
    | none => exact Nat.zero_le 1
    | some n => exact le_rfl
  have hvalues := hq.values
  have hlimit := hone q.limit
  have hoffset := hone q.offset
  refine ⟨?_, hq.depth, hq.terms⟩
  unfold pageExtent
  dsimp only
  omega

/-- The engine takes not too many plain conditions. -/
theorem conditionsFit_of_isPlain {q : Query} {cs : List Condition} (hcs : q.conditions = cs)
    (hplain : cs.all Condition.isPlain = true) (hfew : cs.length ≤ 900) : q.ConditionsFit := by
  subst hcs
  have hplain : ∀ c ∈ q.conditions, c.values = 1 ∧ c.levels = [3] ∧ c.isTooLong = false :=
    fun c hc => Condition.isPlain_iff.1 (List.all_eq_true.1 hplain c hc)
  have hall : ∀ c ∈ q.allConditions, c.values = 1 ∧ c.levels = [3] ∧ c.isTooLong = false :=
    List.forall_mem_cons.2 ⟨⟨rfl, rfl, rfl⟩, hplain⟩
  have hlength : q.allConditions.length = q.conditions.length + 1 := rfl
  have hvalues : q.values = q.allConditions.length := by
    unfold values
    rw [List.map_congr_left fun c hc => (hall c hc).1, List.map_const']
    exact List.sum_replicate_nat.trans (Nat.mul_one _)
  have hdepth := Condition.depth_le fun c hc => (hall c hc).2.1
  refine ⟨?_, ?_, fun c hc => (hplain c hc).2.2⟩
  · unfold maxValues
    omega
  · unfold maxDepth
    omega

/-- The rows that the query finds, sorted. -/
def sorted (q : Query) (s : Store) : List Listed := SortTerm.sort q.terms (q.matching s)

theorem mem_listed_of_mem_sorted {q : Query} {s : Store} {l : Listed} (h : l ∈ q.sorted s) :
    l ∈ s.listed :=
  (mem_matching.1 (SortTerm.mem_sort.1 h)).1

theorem nodup_id_sorted (q : Query) {s : Store} (hs : s.Integrity) :
    ((q.sorted s).map (·.entry.id)).Nodup := by
  unfold sorted
  rw [((SortTerm.sort_perm _ _).map _).nodup_iff]
  exact (Store.nodup_id_listed hs.entries).sublist (List.filter_sublist.map _)

theorem cut_sublist (q : Query) (ls : List Listed) : (q.cut ls).Sublist ls := by
  unfold cut
  dsimp only
  split
  · exact (List.take_sublist _ _).trans (List.drop_sublist _ _)
  · exact List.drop_sublist _ _

end Query

namespace Action

variable {s : Session} {q : Query}

/-- Counting does not sort. -/
theorem perform_countEntries (hs : s.Ready) (hq : q.ConditionsFit) :
    (countEntries q).perform s = (.ok (q.sorted s.store).length, s) := by
  unfold countEntries
  rw [perform_readWithin, hs.refusal? _ hq.fits, Query.found_eq hq.patterns, Query.sorted,
    SortTerm.length_sort]
  rfl

theorem perform_entryIds (hs : s.Ready) (hq : q.WithinLimits) :
    (entryIds q).perform s = (.ok ((q.cut (q.sorted s.store)).map (·.entry.id)), s) := by
  unfold entryIds
  rw [perform_readWithin, hs.refusal? _ hq.fits, Query.page_eq hq.patterns]
  rfl

theorem perform_entries (hs : Reachable s) (hq : q.WithinLimits) :
    ∃ vs, (entries q).perform s = (.ok vs, s)
      ∧ List.Forall₂ (Listed.ShownAs s.store) (q.cut (q.sorted s.store)) vs := by
  have hsub := q.cut_sublist (q.sorted s.store)
  have hreadable : ∀ l ∈ q.cut (q.sorted s.store), l.entry.Readable := fun l hl =>
    hs.readable _ (Store.of_mem_listed (Query.mem_listed_of_mem_sorted (hsub.subset hl))).1
  have hnodup := (q.nodup_id_sorted hs.integrity).sublist (hsub.map _)
  obtain ⟨vs, hvs, hshown⟩ := perform_views_attachEnclosures hs.ready hreadable hnodup
  refine ⟨vs, ?_, hshown⟩
  unfold entries
  rw [perform_bind, perform_readWithin, hs.ready.refusal? _ hq.fits, Query.page_eq hq.patterns]
  exact hvs

/-- One entry is the one at the offset, whatever the limit. -/
theorem perform_firstEntry (hs : Reachable s) (hq : q.WithinLimits) :
    ∃ v, (firstEntry q).perform s = (.ok v, s)
      ∧ Option.Rel (Listed.ShownAs s.store) (q.sorted s.store)[(q.offset.getD 0).toNat]? v := by
  obtain ⟨vs, hvs, hshown⟩ := perform_entries (q := { q with limit := some 1 }) hs
    ⟨⟨hq.values, hq.depth, hq.patterns⟩, hq.terms⟩
  refine ⟨vs.head?, ?_, ?_⟩
  · unfold firstEntry
    rw [perform_bind, hvs]
    rfl
  · -- under a limit of one the listing is cut to the row at the offset
    have hshown : List.Forall₂ (Listed.ShownAs s.store)
        (((q.sorted s.store).drop (q.offset.getD 0).toNat).take 1) vs := hshown
    rw [← List.head?_drop]
    cases hrest : (q.sorted s.store).drop (q.offset.getD 0).toNat with
    | nil =>
        rw [hrest] at hshown
        cases hshown
        exact .none
    | cons l ls =>
        rw [hrest] at hshown
        obtain ⟨v, vs, hlv, -, rfl⟩ := List.forall₂_cons_left_iff.1 hshown
        exact .some hlv

end Action

end FeedStore

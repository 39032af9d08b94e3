import FeedStore.Proofs.Anchors

/-!
# What stands next to an entry

The query for a listing and the trail along it are answered by different statements, the one by sorting
everything that matches and the other by looking for one row on each side. Here the answer to the query
is pinned down first: it holds what the listing shows, and nothing else, in one order, that of the times
with equal times ordered by identifier (`Timeline.Arranges`). The neighbours of an entry are then the
ends of the two parts that are left and right of it (`neighbours_next_on_listing`).
-/

namespace FeedStore

namespace Timeline

/-- The first entry comes before the second one on a listing in this direction. Of entries with equal
times the later one comes first on an ascending listing, and the earlier one on a descending listing. -/
def ComesBefore (tl : Timeline) (d : Direction) (a b : Entry) : Prop :=
  match d with
  | .ascending => tl.Precedes a b
  | .descending => tl.Precedes b a

/-- The list holds the entries with the property, each of them once, in the order of the listing. -/
structure Arranges (tl : Timeline) (d : Direction) (P : Entry → Prop) (es : List Entry) : Prop where
  mem_iff : ∀ e, e ∈ es ↔ P e
  ordered : es.Pairwise (tl.ComesBefore d)

variable {tl : Timeline} {d : Direction} {a b : Entry} {P : Entry → Prop} {es es' : List Entry}

theorem ComesBefore.asymm (h : tl.ComesBefore d a b) : ¬ tl.ComesBefore d b a := by
  cases d with
  | ascending => exact Precedes.asymm h
  | descending => exact Precedes.asymm h

theorem Arranges.nodup (h : tl.Arranges d P es) : es.Nodup :=
  h.ordered.imp fun hlt heq => by
    rw [heq] at hlt
    exact hlt.asymm hlt

/-- There is one way to arrange entries. -/
theorem Arranges.eq (h : tl.Arranges d P es) (h' : tl.Arranges d P es') : es = es' := by
  have hperm : es.Perm es' := (List.perm_ext_iff_of_nodup h.nodup h'.nodup).2 fun e =>
    (h.mem_iff e).trans (h'.mem_iff e).symm
  exact hperm.eq_of_pairwise (fun a b _ _ hab hba => absurd hba hab.asymm) h.ordered h'.ordered

end Timeline

/-- The entry as a neighbour. -/
def Entry.sibling (e : Entry) : Sibling := ⟨e.id, e.title⟩

namespace Trail

variable {s : Session} {user anchor : Id} {tl : Timeline} {d : Direction} {fs : List Filter}

theorem exists_matching_iff_shows (hs : s.store.Integrity) (e : Entry) :
    (∃ l ∈ (filtered user anchor tl d fs).matching s.store, l.entry = e)
      ↔ s.store.Shows user fs e := by
  constructor
  · rintro ⟨l, hl, rfl⟩
    obtain ⟨hlisted, hshown⟩ := (mem_matching_filtered hs).1 hl
    exact ⟨(Store.of_mem_listed hlisted).1, hshown⟩
  · rintro ⟨he, hshown⟩
    obtain ⟨l, hl, rfl⟩ := hs.exists_listed he
    exact ⟨l, (mem_matching_filtered hs).2 ⟨hl, hshown⟩, rfl⟩

/-- The sorted rows are the entries that the listing shows, as it shows them. -/
theorem arranges_sort (anchor : Id) (hs : Reachable s) :
    tl.Arranges d (s.store.Shows user fs) ((SortTerm.sort (SortTerm.along tl d)
      ((filtered user anchor tl d fs).matching s.store)).map (·.entry)) := by
  have hls := Action.lists_sort (t := filtered user anchor tl d fs) hs
  have htl : (filtered user anchor tl d fs).timeline = tl := by rw [filtered_eq]
  have hd : (filtered user anchor tl d fs).direction = d := by rw [filtered_eq]
  have hsorted := hls.sorted
  rw [htl, hd] at hsorted
  refine ⟨fun e => ?_, List.pairwise_map.2 ?_⟩
  · have hshown : (∃ l ∈ (filtered user anchor tl d fs).matching s.store, l.entry = e)
        ↔ s.store.Shows user fs e := exists_matching_iff_shows hs.integrity e
    rw [← hshown]
    simp only [List.mem_map, SortTerm.mem_sort]
  · cases d with
    | ascending => exact hsorted
    | descending => exact List.pairwise_reverse.1 hsorted

end Trail

namespace Action

variable {s : Session} {user anchor : Id} {tl : Timeline} {d : Direction} {fs : List Filter}

/-- The query for a listing is answered with what the listing shows, in its order. The neighbours of an
entry there are the ones next to it in that answer, in either direction, when entries of equal time have
been created together. -/
theorem neighbours_next_on_listing (hs : Reachable s)
    (ht : (Trail.filtered user anchor tl d fs).WithinLimits)
    (htie : tl = .creation ∨ ∀ a b, s.store.Shows user fs a → s.store.Shows user fs b →
      tl.time a = tl.time b → a.createdAt = b.createdAt) :
    ∃ es, (entryIds (Query.listing user tl d fs)).perform s = (.ok (es.map (·.id)), s)
      ∧ tl.Arranges d (s.store.Shows user fs) es
      ∧ ∀ front a back, es = front ++ a :: back → a.id = anchor →
        (neighbours (Trail.filtered user anchor tl d fs)).perform s
          = (.ok (front.getLast?.map Entry.sibling, back.head?.map Entry.sibling), s) := by
  refine ⟨_, (perform_entryIds_listing hs.ready ht).trans ?_, Trail.arranges_sort anchor hs,
    fun front a back hsplit hanchor => ?_⟩
  · rw [List.map_map]
    rfl
  have htl : (Trail.filtered user anchor tl d fs).timeline = tl := by rw [Trail.filtered_eq]
  have hd : (Trail.filtered user anchor tl d fs).direction = d := by rw [Trail.filtered_eq]
  have htidy : (Trail.filtered user anchor tl d fs).Tidy s.store := by
    refine Trail.tidy_of_createdAt_eq ?_
    rw [htl]
    refine htie.imp_right fun h l hl m hm => h _ _ ?_ ?_
    · exact (Trail.exists_matching_iff_shows hs.integrity _).1 ⟨l, hl, rfl⟩
    · exact (Trail.exists_matching_iff_shows hs.integrity _).1 ⟨m, hm, rfl⟩
  have hls := lists_sort (t := Trail.filtered user anchor tl d fs) hs
  rw [htl, hd] at hls
  obtain ⟨lf, rest, hrows, rfl, hrest⟩ := List.map_eq_append_iff.1 hsplit
  obtain ⟨l, lb, rfl, rfl, rfl⟩ := List.map_eq_cons_iff.1 hrest
  have hshown : (Trail.filtered user anchor tl d fs).Lists s.store
      ((Trail.filtered user anchor tl d fs).direction.shown (lf ++ l :: lb)) := by
    rw [hd, ← hrows]
    exact hls
  have hneighbours := perform_neighbours_of_tidy hs ht htidy hshown
  rw [Trail.anchoredAt_filtered, hanchor] at hneighbours
  rw [hneighbours, List.getLast?_map, List.head?_map, Option.map_map, Option.map_map]
  rfl

end Action

/-- Entries with titles, two of them published at the same time and one of them removed. -/
def Session.headlines : Session :=
  let headline (title : String) (time : Int) : Candidate := { Candidate.bare title time with title }
  Session.subscribed.run
    [.refreshFeed 1 1
        [headline "first" 10, headline "second" 20, headline "third" 20, headline "fourth" 30] false,
      .setStatus 1 [4] .removed]

/-- What the listing of these entries by time of publication shows. -/
theorem Session.exists_arranges_headlines :
    ∃ a b c, Timeline.publication.Arranges .ascending
        (Session.headlines.store.Shows 1 [.feed 1]) [a, b, c]
      ∧ b.id = 3 ∧ [a, b, c].map (·.id) = [1, 3, 2]
      ∧ a.sibling = ⟨1, "first"⟩ ∧ c.sibling = ⟨2, "second"⟩ := by
  obtain ⟨a, ha, b, hb, c, hc, hshown, hrest, hordered, hnames⟩ :
      ∃ a ∈ Session.headlines.store.entries.rows, ∃ b ∈ Session.headlines.store.entries.rows,
        ∃ c ∈ Session.headlines.store.entries.rows,
          (∀ e ∈ [a, b, c], e.userId = 1 ∧ e.status ≠ .known .removed ∧ e.feedId = 1)
          ∧ (∀ e ∈ Session.headlines.store.entries.rows,
            e.status = .known .removed ∨ e ∈ [a, b, c])
          ∧ ([a, b, c].Pairwise fun e e' => e.publishedAt < e'.publishedAt
            ∨ e.publishedAt = e'.publishedAt ∧ e'.id < e.id)
          ∧ b.id = 3 ∧ [a, b, c].map (·.id) = [1, 3, 2]
          ∧ a.sibling = ⟨1, "first"⟩ ∧ c.sibling = ⟨2, "second"⟩ := by decide +kernel
  have hrows : ∀ e ∈ [a, b, c], e ∈ Session.headlines.store.entries.rows :=
    List.forall_mem_cons.2 ⟨ha, List.forall_mem_cons.2 ⟨hb, List.forall_mem_singleton.2 hc⟩⟩
  refine ⟨a, b, c, ⟨fun e => ⟨fun he => ?_, fun he => ?_⟩, hordered⟩, hnames⟩
  · obtain ⟨huser, hstatus, hfeed⟩ := hshown e he
    exact ⟨hrows e he, huser, hstatus, List.forall_mem_singleton.2 fun _ => hfeed⟩
  · exact (hrest e he.1).resolve_left he.2.2.1

/-- Of entries published at the same time the later one stands next to the earlier time, and what is
removed stands nowhere. -/
theorem Action.neighbours_next_on_listing_equal_times :
    (entryIds (Query.listing 1 .publication .ascending [.feed 1])).perform .headlines
        = (.ok [1, 3, 2], .headlines)
      ∧ (neighbours (Trail.filtered 1 3 .publication .ascending [.feed 1])).perform .headlines
        = (.ok (some ⟨1, "first"⟩, some ⟨2, "second"⟩), .headlines) := by
  have hs : Reachable .headlines := Reachable.subscribed.run _
  have ht : (Trail.filtered 1 3 .publication .ascending [.feed 1]).WithinLimits :=
    ⟨by decide +kernel, by decide +kernel, by decide +kernel⟩
  have htogether : ∀ a ∈ Session.headlines.store.entries.rows,
      ∀ b ∈ Session.headlines.store.entries.rows, a.createdAt = b.createdAt := by decide +kernel
  obtain ⟨es, hanswer, harranged, hnext⟩ := neighbours_next_on_listing hs ht
    (Or.inr fun a b ha hb _ => htogether a ha.1 b hb.1)
  obtain ⟨a, b, c, harranges, hid, hids, hbefore, hafter⟩ := Session.exists_arranges_headlines
  obtain rfl := harranged.eq harranges
  rw [hanswer, hnext [a] b [c] rfl hid, hids, ← hbefore, ← hafter]
  exact ⟨rfl, rfl⟩

end FeedStore

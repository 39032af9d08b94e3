import FeedStore.Operation.Opening
import FeedStore.Proofs.Integrity

/-!
# Identifiers are given out once

A statement gives a row either an identifier that a row of its table had before or one that the
counter of the table has not reached yet (`Store.Step.renews`). A history beside the session
(`Given`) keeps every identifier that rows of a table have been given since the session was new,
also of rows that are gone. It ascends, so that no identifier is in it twice, and it has the
identifier of every row that is there.
-/

namespace FeedStore

/-! ## Tables -/

namespace Table

variable {α : Type} {t u : Table α} {id : α → Int}

/-- The identifiers of the later table are of the earlier one, or beyond its counter. -/
def Renews (id : α → Int) (t u : Table α) : Prop :=
  ∀ r ∈ u.rows, (∃ r' ∈ t.rows, id r' = id r) ∨ t.lastId < id r

namespace Renews

theorem of_rows_subset (h : ∀ r ∈ u.rows, r ∈ t.rows) : t.Renews id u := by
  intro r hr
  exact Or.inl ⟨r, h r hr, rfl⟩

theorem refl (t : Table α) : t.Renews id t := of_rows_subset fun _ hr => hr

theorem erase (t : Table α) (p : α → Bool) : t.Renews id (t.erase p) :=
  of_rows_subset fun _ hr => (mem_rows_erase.1 hr).1

theorem modify (t : Table α) (p : α → Bool) {f : α → α} (hf : ∀ r, id (f r) = id r) :
    t.Renews id (t.modify p f) := by
  intro r hr
  obtain ⟨r', hr', rfl⟩ := mem_rows_modify.1 hr
  refine Or.inl ⟨r', hr', ?_⟩
  split
  · exact (hf r').symm
  · rfl

theorem add (t : Table α) {make : Id → α} (hm : ∀ i, id (make i) = i) :
    t.Renews id (t.add make).2 := by
  intro r hr
  rw [rows_add, List.mem_append, List.mem_singleton] at hr
  rcases hr with hr | rfl
  · exact Or.inl ⟨r, hr, rfl⟩
  · rw [hm]
    exact Or.inr (Int.lt_succ t.lastId)

end Renews

end Table

/-! ## Statements -/

namespace Store

open Table (Renews)

/-- The identifiers of the rows of a table, in the order of the rows. -/
def ids (s : Store) : TableName → List Id
  | .users => s.users.rows.map (·.id)
  | .categories => s.categories.rows.map (·.id)
  | .feeds => s.feeds.rows.map (·.id)
  | .entries => s.entries.rows.map (·.id)
  | .enclosures => s.enclosures.rows.map (·.id)

/-- The last identifier that a table has given out. -/
def lastId (s : Store) : TableName → Id
  | .users => s.users.lastId
  | .categories => s.categories.lastId
  | .feeds => s.feeds.lastId
  | .entries => s.entries.lastId
  | .enclosures => s.enclosures.lastId

/-- No table of the second store has an identifier that its counter had passed before, unless a
row of the first one has it. -/
structure RenewsAll (s t : Store) : Prop where
  users : s.users.Renews (·.id) t.users
  categories : s.categories.Renews (·.id) t.categories
  feeds : s.feeds.Renews (·.id) t.feeds
  entries : s.entries.Renews (·.id) t.entries
  enclosures : s.enclosures.Renews (·.id) t.enclosures

theorem RenewsAll.refl (s : Store) : s.RenewsAll s := ⟨.refl _, .refl _, .refl _, .refl _, .refl _⟩

theorem RenewsAll.eraseEntries (s : Store) (p : Entry → Bool) : s.RenewsAll (s.eraseEntries p) :=
  { RenewsAll.refl s with entries := .erase _ _, enclosures := .erase _ _ }

theorem RenewsAll.eraseFeeds (s : Store) (p : Feed → Bool) : s.RenewsAll (s.eraseFeeds p) :=
  { RenewsAll.refl s with entries := .erase _ _, enclosures := .erase _ _, feeds := .erase _ _ }

theorem RenewsAll.eraseCategories (s : Store) (p : Category → Bool) :
    s.RenewsAll (s.eraseCategories p) :=
  { RenewsAll.refl s with
    entries := .erase _ _, enclosures := .erase _ _, feeds := .erase _ _, categories := .erase _ _ }

theorem RenewsAll.modifyEntries (s : Store) (p : Entry → Bool) {f : Entry → Entry}
    (hf : ∀ e, (f e).id = e.id) : s.RenewsAll (s.modifyEntries p f).2 :=
  { RenewsAll.refl s with entries := .modify _ p hf }

theorem Step.renews {s t : Store} {now : Int} (h : s.Step now t) : s.RenewsAll t := by
  have hrefl := RenewsAll.refl s
  cases h with
  | addUser _ ht =>
      obtain ⟨-, -, rfl⟩ := of_addUser ht
      exact { hrefl with users := .add _ fun _ => rfl }
  | removeUser user => exact ⟨.erase _ _, .erase _ _, .erase _ _, .erase _ _, .erase _ _⟩
  | addCategory _ ht =>
      obtain ⟨-, -, -, rfl⟩ := of_addCategory ht
      exact { hrefl with categories := .add _ fun _ => rfl }
  | hideCategory user category hide =>
      exact { hrefl with categories := .modify _ _ fun _ => rfl }
  | removeCategory user category => exact .eraseCategories s _
  | addFeed _ ht =>
      obtain ⟨-, -, -, -, rfl⟩ := of_addFeed ht
      exact { hrefl with feeds := .add _ fun _ => rfl }
  | hideFeed user feed hide => exact { hrefl with feeds := .modify _ _ fun _ => rfl }
  | noteFetch user feed state => exact { hrefl with feeds := .modify _ _ fun _ => rfl }
  | noteFailure user feed message nextCheckAt =>
      exact { hrefl with feeds := .modify _ _ fun _ => rfl }
  | resetFeedErrors user => exact { hrefl with feeds := .modify _ _ fun _ => rfl }
  | removeFeed user feed => exact .eraseFeeds s _
  | eraseBatch user feed size => exact .eraseEntries s _
  | sweep feed _ => exact .eraseEntries s _
  | addEntry _ ht =>
      obtain ⟨-, -, -, rfl⟩ := of_addEntry ht
      exact { hrefl with entries := .add _ fun _ => rfl }
  | refreshEntry user feed c => exact .modifyEntries s _ fun _ => rfl
  | updateText user entry title content readingTime => exact .modifyEntries s _ fun _ => rfl
  | putEnclosure _ _ ht =>
      rcases of_putEnclosure ht with ⟨x, -, -, rfl⟩ | ⟨-, -, -, -, rfl⟩
      · exact { hrefl with enclosures := .modify _ _ fun _ => rfl }
      · exact { hrefl with enclosures := .add _ fun _ => rfl }
  | removeStaleEnclosures user entry urls => exact { hrefl with enclosures := .erase _ _ }
  | setProgression user enclosure seconds =>
      exact { hrefl with enclosures := .modify _ _ fun _ => rfl }
  | setStatus user ids status => exact .modifyEntries s _ fun _ => rfl
  | setStar user ids starred => exact .modifyEntries s _ fun _ => rfl
  | toggleStar user entry => exact .modifyEntries s _ fun _ => rfl
  | markRead user p => exact .modifyEntries s _ fun _ => rfl
  | archive status cutoff limit => exact .modifyEntries s _ fun _ => rfl
  | flush user => exact .modifyEntries s _ fun _ => rfl
  | setShareCode ht =>
      obtain ⟨-, -, rfl⟩ := of_setShareCode ht
      exact .modifyEntries s _ fun _ => rfl

theorem Step.mem_ids {s t : Store} {now : Int} (h : s.Step now t) (table : TableName) :
    ∀ i ∈ t.ids table, i ∈ s.ids table ∨ s.lastId table < i := by
  have hlift : ∀ {α : Type} {a b : Table α} {id : α → Int}, a.Renews id b →
      ∀ i ∈ b.rows.map id, i ∈ a.rows.map id ∨ a.lastId < i := by
    intro α a b id hab i hi
    obtain ⟨r, hr, rfl⟩ := List.mem_map.1 hi
    rcases hab r hr with ⟨r', hr', heq⟩ | hlt
    · exact Or.inl (heq ▸ List.mem_map_of_mem hr')
    · exact Or.inr hlt
  cases table with
  | users => exact hlift h.renews.users
  | categories => exact hlift h.renews.categories
  | feeds => exact hlift h.renews.feeds
  | entries => exact hlift h.renews.entries
  | enclosures => exact hlift h.renews.enclosures

theorem Counted.lastId_le {s t : Store} (h : s.Counted t) (table : TableName) :
    s.lastId table ≤ t.lastId table := by
  cases table with
  | users => exact h.users
  | categories => exact h.categories
  | feeds => exact h.feeds
  | entries => exact h.entries
  | enclosures => exact h.enclosures

theorem Steps.mem_ids {s t : Store} {now : Int} (h : s.Steps now t) (table : TableName) :
    ∀ i ∈ t.ids table, i ∈ s.ids table ∨ s.lastId table < i := by
  induction h with
  | refl => exact fun i hi => Or.inl hi
  | tail hsteps hstep ih =>
      intro i hi
      rcases hstep.mem_ids table i hi with hi | hlt
      · exact ih i hi
      · exact Or.inr (lt_of_le_of_lt ((Steps.counted hsteps).lastId_le table) hlt)

theorem Integrity.ids_ascend {s : Store} (h : s.Integrity) (table : TableName) :
    (s.ids table).Pairwise (· < ·) := by
  cases table with
  | users => exact List.pairwise_map.2 h.users.ascending
  | categories => exact List.pairwise_map.2 h.categories.ascending
  | feeds => exact List.pairwise_map.2 h.feeds.ascending
  | entries => exact List.pairwise_map.2 h.entries.ascending
  | enclosures => exact List.pairwise_map.2 h.enclosures.ascending

theorem Integrity.ids_le {s : Store} (h : s.Integrity) (table : TableName) :
    ∀ i ∈ s.ids table, i ≤ s.lastId table := by
  cases table with
  | users => exact List.forall_mem_map.2 h.users.bounded
  | categories => exact List.forall_mem_map.2 h.categories.bounded
  | feeds => exact List.forall_mem_map.2 h.feeds.bounded
  | entries => exact List.forall_mem_map.2 h.entries.bounded
  | enclosures => exact List.forall_mem_map.2 h.enclosures.bounded

/-! ## What statements give out -/

/-- Statements lead from the first store to the second one, and these are the identifiers that
they have given to rows of a table, oldest first. -/
inductive Gives (now : Int) (table : TableName) (s : Store) : List Id → Store → Prop
  | nothing : Gives now table s [] s
  | statement {given : List Id} {t u : Store} (h : Gives now table s given t) (hs : t.Step now u) :
      Gives now table s (given ++ (u.ids table).filter fun i => !(t.ids table).contains i) u

theorem Steps.gives {now : Int} {s t : Store} (h : s.Steps now t) (table : TableName) :
    ∃ given, s.Gives now table given t := by
  induction h with
  | refl => exact ⟨[], .nothing⟩
  | tail _ hs ih =>
      obtain ⟨given, hgiven⟩ := ih
      exact ⟨_, hgiven.statement hs⟩

/-- What is given out ascends from the counter before to the counter after, and whoever has an
identifier afterwards had it before or has been given it. -/
structure Gives.Fresh (table : TableName) (s : Store) (given : List Id) (t : Store) : Prop where
  integrity : t.Integrity
  counter : s.lastId table ≤ t.lastId table
  ascend : given.Pairwise (· < ·)
  beyond : ∀ i ∈ given, s.lastId table < i
  within : ∀ i ∈ given, i ≤ t.lastId table
  known : ∀ i ∈ t.ids table, i ∈ s.ids table ∨ i ∈ given

theorem Gives.fresh {now : Int} {table : TableName} {s t : Store} {given : List Id}
    (h : s.Gives now table given t) (hs : s.Integrity) : Gives.Fresh table s given t := by
  induction h with
  | nothing =>
      refine ⟨hs, le_rfl, .nil, ?_, ?_, fun i hi => Or.inl hi⟩
      · intro i hi
        cases hi
      · intro i hi
        cases hi
  | @statement given t u _ hstep ih =>
      have hu : u.Integrity := ih.integrity.step hstep
      have hcount : t.lastId table ≤ u.lastId table := hstep.counted.lastId_le table
      -- what the statement adds is beyond every identifier that was given out before
      have hnew : ∀ i ∈ (u.ids table).filter fun i => !(t.ids table).contains i,
          i ∈ u.ids table ∧ t.lastId table < i := by
        intro i hi
        obtain ⟨hmem, hn⟩ := List.mem_filter.1 hi
        refine ⟨hmem, (hstep.mem_ids table i hmem).resolve_left ?_⟩
        simpa using hn
      refine ⟨hu, ih.counter.trans hcount, ?_, ?_, ?_, ?_⟩
      · refine List.pairwise_append.2 ⟨ih.ascend, (hu.ids_ascend table).filter _, ?_⟩
        intro i hi j hj
        exact lt_of_le_of_lt (ih.within i hi) (hnew j hj).2
      · intro i hi
        rcases List.mem_append.1 hi with hi | hi
        · exact ih.beyond i hi
        · exact lt_of_le_of_lt ih.counter (hnew i hi).2
      · intro i hi
        rcases List.mem_append.1 hi with hi | hi
        · exact (ih.within i hi).trans hcount
        · exact hu.ids_le table i (hnew i hi).1
      · intro i hi
        by_cases hold : i ∈ t.ids table
        · rcases ih.known i hold with hs | hgiven
          · exact Or.inl hs
          · exact Or.inr (List.mem_append_left _ hgiven)
        · refine Or.inr (List.mem_append_right _ (List.mem_filter.2 ⟨hi, ?_⟩))
          simpa using hold

end Store

/-! ## Runs -/

/-- A run leads to the session, and these are the identifiers that its statements have given to
rows of a table, oldest first. -/
inductive Given (table : TableName) : Session → List Id → Prop
  | fresh (now : Int) : Given table { now } []
  | step {s : Session} {given more : List Id} (c : Command) (h : Given table s given)
      (hmore : s.store.Gives s.now table more (c.next s).store) :
      Given table (c.next s) (given ++ more)

/-- No identifier comes back in a run. -/
theorem Session.mem_ids_run (s : Session) (cs : List Command) (table : TableName) :
    ∀ i ∈ (s.run cs).store.ids table, i ∈ s.store.ids table ∨ s.store.lastId table < i := by
  induction cs generalizing s with
  | nil => exact fun i hi => Or.inl hi
  | cons c cs ih =>
      intro i hi
      have hsteps := (c.takes_next s).store
      rcases ih (c.next s) i hi with hi | hlt
      · exact hsteps.mem_ids table i hi
      · exact Or.inr (lt_of_le_of_lt (hsteps.counted.lastId_le table) hlt)

theorem Reachable.exists_given {s : Session} (h : Reachable s) (table : TableName) :
    ∃ given, Given table s given := by
  induction h with
  | fresh now => exact ⟨[], .fresh now⟩
  | step c _ ih =>
      obtain ⟨given, hgiven⟩ := ih
      obtain ⟨more, hmore⟩ := (c.takes_next _).store.gives table
      exact ⟨_, hgiven.step c hmore⟩

theorem Given.reachable {table : TableName} {s : Session} {given : List Id}
    (h : Given table s given) : Reachable s := by
  induction h with
  | fresh now => exact .fresh now
  | step c _ _ ih => exact .step c ih

/-- What a run has given out ascends, is within the counter and has the identifier of every
row. -/
theorem Given.ascend {table : TableName} {s : Session} {given : List Id}
    (h : Given table s given) :
    given.Pairwise (· < ·) ∧ (∀ i ∈ given, i ≤ s.store.lastId table)
      ∧ ∀ i ∈ s.store.ids table, i ∈ given := by
  induction h with
  | fresh now =>
      refine ⟨.nil, ?_, ?_⟩
      · intro i hi
        cases hi
      · intro i hi
        cases table <;> cases hi
  | @step s given more c hs hmore ih =>
      obtain ⟨hascend, hwithin, hknown⟩ := ih
      have hfresh := hmore.fresh hs.reachable.integrity
      refine ⟨?_, ?_, ?_⟩
      · refine List.pairwise_append.2 ⟨hascend, hfresh.ascend, ?_⟩
        intro i hi j hj
        exact lt_of_le_of_lt (hwithin i hi) (hfresh.beyond j hj)
      · intro i hi
        rcases List.mem_append.1 hi with hi | hi
        · exact (hwithin i hi).trans hfresh.counter
        · exact hfresh.within i hi
      · intro i hi
        rcases hfresh.known i hi with hi | hi
        · exact List.mem_append_left _ (hknown i hi)
        · exact List.mem_append_right _ hi

/-- Every reachable store is in order, and in every run that leads to it no identifier has been
given to two rows of a table, not even after the first one was gone: what the statements of the
run have given out, one after the other, ascends. Closing the store leaves it at that. -/
theorem Reachable.given_once {s : Session} (hs : Reachable s) :
    s.store.Integrity
      ∧ (∀ table, (∃ given, Given table s given)
        ∧ ∀ given, Given table s given →
          given.Nodup ∧ (∀ i ∈ given, i ≤ s.store.lastId table)
            ∧ ∀ i ∈ s.store.ids table, i ∈ given)
      ∧ ∀ cs, (s.close.run cs).store = s.store := by
  refine ⟨hs.integrity, fun table => ⟨hs.exists_given table, fun given hgiven => ?_⟩, fun cs => ?_⟩
  · obtain ⟨hascend, hwithin, hknown⟩ := hgiven.ascend
    exact ⟨hascend.imp fun hlt => ne_of_lt hlt, hwithin, hknown⟩
  · exact Session.store_run_of_closed rfl cs

/-- An entry that is swept away and comes again is another one. -/
theorem Reachable.given_once_swept :
    ∃ s given, Reachable s ∧ s.store.ids .entries = [2] ∧ Given .entries s given
      ∧ given.Nodup ∧ (∀ i ∈ given, i ≤ s.store.lastId .entries)
      ∧ ∀ i ∈ s.store.ids .entries, i ∈ given := by
  obtain ⟨s, hs, hids⟩ : ∃ s, Reachable s ∧ s.store.ids .entries = [2] :=
    ⟨Session.subscribed.run
      [.refreshFeed 1 1 [.bare "a" 1] false, .setStatus 1 [1] .removed, .sweep 1 ["b"],
        .refreshFeed 1 1 [.bare "a" 1] false],
      Reachable.subscribed.run _, by decide +kernel⟩
  obtain ⟨⟨given, hgiven⟩, honce⟩ := hs.given_once.2.1 .entries
  exact ⟨s, given, hs, hids, hgiven, honce given hgiven⟩

end FeedStore

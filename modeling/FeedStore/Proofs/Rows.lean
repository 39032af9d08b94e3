import FeedStore.Store.Reading
import FeedStore.Store.Subscription
import Mathlib.Algebra.Order.Ring.Int
import Mathlib.Data.List.Nodup

/-!
# Rows and what statements do to them

The identifiers of a table ascend and were all given out by its counter (`Table.Numbered`),
and fields that have to be unique are `Distinct`. Both survive adding, changing and taking
away rows. The statements that add a row or give out a share code may fail on the rows that
are there; each of them has one lemma that says what it takes and what it does.
-/

namespace FeedStore

/-! ## Tables -/

namespace Table

variable {α κ : Type} {t : Table α} {id : α → Int} {k : α → κ} {p : α → Bool} {f : α → α}

/-- Identifiers count up from one, and the last one given out is noted. -/
structure Numbered (t : Table α) (id : α → Int) : Prop where
  ascending : t.rows.Pairwise fun a b => id a < id b
  positive : ∀ r ∈ t.rows, 0 < id r
  bounded : ∀ r ∈ t.rows, id r ≤ t.lastId
  start : (0 : Int) ≤ t.lastId

/-- No two rows share the given field. -/
def Distinct (t : Table α) (k : α → κ) : Prop := t.rows.Pairwise fun a b => k a ≠ k b

theorem numbered_empty : ({} : Table α).Numbered id := by
  refine ⟨List.Pairwise.nil, ?_, ?_, le_rfl⟩
  · intro r hr
    cases hr
  · intro r hr
    cases hr

theorem holds_iff : t.holds p = true ↔ ∃ r ∈ t.rows, p r = true := List.any_eq_true

/-- A statement misses all rows if and only if none meets what it asks for. -/
theorem count_eq_zero_iff {P : α → Prop} (hp : ∀ r, p r = true ↔ P r) :
    t.count p = 0 ↔ ∀ r ∈ t.rows, ¬ P r := by
  unfold count
  rw [List.countP_eq_zero]
  exact forall₂_congr fun r _ => not_congr (hp r)

/-- Some row has the given identifier. -/
theorem holds_id_iff {i : Id} : (t.holds fun r => id r == i) = true ↔ ∃ r ∈ t.rows, id r = i := by
  simp [holds_iff]

theorem mem_rows_modify {r : α} :
    r ∈ (t.modify p f).rows ↔ ∃ r' ∈ t.rows, r = if p r' then f r' else r' := by
  simp only [rows_modify, List.mem_map, eq_comm]

/-- Conditions that agree on the rows change the same ones. -/
theorem modify_congr {q : α → Bool} (h : ∀ r ∈ t.rows, p r = q r) :
    t.modify p f = t.modify q f := by
  unfold modify
  rw [List.map_congr_left fun r hr => by rw [h r hr]]

/-- A condition that changed rows do not meet counts rows that are left alone. -/
theorem count_modify {q : α → Bool} (h : ∀ r ∈ t.rows, p r = true → q (f r) = false) :
    (t.modify p f).count q = t.count fun r => q r && !p r := by
  unfold count
  rw [rows_modify, List.countP_map]
  refine List.countP_congr fun r hr => ?_
  cases hp : p r with
  | true => simp [hp, h r hr hp]
  | false => simp [hp]

/-- What meets one of two conditions meets the first one, or only the second one. -/
theorem count_or {q : α → Bool} :
    (t.count fun r => p r || q r) = t.count p + t.count fun r => q r && !p r := by
  have hsplit := List.countP_eq_countP_filter_add t.rows (fun r => p r || q r) p
  rw [List.countP_filter, List.countP_filter] at hsplit
  unfold count
  rw [hsplit]
  congr 1
  · exact List.countP_congr fun r _ => by cases p r <;> simp
  · exact List.countP_congr fun r _ => by cases p r <;> simp

/-- If changed rows are left alone by the second go, changing rows in two goes is changing what
either of them does. -/
theorem modify_modify {q : α → Bool} (h : ∀ r ∈ t.rows, p r = true → q (f r) = false) :
    (t.modify p f).modify q f = t.modify (fun r => p r || q r) f := by
  unfold modify
  rw [List.map_map]
  congr 1
  refine List.map_congr_left fun r hr => ?_
  cases hp : p r with
  | true => simp [hp, h r hr hp]
  | false => simp [hp]

/-- Taking rows away in two goes is taking away what either of them does. -/
theorem erase_erase {q w : α → Bool} (h : ∀ r ∈ t.rows, w r = true ↔ p r = true ∨ q r = true) :
    (t.erase p).erase q = t.erase w := by
  unfold erase
  rw [List.filter_filter]
  congr 1
  refine List.filter_congr fun r hr => ?_
  have hr := h r hr
  cases hp : p r <;> cases hq : q r <;> simpa [hp, hq] using hr

theorem erase_congr {q : α → Bool} (h : ∀ r ∈ t.rows, p r = q r) : t.erase p = t.erase q := by
  unfold erase
  rw [List.filter_congr fun r hr => by rw [h r hr]]

theorem erase_eq_self (h : ∀ r ∈ t.rows, p r = false) : t.erase p = t := by
  unfold erase
  rw [List.filter_eq_self.2 fun r hr => by rw [h r hr]; rfl]

/-- A row that would go is taken away in the first go or is still there for the second one. -/
theorem mem_map_select_erase {q w : α → Bool} {i : Int}
    (h : ∀ r ∈ t.rows, w r = true ↔ p r = true ∨ q r = true) :
    i ∈ (t.select w).map id
      ↔ i ∈ (t.select p).map id ∨ i ∈ ((t.erase p).select q).map id := by
  simp only [select, List.mem_map, List.mem_filter, rows_erase, Bool.not_eq_true']
  constructor
  · rintro ⟨r, ⟨hr, hw⟩, hi⟩
    cases hp : p r with
    | true => exact Or.inl ⟨r, ⟨hr, hp⟩, hi⟩
    | false =>
        have hq : q r = true := ((h r hr).1 hw).resolve_left (by simp [hp])
        exact Or.inr ⟨r, ⟨⟨hr, hp⟩, hq⟩, hi⟩
  · rintro (⟨r, ⟨hr, hp⟩, hi⟩ | ⟨r, ⟨⟨hr, -⟩, hq⟩, hi⟩)
    · exact ⟨r, ⟨hr, (h r hr).2 (Or.inl hp)⟩, hi⟩
    · exact ⟨r, ⟨hr, (h r hr).2 (Or.inr hq)⟩, hi⟩

/-- A change that keeps a field keeps the rows' values of it. -/
theorem map_rows_modify (hk : ∀ r ∈ t.rows, p r = true → k (f r) = k r) :
    (t.modify p f).rows.map k = t.rows.map k := by
  rw [rows_modify, List.map_map]
  refine List.map_congr_left fun r hr => ?_
  by_cases hp : p r = true
  · simpa [hp] using hk r hr hp
  · simp [hp]

namespace Numbered

theorem add (h : t.Numbered id) {make : Id → α} (hm : ∀ i, id (make i) = i) :
    (t.add make).2.Numbered id := by
  have hmem : ∀ r ∈ (t.add make).2.rows, r ∈ t.rows ∨ id r = t.lastId + 1 := fun r hr => by
    rw [rows_add, List.mem_append, List.mem_singleton] at hr
    rcases hr with hr | rfl
    · exact Or.inl hr
    · exact Or.inr (hm _)
  have hlast : (t.add make).2.lastId = t.lastId + 1 := rfl
  refine ⟨?_, fun r hr => ?_, fun r hr => ?_, ?_⟩
  · rw [rows_add, List.pairwise_append]
    refine ⟨h.ascending, List.pairwise_singleton _ _, fun a ha b hb => ?_⟩
    rw [List.mem_singleton] at hb
    rw [hb, hm]
    exact Int.lt_add_one_of_le (h.bounded a ha)
  · rcases hmem r hr with hr | hr
    · exact h.positive r hr
    · rw [hr]
      exact Int.lt_add_one_of_le h.start
  · rw [hlast]
    rcases hmem r hr with hr | hr
    · exact Int.le_add_one (h.bounded r hr)
    · exact le_of_eq hr
  · rw [hlast]
    exact Int.le_add_one h.start

theorem skipId (h : t.Numbered id) : t.skipId.Numbered id :=
  ⟨h.ascending, h.positive, fun r hr => Int.le_add_one (h.bounded r hr), Int.le_add_one h.start⟩

theorem erase (h : t.Numbered id) (p : α → Bool) : (t.erase p).Numbered id := by
  refine ⟨h.ascending.filter _, fun r hr => ?_, fun r hr => ?_, h.start⟩
  · exact h.positive r (mem_rows_erase.1 hr).1
  · exact h.bounded r (mem_rows_erase.1 hr).1

theorem modify (h : t.Numbered id) (p : α → Bool) (hf : ∀ r, id (f r) = id r) :
    (t.modify p f).Numbered id := by
  have hid : ∀ r, id (if p r then f r else r) = id r := fun r => by
    split
    · exact hf r
    · rfl
  refine ⟨?_, fun r hr => ?_, fun r hr => ?_, h.start⟩
  · rw [rows_modify, List.pairwise_map]
    exact h.ascending.imp fun hab => by rwa [hid, hid]
  · obtain ⟨r', hr', rfl⟩ := mem_rows_modify.1 hr
    rw [hid]
    exact h.positive r' hr'
  · obtain ⟨r', hr', rfl⟩ := mem_rows_modify.1 hr
    rw [hid]
    exact h.bounded r' hr'

theorem distinct (h : t.Numbered id) : t.Distinct id := h.ascending.imp fun hlt => ne_of_lt hlt

/-- Tables that have the same rows have them in the same order. -/
theorem rows_eq {u : Table α} (h : t.Numbered id) (h' : u.Numbered id)
    (hmem : ∀ r, r ∈ t.rows ↔ r ∈ u.rows) : t.rows = u.rows := by
  have hnodup {v : Table α} (hv : v.Numbered id) : v.rows.Nodup :=
    hv.ascending.imp fun hlt heq => absurd (congrArg id heq) (ne_of_lt hlt)
  have hperm : t.rows.Perm u.rows := (List.perm_ext_iff_of_nodup (hnodup h) (hnodup h')).2 hmem
  exact hperm.eq_of_pairwise (fun a b _ _ hab hba => absurd hab (lt_asymm hba))
    h.ascending h'.ascending

end Numbered

/-- A row that is the only one of its kind is found. -/
theorem find?_eq_some_of_unique {r : α} (hr : r ∈ t.rows) (hp : p r = true)
    (hu : ∀ r' ∈ t.rows, p r' = true → r' = r) : t.find? p = some r := by
  cases hf : t.find? p with
  | none =>
      have := List.find?_eq_none.1 hf r hr
      exact absurd hp this
  | some r' => rw [hu r' (List.mem_of_find?_eq_some hf) (List.find?_some hf)]

namespace Distinct

theorem erase (h : t.Distinct k) (p : α → Bool) : (t.erase p).Distinct k := h.filter _

theorem add (h : t.Distinct k) {make : Id → α} (hn : ∀ r ∈ t.rows, k r ≠ k (make (t.lastId + 1))) :
    (t.add make).2.Distinct k := by
  unfold Distinct
  rw [rows_add, List.pairwise_append]
  refine ⟨h, List.pairwise_singleton _ _, fun a ha b hb => ?_⟩
  rw [List.mem_singleton] at hb
  exact hb ▸ hn a ha

theorem modify (h : t.Distinct k) (p : α → Bool) (hf : ∀ r, k (f r) = k r) :
    (t.modify p f).Distinct k := by
  have hp : (t.rows.map k).Pairwise (· ≠ ·) := List.pairwise_map.2 h
  rw [← map_rows_modify (p := p) fun r _ _ => hf r] at hp
  exact List.pairwise_map.1 hp

/-- A value of the field belongs to one row only. -/
theorem eq_of_eq (h : t.Distinct k) {a b : α} (ha : a ∈ t.rows) (hb : b ∈ t.rows)
    (hab : k a = k b) : a = b :=
  List.inj_on_of_nodup_map (List.pairwise_map.2 h) ha hb hab

end Distinct

/-- The row with an identifier is found by it. -/
theorem Numbered.find?_id (h : t.Numbered id) {r : α} (hr : r ∈ t.rows) {i : Id} (hi : id r = i) :
    (t.find? fun r => id r == i) = some r := by
  refine find?_eq_some_of_unique hr (by simpa using hi) fun r' hr' hp => ?_
  exact h.distinct.eq_of_eq hr' hr (by simpa [hi] using hp)

/-- A change that keeps the identifiers loses none. -/
theorem holds_modify {i : Id} (hf : ∀ r, id (f r) = id r) :
    ((t.modify p f).holds fun r => id r == i) = t.holds fun r => id r == i := by
  have h : ∀ u : Table α, (u.holds fun r => id r == i) = (u.rows.map id).contains i := fun u => by
    rw [Bool.eq_iff_iff, holds_id_iff]
    simp
  rw [h, h, map_rows_modify fun r _ _ => hf r]

theorem holds_add {make : Id → α} {i : Id} (h : (t.holds fun r => id r == i) = true) :
    ((t.add make).2.holds fun r => id r == i) = true := by
  obtain ⟨r, hr, hi⟩ := holds_id_iff.1 h
  exact holds_id_iff.2 ⟨r, by rw [rows_add]; exact List.mem_append_left _ hr, hi⟩

/-- A row whose identifier is not among those taken away stays. -/
theorem holds_erase {i : Id} (h : (t.holds fun r => id r == i) = true)
    (hn : i ∉ (t.select p).map id) : ((t.erase p).holds fun r => id r == i) = true := by
  obtain ⟨r, hr, hi⟩ := holds_id_iff.1 h
  refine holds_id_iff.2 ⟨r, mem_rows_erase.2 ⟨hr, ?_⟩, hi⟩
  by_contra hp
  refine hn (hi ▸ List.mem_map_of_mem (List.mem_filter.2 ⟨hr, ?_⟩))
  simpa using hp

/-- What holds of the rows and of a new one holds of the rows with the new one. -/
theorem forall_mem_rows_add {P : α → Prop} {make : Id → α} (h : ∀ r ∈ t.rows, P r)
    (hm : P (make (t.lastId + 1))) : ∀ r ∈ (t.add make).2.rows, P r := by
  intro r hr
  rw [rows_add, List.mem_append, List.mem_singleton] at hr
  rcases hr with hr | rfl
  · exact h r hr
  · exact hm

/-- What holds of the rows, and is kept by a change, holds of the changed rows. -/
theorem forall_mem_rows_modify {P : α → Prop} (p : α → Bool) {f : α → α} (h : ∀ r ∈ t.rows, P r)
    (hf : ∀ r, P r → P (f r)) : ∀ r ∈ (t.modify p f).rows, P r := by
  intro r hr
  obtain ⟨r', hr', rfl⟩ := mem_rows_modify.1 hr
  split
  · exact hf r' (h r' hr')
  · exact h r' hr'

theorem forall_mem_rows_erase {P : α → Prop} (p : α → Bool) (h : ∀ r ∈ t.rows, P r) :
    ∀ r ∈ (t.erase p).rows, P r :=
  fun r hr => h r (mem_rows_erase.1 hr).1

end Table

/-! ## What statements that may fail take and do -/

/-- The row of a feed that has never been fetched. -/
def FeedOffer.toFeed (offer : FeedOffer) (user id : Id) : Feed :=
  { id
    userId := user
    categoryId := offer.categoryId
    title := offer.title
    feedUrl := offer.feedUrl
    siteUrl := offer.siteUrl
    etagHeader := ""
    lastModifiedHeader := ""
    checkedAt := none
    nextCheckAt := none
    errorMessage := ""
    errorCount := 0
    hideGlobally := offer.hideGlobally }

namespace Store

open Table

variable {s t : Store}

/-- The row of a user. -/
def newUser (name : String) (now : Int) (id : Id) : User :=
  { id, username := name, createdAt := now }

/-- The row of a category. -/
def newCategory (user : Id) (title : String) (hide : Bool) (id : Id) : Category :=
  { id, userId := user, title, hideGlobally := hide }

theorem of_addUser {name : String} {now : Int} {row : User}
    (h : s.addUser name now = .ok (row, t)) :
    (∀ u ∈ s.users.rows, u.username ≠ name)
      ∧ row = newUser name now (s.users.lastId + 1)
      ∧ t = { s with users := (s.users.add (newUser name now)).2 } := by
  unfold addUser at h
  split at h
  · cases h
  · rename_i hfree
    cases h
    exact ⟨by simpa [holds_iff] using hfree, rfl, rfl⟩

theorem of_addCategory {user : Id} {title : String} {hide : Bool} {row : Category}
    (h : s.addCategory user title hide = .ok (row, t)) :
    (∀ c ∈ s.categories.rows, c.userId = user → c.title ≠ title)
      ∧ s.hasUser user = true
      ∧ row = newCategory user title hide (s.categories.lastId + 1)
      ∧ t = { s with categories := (s.categories.add (newCategory user title hide)).2 } := by
  unfold addCategory at h
  split at h
  · cases h
  · split at h
    · cases h
    · rename_i hfree huser
      cases h
      exact ⟨by simpa [holds_iff] using hfree, by simpa using huser, rfl, rfl⟩

theorem of_addFeed {user : Id} {offer : FeedOffer} {row : Feed}
    (h : s.addFeed user offer = .ok (row, t)) :
    (∀ f ∈ s.feeds.rows, f.userId = user → f.feedUrl ≠ offer.feedUrl)
      ∧ s.hasUser user = true ∧ s.hasCategory offer.categoryId = true
      ∧ row = offer.toFeed user (s.feeds.lastId + 1)
      ∧ t = { s with feeds := (s.feeds.add (offer.toFeed user)).2 } := by
  unfold addFeed at h
  split at h
  · cases h
  · split at h
    · cases h
    · rename_i hfree hrefs
      cases h
      have hrefs : s.hasUser user = true ∧ s.hasCategory offer.categoryId = true := by
        simpa using hrefs
      exact ⟨by simpa [holds_iff] using hfree, hrefs.1, hrefs.2, rfl, rfl⟩

theorem of_addEntry {user feed : Id} {c : Candidate} {now : Int} {i : Id}
    (h : s.addEntry user feed c now = .ok (i, t)) :
    s.hasUser user = true ∧ s.hasFeed feed = true
      ∧ i = s.entries.lastId + 1
      ∧ t = { s with entries := (s.entries.add (c.toEntry user feed now)).2 } := by
  unfold addEntry at h
  split at h
  · cases h
  · rename_i hrefs
    cases h
    have hrefs : s.hasUser user = true ∧ s.hasFeed feed = true := by simpa using hrefs
    exact ⟨hrefs.1, hrefs.2, rfl, rfl⟩

/-- A code that is not empty is no other entry's, as soon as there is an entry to give it to. -/
theorem of_setShareCode {user entry : Id} {code : String} {n : Nat}
    (h : s.setShareCode user entry code = .ok (n, t)) :
    (code ≠ "" → (∃ e ∈ s.entries.rows, e.isOwn user entry = true) →
        ∀ e ∈ s.entries.rows, e.isOwn user entry = false → e.shareCode ≠ code)
      ∧ n = s.entries.count (Entry.isOwn user entry)
      ∧ t = { s with entries := s.entries.modify (Entry.isOwn user entry) fun e =>
          { e with shareCode := code } } := by
  unfold setShareCode at h
  split at h
  · cases h
  · rename_i hfree
    cases h
    refine ⟨fun hne hown e he hnot heq => hfree ?_, rfl, rfl⟩
    simp only [Bool.and_eq_true, bne_iff_ne, holds_iff, Bool.not_eq_true', beq_iff_eq]
    exact ⟨⟨hne, hown⟩, e, he, hnot, heq⟩

/-- The row of an enclosure that has not been played. -/
def newEnclosure (user entry : Id) (url mimeType : String) (size : Int) (id : Id) : Enclosure :=
  { id, userId := user, entryId := entry, url, mimeType, size, mediaProgression := 0 }

/-- An address that the entry has takes over type and size and uses up an identifier; another
one gets a row of its own. -/
theorem of_putEnclosure {user entry : Id} {url mimeType : String} {size : Int} {row : Enclosure}
    (h : s.putEnclosure user entry url mimeType size = .ok (row, t)) :
    (∃ x, s.enclosures.find? (isEnclosure entry url) = some x
        ∧ row = { x with mimeType, size }
        ∧ t = { s with enclosures := (s.enclosures.modify (isEnclosure entry url) fun x =>
            { x with mimeType, size }).skipId })
      ∨ ((∀ x ∈ s.enclosures.rows, isEnclosure entry url x = false)
        ∧ s.hasUser user = true ∧ s.hasEntry entry = true
        ∧ row = newEnclosure user entry url mimeType size (s.enclosures.lastId + 1)
        ∧ t = { s with enclosures :=
            (s.enclosures.add (newEnclosure user entry url mimeType size)).2 }) := by
  unfold putEnclosure at h
  split at h
  · rename_i x hx
    cases h
    exact Or.inl ⟨x, hx, rfl, rfl⟩
  · split at h
    · cases h
    · rename_i hnone hrefs
      cases h
      have hrefs : s.hasUser user = true ∧ s.hasEntry entry = true := by simpa using hrefs
      refine Or.inr ⟨fun x hx => ?_, hrefs.1, hrefs.2, rfl, rfl⟩
      simpa using List.find?_eq_none.1 hnone x hx

/-! ## Identifiers of some rows -/

theorem mem_entryIds {p : Entry → Bool} {i : Id} :
    i ∈ s.entryIds p ↔ ∃ e ∈ s.entries.rows, p e = true ∧ e.id = i := by
  simp [entryIds, select, and_assoc]

theorem mem_feedIds {p : Feed → Bool} {i : Id} :
    i ∈ s.feedIds p ↔ ∃ f ∈ s.feeds.rows, p f = true ∧ f.id = i := by
  simp [feedIds, select, and_assoc]

theorem mem_categoryIds {p : Category → Bool} {i : Id} :
    i ∈ s.categoryIds p ↔ ∃ c ∈ s.categories.rows, p c = true ∧ c.id = i := by
  simp [categoryIds, select, and_assoc]

/-! ## Listed entries -/

/-- An entry is listed with its feed and the category of that feed. -/
theorem of_listed? {e : Entry} {l : Listed} (h : s.listed? e = some l) :
    l.entry = e ∧ s.feeds.find? (·.id == e.feedId) = some l.feed
      ∧ l.category.id = l.feed.categoryId := by
  simp only [listed?, Option.bind_eq_bind, Option.bind_eq_some_iff] at h
  obtain ⟨f, hf, c, hc, h⟩ := h
  cases h
  exact ⟨rfl, hf, by simpa using List.find?_some hc⟩

theorem of_mem_listed {l : Listed} (h : l ∈ s.listed) :
    l.entry ∈ s.entries.rows ∧ s.listed? l.entry = some l := by
  obtain ⟨e, he, hl⟩ := List.mem_filterMap.1 h
  rw [(of_listed? hl).1]
  exact ⟨he, hl⟩

/-- Entries are listed in the order of their identifiers. -/
theorem pairwise_id_listed (h : s.entries.Numbered (·.id)) :
    s.listed.Pairwise fun a b => a.entry.id < b.entry.id := by
  refine List.Pairwise.filterMap _ (fun e e' hlt l hl m hm => ?_) h.ascending
  rw [(of_listed? hl).1, (of_listed? hm).1]
  exact hlt

theorem nodup_id_listed (h : s.entries.Numbered (·.id)) : (s.listed.map (·.entry.id)).Nodup :=
  List.pairwise_map.2 ((pairwise_id_listed h).imp fun hlt => ne_of_lt hlt)

end Store

end FeedStore

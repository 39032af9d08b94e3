import FeedStore.Proofs.Integrity
import FeedStore.Proofs.Ownership

/-!
# Rows that belong to rows of the same user

A row names its user, and most rows name a row that they belong to. In a `Tenanted` store the two
have the same user. Then a cascade that starts at the rows of a user ends at them too. A statement
about the rows of some owners leaves the rows of all others as they are and the store tenanted
(`Store.Confined`).
-/

namespace FeedStore

/-! ## Rows that stay -/

namespace Table

variable {α : Type} {t : Table α} {owner : α → Id} {P : Id → Prop} {p : α → Bool} {f : α → α}

/-- The two tables have the same rows as far as their owners are not among those. -/
def SameBeside (owner : α → Id) (P : Id → Prop) (s t : Table α) : Prop :=
  ∀ r, ¬ P (owner r) → (r ∈ t.rows ↔ r ∈ s.rows)

theorem sameBeside_add {make : Id → α} (h : P (owner (make (t.lastId + 1)))) :
    SameBeside owner P t (t.add make).2 := by
  intro r hr
  rw [rows_add, List.mem_append, List.mem_singleton]
  exact or_iff_left fun heq => hr (heq ▸ h)

theorem sameBeside_modify (hp : ∀ r ∈ t.rows, p r = true → P (owner r))
    (hf : ∀ r, owner (f r) = owner r) : SameBeside owner P t (t.modify p f) := by
  intro r hr
  rw [mem_rows_modify]
  constructor
  · rintro ⟨r', hr', rfl⟩
    by_cases hpr : p r' = true
    · rw [if_pos hpr, hf] at hr
      exact absurd (hp r' hr' hpr) hr
    · rwa [if_neg hpr]
  · intro hmem
    exact ⟨r, hmem, (if_neg fun hpr => hr (hp r hmem hpr)).symm⟩

theorem sameBeside_erase (hp : ∀ r ∈ t.rows, p r = true → P (owner r)) :
    SameBeside owner P t (t.erase p) := by
  intro r hr
  rw [mem_rows_erase]
  exact and_iff_left_of_imp fun hmem => Bool.eq_false_iff.2 fun hpr => hr (hp r hmem hpr)

end Table

namespace Store

/-- The two stores have the same rows, table by table, as far as their owners are not among those.
Users are their own owners. -/
structure SameBeside (P : TableName → Id → Prop) (s t : Store) : Prop where
  users : Table.SameBeside User.id (P .users) s.users t.users
  categories : Table.SameBeside Category.userId (P .categories) s.categories t.categories
  feeds : Table.SameBeside Feed.userId (P .feeds) s.feeds t.feeds
  entries : Table.SameBeside Entry.userId (P .entries) s.entries t.entries
  enclosures : Table.SameBeside Enclosure.userId (P .enclosures) s.enclosures t.enclosures

namespace SameBeside

variable {P Q : TableName → Id → Prop} {s t u : Store}

theorem refl (s : Store) : s.SameBeside P s :=
  ⟨fun _ _ => .rfl, fun _ _ => .rfl, fun _ _ => .rfl, fun _ _ => .rfl, fun _ _ => .rfl⟩

theorem trans (h : s.SameBeside P t) (h' : t.SameBeside P u) : s.SameBeside P u where
  users r hr := (h'.users r hr).trans (h.users r hr)
  categories r hr := (h'.categories r hr).trans (h.categories r hr)
  feeds r hr := (h'.feeds r hr).trans (h.feeds r hr)
  entries r hr := (h'.entries r hr).trans (h.entries r hr)
  enclosures r hr := (h'.enclosures r hr).trans (h.enclosures r hr)

theorem mono (h : s.SameBeside P t) (hPQ : ∀ table a, P table a → Q table a) :
    s.SameBeside Q t where
  users r hr := h.users r fun hp => hr (hPQ _ _ hp)
  categories r hr := h.categories r fun hp => hr (hPQ _ _ hp)
  feeds r hr := h.feeds r fun hp => hr (hPQ _ _ hp)
  entries r hr := h.entries r fun hp => hr (hPQ _ _ hp)
  enclosures r hr := h.enclosures r fun hp => hr (hPQ _ _ hp)

end SameBeside

/-! ## Rows and the rows they belong to -/

/-- The user has a category with that identifier. -/
def HasCategoryOf (s : Store) (user category : Id) : Prop :=
  ∃ c ∈ s.categories.rows, ownCategory user category c = true

/-- The user has a feed with that identifier. -/
def HasFeedOf (s : Store) (user feed : Id) : Prop :=
  ∃ f ∈ s.feeds.rows, ownFeed user feed f = true

/-- A feed is in a category of its user, an entry of a feed and an enclosure of an entry of its
user. -/
structure Tenanted (s : Store) : Prop where
  feeds : ∀ f ∈ s.feeds.rows, s.HasCategoryOf f.userId f.categoryId
  entries : ∀ e ∈ s.entries.rows, s.HasFeedOf e.userId e.feedId
  enclosures : s.EnclosuresOwned

/-- The second store is tenanted, and its rows are those of the first one as far as their owners are
not among those. -/
structure Confined (P : TableName → Id → Prop) (s t : Store) : Prop where
  tenanted : t.Tenanted
  same : s.SameBeside P t

variable {P : TableName → Id → Prop} {s t u : Store}

theorem ownCategory_iff {user id : Id} {c : Category} :
    ownCategory user id c = true ↔ c.userId = user ∧ c.id = id := by
  simp [ownCategory]

theorem ownFeed_iff {user id : Id} {f : Feed} :
    ownFeed user id f = true ↔ f.userId = user ∧ f.id = id := by
  simp [ownFeed]

theorem HasCategoryOf.userId_eq (hs : s.Integrity) {user : Id} {c : Category}
    (h : s.HasCategoryOf user c.id) (hc : c ∈ s.categories.rows) : c.userId = user := by
  obtain ⟨c', hc', hown⟩ := h
  obtain ⟨huser, hid⟩ := ownCategory_iff.1 hown
  rw [← hs.categories.distinct.eq_of_eq hc' hc hid, huser]

theorem HasFeedOf.userId_eq (hs : s.Integrity) {user : Id} {f : Feed}
    (h : s.HasFeedOf user f.id) (hf : f ∈ s.feeds.rows) : f.userId = user := by
  obtain ⟨f', hf', hown⟩ := h
  obtain ⟨huser, hid⟩ := ownFeed_iff.1 hown
  rw [← hs.feeds.distinct.eq_of_eq hf' hf hid, huser]

theorem HasEntryOf.userId_eq (hs : s.Integrity) {user : Id} {e : Entry}
    (h : s.HasEntryOf user e.id) (he : e ∈ s.entries.rows) : e.userId = user := by
  obtain ⟨e', he', hown⟩ := h
  obtain ⟨huser, hid⟩ := Entry.isOwn_iff.1 hown
  rw [← hs.entries.distinct.eq_of_eq he' he hid, huser]

namespace Confined

theorem refl (h : s.Tenanted) : s.Confined P s := ⟨h, .refl s⟩

theorem trans (h : s.Confined P t) (h' : t.Confined P u) : s.Confined P u :=
  ⟨h'.tenanted, h.same.trans h'.same⟩

theorem mono {Q : TableName → Id → Prop} (h : s.Confined P t)
    (hPQ : ∀ table a, P table a → Q table a) : s.Confined Q t :=
  ⟨h.tenanted, h.same.mono hPQ⟩

end Confined

namespace Tenanted

open Table

/-! ### Rows that come or change -/

theorem addUser (h : s.Tenanted) {make : Id → User} (hP : P .users (make (s.users.lastId + 1)).id) :
    s.Confined P { s with users := (s.users.add make).2 } :=
  ⟨⟨h.feeds, h.entries, h.enclosures⟩, { SameBeside.refl s with users := sameBeside_add hP }⟩

theorem addCategory (h : s.Tenanted) {make : Id → Category}
    (hP : P .categories (make (s.categories.lastId + 1)).userId) :
    s.Confined P { s with categories := (s.categories.add make).2 } := by
  refine ⟨⟨fun f hf => ?_, h.entries, h.enclosures⟩,
    { SameBeside.refl s with categories := sameBeside_add hP }⟩
  obtain ⟨c, hc, hown⟩ := h.feeds f hf
  exact ⟨c, List.mem_append_left _ hc, hown⟩

theorem addFeed (h : s.Tenanted) {make : Id → Feed}
    (hown : s.HasCategoryOf (make (s.feeds.lastId + 1)).userId
      (make (s.feeds.lastId + 1)).categoryId)
    (hP : P .feeds (make (s.feeds.lastId + 1)).userId) :
    s.Confined P { s with feeds := (s.feeds.add make).2 } := by
  refine ⟨⟨fun f hf => ?_, fun e he => ?_, h.enclosures⟩,
    { SameBeside.refl s with feeds := sameBeside_add hP }⟩
  · rcases List.mem_append.1 hf with hf | hf
    · exact h.feeds f hf
    · rw [List.mem_singleton] at hf
      rw [hf]
      exact hown
  · obtain ⟨f, hf, hown⟩ := h.entries e he
    exact ⟨f, List.mem_append_left _ hf, hown⟩

theorem modifyCategories (h : s.Tenanted) {p : Category → Bool} {f : Category → Category}
    (hp : ∀ c ∈ s.categories.rows, p c = true → P .categories c.userId)
    (hf : ∀ c, (f c).id = c.id ∧ (f c).userId = c.userId) :
    s.Confined P { s with categories := s.categories.modify p f } := by
  refine ⟨⟨fun feed hfeed => ?_, h.entries, h.enclosures⟩,
    { SameBeside.refl s with categories := sameBeside_modify hp fun c => (hf c).2 }⟩
  obtain ⟨c, hc, hown⟩ := h.feeds feed hfeed
  refine ⟨_, mem_rows_modify.2 ⟨c, hc, rfl⟩, ?_⟩
  split
  · rwa [ownCategory_iff, (hf c).1, (hf c).2, ← ownCategory_iff]
  · exact hown

theorem modifyFeeds (h : s.Tenanted) {p : Feed → Bool} {f : Feed → Feed}
    (hp : ∀ f ∈ s.feeds.rows, p f = true → P .feeds f.userId)
    (hf : ∀ r, (f r).id = r.id ∧ (f r).userId = r.userId ∧ (f r).categoryId = r.categoryId) :
    s.Confined P { s with feeds := s.feeds.modify p f } := by
  refine ⟨⟨fun r hr => ?_, fun e he => ?_, h.enclosures⟩,
    { SameBeside.refl s with feeds := sameBeside_modify hp fun r => (hf r).2.1 }⟩
  · obtain ⟨r', hr', rfl⟩ := mem_rows_modify.1 hr
    rw [apply_ite Feed.userId, apply_ite Feed.categoryId, (hf r').2.1, (hf r').2.2, ite_self,
      ite_self]
    exact h.feeds r' hr'
  · obtain ⟨r, hr, hown⟩ := h.entries e he
    refine ⟨_, mem_rows_modify.2 ⟨r, hr, rfl⟩, ?_⟩
    split
    · rwa [ownFeed_iff, (hf r).1, (hf r).2.1, ← ownFeed_iff]
    · exact hown

theorem modifyFeed (h : s.Tenanted) (user feed : Id) {f : Feed → Feed}
    (hf : ∀ r, (f r).id = r.id ∧ (f r).userId = r.userId ∧ (f r).categoryId = r.categoryId) :
    s.Confined (fun _ a => a = user) (s.modifyFeed user feed f).2 :=
  h.modifyFeeds (fun _ _ hp => (ownFeed_iff.1 hp).1) hf

theorem modifyEntries (h : s.Tenanted) {p : Entry → Bool} {f : Entry → Entry}
    (hp : ∀ e ∈ s.entries.rows, p e = true → P .entries e.userId)
    (hf : ∀ e, (f e).id = e.id ∧ (f e).userId = e.userId ∧ (f e).feedId = e.feedId) :
    s.Confined P (s.modifyEntries p f).2 := by
  refine ⟨⟨h.feeds, fun e he => ?_, h.enclosures.modifyEntries p fun e => ⟨(hf e).1, (hf e).2.1⟩⟩,
    { SameBeside.refl s with entries := sameBeside_modify hp fun e => (hf e).2.1 }⟩
  obtain ⟨e', he', rfl⟩ := mem_rows_modify.1 he
  rw [apply_ite Entry.userId, apply_ite Entry.feedId, (hf e').2.1, (hf e').2.2, ite_self, ite_self]
  exact h.entries e' he'

theorem modifyEnclosures (h : s.Tenanted) {p : Enclosure → Bool} {f : Enclosure → Enclosure}
    (hp : ∀ x ∈ s.enclosures.rows, p x = true → P .enclosures x.userId)
    (hf : ∀ x, (f x).userId = x.userId ∧ (f x).entryId = x.entryId) :
    s.Confined P { s with enclosures := s.enclosures.modify p f } :=
  ⟨⟨h.feeds, h.entries, h.enclosures.modifyEnclosures p hf⟩,
    { SameBeside.refl s with enclosures := sameBeside_modify hp fun x => (hf x).1 }⟩

/-! ### What readers do -/

theorem modifyEntriesOf (h : s.Tenanted) {user : Id} {p : Entry → Bool} {f : Entry → Entry}
    (hp : ∀ e, p e = true → (e.userId == user) = true)
    (hf : ∀ e, (f e).id = e.id ∧ (f e).userId = e.userId ∧ (f e).feedId = e.feedId) :
    s.Confined (fun _ a => a = user) (s.modifyEntries p f).2 :=
  h.modifyEntries (fun e _ hpe => eq_of_beq (hp e hpe)) hf

theorem setStatus (h : s.Tenanted) (user : Id) (ids : List Id) (status : Status) (now : Int) :
    s.Confined (fun _ a => a = user) (s.setStatus user ids status now).2 :=
  h.modifyEntriesOf (fun _ hp => (Bool.and_eq_true_iff.1 hp).1) fun _ => ⟨rfl, rfl, rfl⟩

theorem markRead (h : s.Tenanted) (user : Id) (p : Entry → Bool) (now : Int) :
    s.Confined (fun _ a => a = user) (s.markRead user p now).2 :=
  h.modifyEntriesOf (fun _ hp => (Bool.and_eq_true_iff.1 (Bool.and_eq_true_iff.1 hp).1).1)
    fun _ => ⟨rfl, rfl, rfl⟩

theorem setShareCode (h : s.Tenanted) {user entry : Id} {code : String} {n : Nat}
    (ht : s.setShareCode user entry code = .ok (n, t)) : s.Confined (fun _ a => a = user) t := by
  obtain ⟨-, -, rfl⟩ := of_setShareCode ht
  exact h.modifyEntriesOf (fun _ hp => (Bool.and_eq_true_iff.1 hp).1) fun _ => ⟨rfl, rfl, rfl⟩

/-! ### Rows that go -/

theorem eraseEntries (h : s.Tenanted) (hs : s.Integrity) {p : Entry → Bool}
    (hp : ∀ e ∈ s.entries.rows, p e = true → P .entries e.userId ∧ P .enclosures e.userId) :
    s.Confined P (s.eraseEntries p) := by
  refine ⟨⟨h.feeds, fun e he => h.entries e (mem_rows_erase.1 he).1, h.enclosures.eraseEntries p⟩,
    { SameBeside.refl s with
      entries := sameBeside_erase fun e he hpe => (hp e he hpe).1
      enclosures := sameBeside_erase fun x hx hgone => ?_ }⟩
  obtain ⟨e, he, hpe, hid⟩ := mem_entryIds.1 (List.contains_iff_mem.1 hgone)
  have howner := HasEntryOf.userId_eq hs (hid ▸ h.enclosures x hx) he
  exact howner ▸ (hp e he hpe).2

/-- With the feeds of an owner go entries of the same owner. -/
theorem eraseFeeds (h : s.Tenanted) (hs : s.Integrity) {p : Feed → Bool}
    (hp : ∀ f ∈ s.feeds.rows, p f = true → ∀ table, P table f.userId) :
    s.Confined P (s.eraseFeeds p) := by
  have hentries : ∀ e ∈ s.entries.rows, (s.feedIds p).contains e.feedId = true →
      P .entries e.userId ∧ P .enclosures e.userId := by
    intro e he hgone
    obtain ⟨f, hf, hpf, hid⟩ := mem_feedIds.1 (List.contains_iff_mem.1 hgone)
    have howner := HasFeedOf.userId_eq hs (hid ▸ h.entries e he) hf
    exact ⟨howner ▸ hp f hf hpf _, howner ▸ hp f hf hpf _⟩
  obtain ⟨htenanted, hsame⟩ := h.eraseEntries hs hentries
  refine ⟨⟨fun f hf => h.feeds f (mem_rows_erase.1 hf).1, fun e he => ?_, htenanted.enclosures⟩,
    { hsame with feeds := sameBeside_erase fun f hf hpf => hp f hf hpf _ }⟩
  obtain ⟨he, hstays⟩ := mem_rows_erase.1 he
  obtain ⟨f, hf, hown⟩ := h.entries e he
  refine ⟨f, mem_rows_erase.2 ⟨hf, Bool.eq_false_iff.2 fun hpf => ?_⟩, hown⟩
  rw [List.contains_eq_mem, decide_eq_false_iff_not] at hstays
  exact hstays (mem_feedIds.2 ⟨f, hf, hpf, (ownFeed_iff.1 hown).2⟩)

/-- With the categories of an owner go feeds of the same owner. -/
theorem eraseCategories (h : s.Tenanted) (hs : s.Integrity) {p : Category → Bool}
    (hp : ∀ c ∈ s.categories.rows, p c = true → ∀ table, P table c.userId) :
    s.Confined P (s.eraseCategories p) := by
  have hfeeds : ∀ f ∈ s.feeds.rows, (s.categoryIds p).contains f.categoryId = true →
      ∀ table, P table f.userId := by
    intro f hf hgone table
    obtain ⟨c, hc, hpc, hid⟩ := mem_categoryIds.1 (List.contains_iff_mem.1 hgone)
    exact HasCategoryOf.userId_eq hs (hid ▸ h.feeds f hf) hc ▸ hp c hc hpc table
  obtain ⟨htenanted, hsame⟩ := h.eraseFeeds hs hfeeds
  refine ⟨⟨fun f hf => ?_, htenanted.entries, htenanted.enclosures⟩,
    { hsame with categories := sameBeside_erase fun c hc hpc => hp c hc hpc _ }⟩
  obtain ⟨hf, hstays⟩ := mem_rows_erase.1 hf
  obtain ⟨c, hc, hown⟩ := h.feeds f hf
  refine ⟨c, mem_rows_erase.2 ⟨hc, Bool.eq_false_iff.2 fun hpc => ?_⟩, hown⟩
  rw [List.contains_eq_mem, decide_eq_false_iff_not] at hstays
  exact hstays (mem_categoryIds.2 ⟨c, hc, hpc, (ownCategory_iff.1 hown).2⟩)

/-- What goes with a user is what the user owns. -/
theorem eraseUser_eq (h : s.Tenanted) (hs : s.Integrity) (user : Id) :
    s.eraseUser user
      = { users := s.users.erase (·.id == user)
          categories := s.categories.erase (·.userId == user)
          feeds := s.feeds.erase (·.userId == user)
          entries := s.entries.erase (·.userId == user)
          enclosures := s.enclosures.erase (·.userId == user) } := by
  have hfeeds : ∀ f ∈ s.feeds.rows,
      feedGoesWith user (s.categoryIds (categoryGoesWith user)) f = (f.userId == user) := by
    refine fun f hf => Bool.or_eq_left_iff_imp.2 fun hgone => ?_
    obtain ⟨c, hc, hgoes, hid⟩ := mem_categoryIds.1 (List.contains_iff_mem.1 hgone)
    exact HasCategoryOf.userId_eq hs (hid ▸ h.feeds f hf) hc ▸ hgoes
  have hentries : ∀ e ∈ s.entries.rows,
      entryGoesWith user (s.feedIds (feedGoesWith user (s.categoryIds (categoryGoesWith user)))) e
        = (e.userId == user) := by
    refine fun e he => Bool.or_eq_left_iff_imp.2 fun hgone => ?_
    obtain ⟨f, hf, hgoes, hid⟩ := mem_feedIds.1 (List.contains_iff_mem.1 hgone)
    exact HasFeedOf.userId_eq hs (hid ▸ h.entries e he) hf ▸ (hfeeds f hf ▸ hgoes)
  have henclosures : ∀ x ∈ s.enclosures.rows,
      enclosureGoesWith user (s.entryIds (entryGoesWith user
          (s.feedIds (feedGoesWith user (s.categoryIds (categoryGoesWith user)))))) x
        = (x.userId == user) := by
    refine fun x hx => Bool.or_eq_left_iff_imp.2 fun hgone => ?_
    obtain ⟨e, he, hgoes, hid⟩ := mem_entryIds.1 (List.contains_iff_mem.1 hgone)
    exact HasEntryOf.userId_eq hs (hid ▸ h.enclosures x hx) he ▸ (hentries e he ▸ hgoes)
  unfold Store.eraseUser
  dsimp only
  rw [erase_congr hfeeds, erase_congr hentries, erase_congr henclosures]
  rfl

/-- With a user go rows of that user, and nothing else. -/
theorem eraseUser (h : s.Tenanted) (hs : s.Integrity) {user : Id} (hP : ∀ table, P table user) :
    s.Confined P (s.eraseUser user) := by
  refine ⟨⟨fun f hf => ?_, fun e he => ?_, h.enclosures.eraseUser user⟩, ?_⟩
  · rw [h.eraseUser_eq hs] at hf ⊢
    obtain ⟨hf, hstays⟩ := mem_rows_erase.1 hf
    obtain ⟨c, hc, hown⟩ := h.feeds f hf
    exact ⟨c, mem_rows_erase.2 ⟨hc, (ownCategory_iff.1 hown).1 ▸ hstays⟩, hown⟩
  · rw [h.eraseUser_eq hs] at he ⊢
    obtain ⟨he, hstays⟩ := mem_rows_erase.1 he
    obtain ⟨f, hf, hown⟩ := h.entries e he
    exact ⟨f, mem_rows_erase.2 ⟨hf, (ownFeed_iff.1 hown).1 ▸ hstays⟩, hown⟩
  · have howner : ∀ table a, (a == user) = true → P table a :=
      fun table a ha => eq_of_beq ha ▸ hP table
    rw [h.eraseUser_eq hs]
    exact ⟨sameBeside_erase fun _ _ => howner _ _, sameBeside_erase fun _ _ => howner _ _,
      sameBeside_erase fun _ _ => howner _ _, sameBeside_erase fun _ _ => howner _ _,
      sameBeside_erase fun _ _ => howner _ _⟩

end Tenanted

end Store

/-- The entries of a feed of the user are the user's. -/
theorem Store.Tenanted.userId_eq {s : Store} (h : s.Tenanted) (hs : s.Integrity) {user feed : Id}
    (hfeed : s.HasFeedOf user feed) {e : Entry} (he : e ∈ s.entries.rows) (heq : e.feedId = feed) :
    e.userId = user := by
  obtain ⟨f, hf, hown⟩ := hfeed
  obtain ⟨howner, hid⟩ := ownFeed_iff.1 hown
  rw [← howner]
  exact (HasFeedOf.userId_eq hs (hid ▸ heq ▸ h.entries e he) hf).symm

end FeedStore

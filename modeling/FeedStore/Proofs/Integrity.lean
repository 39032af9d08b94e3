import FeedStore.Proofs.Rows
import FeedStore.Proofs.Statement

/-!
# Integrity of a store

A store is in order (`Store.Integrity`) when the identifiers of every table ascend and were
all given out by its counter, fields that have to be unique are unique, and every row that a
row refers to is there. A new store is in order and every statement keeps it so
(`Store.Integrity.step`); therefore every reachable store is (`Reachable.integrity`), and
counters never go back (`Session.Leads.counted`).
-/

namespace FeedStore

/-! ## A store in order -/

namespace Store

/-- Identifiers come from the counters, unique fields are unique, and what a row refers to is
there. -/
structure Integrity (s : Store) : Prop where
  users : s.users.Numbered (·.id)
  categories : s.categories.Numbered (·.id)
  feeds : s.feeds.Numbered (·.id)
  entries : s.entries.Numbered (·.id)
  enclosures : s.enclosures.Numbered (·.id)
  usernames : s.users.Distinct (·.username)
  titles : s.categories.Distinct fun c => (c.userId, c.title)
  feedUrls : s.feeds.Distinct fun f => (f.userId, f.feedUrl)
  items : s.entries.Distinct fun e => (e.feedId, e.hash)
  shareCodes : s.entries.rows.Pairwise fun a b => a.shareCode ≠ "" → a.shareCode ≠ b.shareCode
  enclosureUrls : s.enclosures.Distinct fun x => (x.entryId, x.url)
  categoryUser : ∀ c ∈ s.categories.rows, s.hasUser c.userId = true
  feedUser : ∀ f ∈ s.feeds.rows, s.hasUser f.userId = true
  feedCategory : ∀ f ∈ s.feeds.rows, s.hasCategory f.categoryId = true
  entryUser : ∀ e ∈ s.entries.rows, s.hasUser e.userId = true
  entryFeed : ∀ e ∈ s.entries.rows, s.hasFeed e.feedId = true
  enclosureUser : ∀ x ∈ s.enclosures.rows, s.hasUser x.userId = true
  enclosureEntry : ∀ x ∈ s.enclosures.rows, s.hasEntry x.entryId = true

namespace Integrity

open Table

variable {s t : Store}

theorem empty : ({} : Store).Integrity where
  users := numbered_empty
  categories := numbered_empty
  feeds := numbered_empty
  entries := numbered_empty
  enclosures := numbered_empty
  usernames := .nil
  titles := .nil
  feedUrls := .nil
  items := .nil
  shareCodes := .nil
  enclosureUrls := .nil
  categoryUser := by simp
  feedUser := by simp
  feedCategory := by simp
  entryUser := by simp
  entryFeed := by simp
  enclosureUser := by simp
  enclosureEntry := by simp

/-! ### Changing rows -/

theorem modifyCategories (h : s.Integrity) (p : Category → Bool) {f : Category → Category}
    (hid : ∀ c, (f c).id = c.id) (huser : ∀ c, (f c).userId = c.userId)
    (htitle : ∀ c, (f c).title = c.title) :
    ({ s with categories := s.categories.modify p f } : Store).Integrity :=
  { h with
    categories := h.categories.modify p hid
    titles := h.titles.modify p fun c => by rw [huser, htitle]
    categoryUser := fun c hc => by
      obtain ⟨c', hc', rfl⟩ := mem_rows_modify.1 hc
      rw [apply_ite Category.userId, huser, ite_self]
      exact h.categoryUser c' hc'
    feedCategory := fun f hf => (holds_modify hid).trans (h.feedCategory f hf) }

theorem modifyFeeds (h : s.Integrity) (p : Feed → Bool) {f : Feed → Feed}
    (hid : ∀ x, (f x).id = x.id) (huser : ∀ x, (f x).userId = x.userId)
    (hcat : ∀ x, (f x).categoryId = x.categoryId) (hurl : ∀ x, (f x).feedUrl = x.feedUrl) :
    ({ s with feeds := s.feeds.modify p f } : Store).Integrity :=
  { h with
    feeds := h.feeds.modify p hid
    feedUrls := h.feedUrls.modify p fun x => by rw [huser, hurl]
    feedUser := fun x hx => by
      obtain ⟨x', hx', rfl⟩ := mem_rows_modify.1 hx
      rw [apply_ite Feed.userId, huser, ite_self]
      exact h.feedUser x' hx'
    feedCategory := fun x hx => by
      obtain ⟨x', hx', rfl⟩ := mem_rows_modify.1 hx
      rw [apply_ite Feed.categoryId, hcat, ite_self]
      exact h.feedCategory x' hx'
    entryFeed := fun e he => (holds_modify hid).trans (h.entryFeed e he) }

theorem modifyEntries (h : s.Integrity) (p : Entry → Bool) {f : Entry → Entry}
    (hid : ∀ e, (f e).id = e.id) (huser : ∀ e, (f e).userId = e.userId)
    (hfeed : ∀ e, (f e).feedId = e.feedId) (hhash : ∀ e, (f e).hash = e.hash)
    (hcode : (s.entries.modify p f).rows.Pairwise fun a b =>
      a.shareCode ≠ "" → a.shareCode ≠ b.shareCode) :
    ({ s with entries := s.entries.modify p f } : Store).Integrity :=
  { h with
    entries := h.entries.modify p hid
    items := h.items.modify p fun e => by rw [hfeed, hhash]
    shareCodes := hcode
    entryUser := fun e he => by
      obtain ⟨e', he', rfl⟩ := mem_rows_modify.1 he
      rw [apply_ite Entry.userId, huser, ite_self]
      exact h.entryUser e' he'
    entryFeed := fun e he => by
      obtain ⟨e', he', rfl⟩ := mem_rows_modify.1 he
      rw [apply_ite Entry.feedId, hfeed, ite_self]
      exact h.entryFeed e' he'
    enclosureEntry := fun x hx => (holds_modify hid).trans (h.enclosureEntry x hx) }

/-- A change that keeps share codes keeps them apart. -/
theorem shareCodes_modify (h : s.Integrity) (p : Entry → Bool) {f : Entry → Entry}
    (hf : ∀ e, (f e).shareCode = e.shareCode) :
    (s.entries.modify p f).rows.Pairwise fun a b =>
      a.shareCode ≠ "" → a.shareCode ≠ b.shareCode := by
  have hp : (s.entries.rows.map (·.shareCode)).Pairwise fun a b => a ≠ "" → a ≠ b :=
    List.pairwise_map.2 h.shareCodes
  rw [← map_rows_modify (p := p) fun e _ _ => hf e] at hp
  exact List.pairwise_map.1 hp

theorem modifyKept (h : s.Integrity) (p : Entry → Bool) {f : Entry → Entry}
    (hf : ∀ e, (f e).id = e.id ∧ (f e).userId = e.userId ∧ (f e).feedId = e.feedId
      ∧ (f e).hash = e.hash ∧ (f e).shareCode = e.shareCode) :
    ({ s with entries := s.entries.modify p f } : Store).Integrity :=
  h.modifyEntries p (fun e => (hf e).1) (fun e => (hf e).2.1) (fun e => (hf e).2.2.1)
    (fun e => (hf e).2.2.2.1) (h.shareCodes_modify p fun e => (hf e).2.2.2.2)

theorem setShareCode (h : s.Integrity) {user entry : Id} {code : String} {n : Nat}
    (ht : s.setShareCode user entry code = .ok (n, t)) : t.Integrity := by
  obtain ⟨hother, -, rfl⟩ := of_setShareCode ht
  refine h.modifyEntries _ (fun _ => rfl) (fun _ => rfl) (fun _ => rfl) (fun _ => rfl) ?_
  rw [rows_modify, List.pairwise_map]
  refine (h.entries.ascending.and h.shareCodes).imp_of_mem fun {a b} ha hb hab => ?_
  obtain ⟨hlt, hab⟩ := hab
  cases hpa : a.isOwn user entry <;> cases hpb : b.isOwn user entry
  · simpa using hab
  · intro hne heq
    simp only [if_true, Bool.false_eq_true, if_false] at hne heq
    exact hother (heq ▸ hne) ⟨b, hb, hpb⟩ a ha hpa heq
  · intro hne heq
    simp only [if_true, Bool.false_eq_true, if_false] at hne heq
    exact hother hne ⟨a, ha, hpa⟩ b hb hpb heq.symm
  · have hida : a.id = entry := by simpa using (Bool.and_eq_true_iff.1 hpa).2
    have hidb : b.id = entry := by simpa using (Bool.and_eq_true_iff.1 hpb).2
    exact absurd (hida.trans hidb.symm) (ne_of_lt hlt)

theorem modifyEnclosures (h : s.Integrity) (p : Enclosure → Bool) {f : Enclosure → Enclosure}
    (hid : ∀ x, (f x).id = x.id) (huser : ∀ x, (f x).userId = x.userId)
    (hentry : ∀ x, (f x).entryId = x.entryId) (hurl : ∀ x, (f x).url = x.url) :
    ({ s with enclosures := s.enclosures.modify p f } : Store).Integrity :=
  { h with
    enclosures := h.enclosures.modify p hid
    enclosureUrls := h.enclosureUrls.modify p fun x => by rw [hentry, hurl]
    enclosureUser := fun x hx => by
      obtain ⟨x', hx', rfl⟩ := mem_rows_modify.1 hx
      rw [apply_ite Enclosure.userId, huser, ite_self]
      exact h.enclosureUser x' hx'
    enclosureEntry := fun x hx => by
      obtain ⟨x', hx', rfl⟩ := mem_rows_modify.1 hx
      rw [apply_ite Enclosure.entryId, hentry, ite_self]
      exact h.enclosureEntry x' hx' }

/-! ### Taking rows away -/

theorem eraseEnclosures (h : s.Integrity) (p : Enclosure → Bool) :
    ({ s with enclosures := s.enclosures.erase p } : Store).Integrity :=
  { h with
    enclosures := h.enclosures.erase p
    enclosureUrls := h.enclosureUrls.erase p
    enclosureUser := fun x hx => h.enclosureUser x (mem_rows_erase.1 hx).1
    enclosureEntry := fun x hx => h.enclosureEntry x (mem_rows_erase.1 hx).1 }

theorem eraseEntries (h : s.Integrity) (p : Entry → Bool) : (s.eraseEntries p).Integrity :=
  { h with
    entries := h.entries.erase p
    enclosures := h.enclosures.erase _
    items := h.items.erase p
    shareCodes := h.shareCodes.filter _
    enclosureUrls := h.enclosureUrls.erase _
    entryUser := fun e he => h.entryUser e (mem_rows_erase.1 he).1
    entryFeed := fun e he => h.entryFeed e (mem_rows_erase.1 he).1
    enclosureUser := fun x hx => h.enclosureUser x (mem_rows_erase.1 hx).1
    enclosureEntry := fun x hx => by
      obtain ⟨hx, hn⟩ := mem_rows_erase.1 hx
      exact holds_erase (h.enclosureEntry x hx) fun hmem => by simp [entryIds, hmem] at hn }

theorem eraseFeeds (h : s.Integrity) (p : Feed → Bool) : (s.eraseFeeds p).Integrity :=
  have h' := h.eraseEntries fun e => (s.feedIds p).contains e.feedId
  { h' with
    feeds := h.feeds.erase p
    feedUrls := h.feedUrls.erase p
    feedUser := fun f hf => h.feedUser f (mem_rows_erase.1 hf).1
    feedCategory := fun f hf => h.feedCategory f (mem_rows_erase.1 hf).1
    entryFeed := fun e he => by
      obtain ⟨he, hn⟩ := mem_rows_erase.1 he
      exact holds_erase (h.entryFeed e he) fun hmem => by simp [feedIds, hmem] at hn }

theorem eraseCategories (h : s.Integrity) (p : Category → Bool) :
    (s.eraseCategories p).Integrity :=
  have h' := h.eraseFeeds fun f => (s.categoryIds p).contains f.categoryId
  { h' with
    categories := h.categories.erase p
    titles := h.titles.erase p
    categoryUser := fun c hc => h.categoryUser c (mem_rows_erase.1 hc).1
    feedCategory := fun f hf => by
      obtain ⟨hf, hn⟩ := mem_rows_erase.1 hf
      exact holds_erase (h.feedCategory f hf) fun hmem => by simp [categoryIds, hmem] at hn }

theorem hasUser_eraseUser {user i : Id} (h : s.hasUser i = true) (hne : i ≠ user) :
    (s.eraseUser user).hasUser i = true := by
  refine holds_erase h fun hmem => ?_
  obtain ⟨u, hu, hi⟩ := List.mem_map.1 hmem
  have hp : u.id = user := by simpa using (List.mem_filter.1 hu).2
  exact hne (hi.symm.trans hp)

theorem eraseUser (h : s.Integrity) (user : Id) : (s.eraseUser user).Integrity where
  users := h.users.erase _
  categories := h.categories.erase _
  feeds := h.feeds.erase _
  entries := h.entries.erase _
  enclosures := h.enclosures.erase _
  usernames := h.usernames.erase _
  titles := h.titles.erase _
  feedUrls := h.feedUrls.erase _
  items := h.items.erase _
  shareCodes := h.shareCodes.filter _
  enclosureUrls := h.enclosureUrls.erase _
  categoryUser := fun c hc => by
    obtain ⟨hc, hn⟩ := mem_rows_erase.1 hc
    exact hasUser_eraseUser (h.categoryUser c hc) (by simpa [categoryGoesWith] using hn)
  feedUser := fun f hf => by
    obtain ⟨hf, hn⟩ := mem_rows_erase.1 hf
    simp only [feedGoesWith, Bool.or_eq_false_iff, beq_eq_false_iff_ne] at hn
    exact hasUser_eraseUser (h.feedUser f hf) hn.1
  feedCategory := fun f hf => by
    obtain ⟨hf, hn⟩ := mem_rows_erase.1 hf
    simp only [feedGoesWith, Bool.or_eq_false_iff] at hn
    exact holds_erase (h.feedCategory f hf) fun hmem => by simp [categoryIds, hmem] at hn
  entryUser := fun e he => by
    obtain ⟨he, hn⟩ := mem_rows_erase.1 he
    simp only [entryGoesWith, Bool.or_eq_false_iff, beq_eq_false_iff_ne] at hn
    exact hasUser_eraseUser (h.entryUser e he) hn.1
  entryFeed := fun e he => by
    obtain ⟨he, hn⟩ := mem_rows_erase.1 he
    simp only [entryGoesWith, Bool.or_eq_false_iff] at hn
    exact holds_erase (h.entryFeed e he) fun hmem => by simp [feedIds, hmem] at hn
  enclosureUser := fun x hx => by
    obtain ⟨hx, hn⟩ := mem_rows_erase.1 hx
    simp only [enclosureGoesWith, Bool.or_eq_false_iff, beq_eq_false_iff_ne] at hn
    exact hasUser_eraseUser (h.enclosureUser x hx) hn.1
  enclosureEntry := fun x hx => by
    obtain ⟨hx, hn⟩ := mem_rows_erase.1 hx
    simp only [enclosureGoesWith, Bool.or_eq_false_iff] at hn
    exact holds_erase (h.enclosureEntry x hx) fun hmem => by simp [entryIds, hmem] at hn

/-! ### Adding rows -/

theorem addUser (h : s.Integrity) {name : String} {now : Int} {row : User}
    (ht : s.addUser name now = .ok (row, t)) : t.Integrity := by
  obtain ⟨hnew, -, rfl⟩ := of_addUser ht
  exact { h with
    users := h.users.add fun _ => rfl
    usernames := h.usernames.add hnew
    categoryUser := fun c hc => holds_add (h.categoryUser c hc)
    feedUser := fun f hf => holds_add (h.feedUser f hf)
    entryUser := fun e he => holds_add (h.entryUser e he)
    enclosureUser := fun x hx => holds_add (h.enclosureUser x hx) }

theorem addCategory (h : s.Integrity) {user : Id} {title : String} {hide : Bool} {row : Category}
    (ht : s.addCategory user title hide = .ok (row, t)) : t.Integrity := by
  obtain ⟨hnew, huser, -, rfl⟩ := of_addCategory ht
  exact { h with
    categories := h.categories.add fun _ => rfl
    titles := h.titles.add fun c hc => by simpa [newCategory] using hnew c hc
    categoryUser := forall_mem_rows_add h.categoryUser huser
    feedCategory := fun f hf => holds_add (h.feedCategory f hf) }

theorem addFeed (h : s.Integrity) {user : Id} {offer : FeedOffer} {row : Feed}
    (ht : s.addFeed user offer = .ok (row, t)) : t.Integrity := by
  obtain ⟨hnew, huser, hcategory, -, rfl⟩ := of_addFeed ht
  exact { h with
    feeds := h.feeds.add fun _ => rfl
    feedUrls := h.feedUrls.add fun f hf => by simpa [FeedOffer.toFeed] using hnew f hf
    feedUser := forall_mem_rows_add h.feedUser huser
    feedCategory := forall_mem_rows_add h.feedCategory hcategory
    entryFeed := fun e he => holds_add (h.entryFeed e he) }

/-- A hash that the feed does not have yet may become an entry. -/
theorem addEntry (h : s.Integrity) {user feed : Id} {c : Candidate} {now : Int} {i : Id}
    (hnew : s.item? feed c.hash = none) (ht : s.addEntry user feed c now = .ok (i, t)) :
    t.Integrity := by
  obtain ⟨huser, hfeed, -, rfl⟩ := of_addEntry ht
  exact { h with
    entries := h.entries.add fun _ => rfl
    items := h.items.add fun e he => by
      have := List.find?_eq_none.1 hnew e he
      simpa [Entry.isItem, Candidate.toEntry] using this
    shareCodes := by
      rw [rows_add, List.pairwise_append]
      refine ⟨h.shareCodes, List.pairwise_singleton _ _, fun a ha b hb hne => ?_⟩
      rw [List.mem_singleton.1 hb]
      exact hne
    entryUser := forall_mem_rows_add h.entryUser huser
    entryFeed := forall_mem_rows_add h.entryFeed hfeed
    enclosureEntry := fun x hx => holds_add (h.enclosureEntry x hx) }

theorem putEnclosure (h : s.Integrity) {user entry : Id} {url mimeType : String} {size : Int}
    {row : Enclosure} (ht : s.putEnclosure user entry url mimeType size = .ok (row, t)) :
    t.Integrity := by
  rcases of_putEnclosure ht with ⟨x, hx, -, rfl⟩ | ⟨hnew, huser, hentry, -, rfl⟩
  · have h' := h.modifyEnclosures (isEnclosure entry url) (f := fun x => { x with mimeType, size })
      (fun _ => rfl) (fun _ => rfl) (fun _ => rfl) (fun _ => rfl)
    exact { h' with enclosures := h'.enclosures.skipId }
  · exact { h with
      enclosures := h.enclosures.add fun _ => rfl
      enclosureUrls := h.enclosureUrls.add fun x hx => by
        simpa [isEnclosure, newEnclosure] using hnew x hx
      enclosureUser := forall_mem_rows_add h.enclosureUser huser
      enclosureEntry := forall_mem_rows_add h.enclosureEntry hentry }

/-! ### Every statement -/

theorem step {now : Int} (h : s.Integrity) (hs : s.Step now t) : t.Integrity := by
  cases hs with
  | addUser _ ht => exact h.addUser ht
  | removeUser user => exact h.eraseUser user
  | addCategory _ ht => exact h.addCategory ht
  | hideCategory user category hide =>
      exact h.modifyCategories _ (fun _ => rfl) (fun _ => rfl) fun _ => rfl
  | removeCategory user category => exact h.eraseCategories _
  | addFeed _ ht => exact h.addFeed ht
  | hideFeed user feed hide =>
      exact h.modifyFeeds _ (fun _ => rfl) (fun _ => rfl) (fun _ => rfl) fun _ => rfl
  | noteFetch user feed state =>
      exact h.modifyFeeds _ (fun _ => rfl) (fun _ => rfl) (fun _ => rfl) fun _ => rfl
  | noteFailure user feed message nextCheckAt =>
      exact h.modifyFeeds _ (fun _ => rfl) (fun _ => rfl) (fun _ => rfl) fun _ => rfl
  | resetFeedErrors user =>
      exact h.modifyFeeds _ (fun _ => rfl) (fun _ => rfl) (fun _ => rfl) fun _ => rfl
  | removeFeed user feed => exact h.eraseFeeds _
  | eraseBatch user feed size => exact h.eraseEntries _
  | sweep feed _ => exact h.eraseEntries _
  | addEntry hnew ht => exact h.addEntry hnew ht
  | refreshEntry user feed c => exact h.modifyKept _ fun _ => ⟨rfl, rfl, rfl, rfl, rfl⟩
  | updateText user entry title content readingTime =>
      exact h.modifyKept _ fun _ => ⟨rfl, rfl, rfl, rfl, rfl⟩
  | putEnclosure _ _ ht => exact h.putEnclosure ht
  | removeStaleEnclosures user entry urls => exact h.eraseEnclosures _
  | setProgression user enclosure seconds =>
      exact h.modifyEnclosures _ (fun _ => rfl) (fun _ => rfl) (fun _ => rfl) fun _ => rfl
  | setStatus user ids status => exact h.modifyKept _ fun _ => ⟨rfl, rfl, rfl, rfl, rfl⟩
  | setStar user ids starred => exact h.modifyKept _ fun _ => ⟨rfl, rfl, rfl, rfl, rfl⟩
  | toggleStar user entry => exact h.modifyKept _ fun _ => ⟨rfl, rfl, rfl, rfl, rfl⟩
  | markRead user p => exact h.modifyKept _ fun _ => ⟨rfl, rfl, rfl, rfl, rfl⟩
  | archive status cutoff limit => exact h.modifyKept _ fun _ => ⟨rfl, rfl, rfl, rfl, rfl⟩
  | flush user => exact h.modifyKept _ fun _ => ⟨rfl, rfl, rfl, rfl, rfl⟩
  | setShareCode ht => exact h.setShareCode ht

theorem steps {now : Int} (h : s.Integrity) (hs : s.Steps now t) : t.Integrity := by
  induction hs with
  | refl => exact h
  | tail _ hst ih => exact ih.step hst

end Integrity

/-! ## Counters -/

/-- No counter of the second store is behind that of the first one. -/
structure Counted (s t : Store) : Prop where
  users : s.users.lastId ≤ t.users.lastId
  categories : s.categories.lastId ≤ t.categories.lastId
  feeds : s.feeds.lastId ≤ t.feeds.lastId
  entries : s.entries.lastId ≤ t.entries.lastId
  enclosures : s.enclosures.lastId ≤ t.enclosures.lastId

theorem Counted.refl (s : Store) : s.Counted s := ⟨le_rfl, le_rfl, le_rfl, le_rfl, le_rfl⟩

theorem Counted.trans {s t u : Store} (h : s.Counted t) (h' : t.Counted u) : s.Counted u :=
  ⟨h.users.trans h'.users, h.categories.trans h'.categories, h.feeds.trans h'.feeds,
    h.entries.trans h'.entries, h.enclosures.trans h'.enclosures⟩

theorem Step.counted {s t : Store} {now : Int} (h : s.Step now t) : s.Counted t := by
  have hnext : ∀ i : Id, i ≤ i + 1 := fun i => Int.le_add_one le_rfl
  cases h with
  | addUser _ ht =>
      obtain ⟨-, -, rfl⟩ := of_addUser ht
      exact { Counted.refl s with users := hnext _ }
  | addCategory _ ht =>
      obtain ⟨-, -, -, rfl⟩ := of_addCategory ht
      exact { Counted.refl s with categories := hnext _ }
  | addFeed _ ht =>
      obtain ⟨-, -, -, -, rfl⟩ := of_addFeed ht
      exact { Counted.refl s with feeds := hnext _ }
  | addEntry _ ht =>
      obtain ⟨-, -, -, rfl⟩ := of_addEntry ht
      exact { Counted.refl s with entries := hnext _ }
  | putEnclosure _ _ ht =>
      rcases of_putEnclosure ht with ⟨x, -, -, rfl⟩ | ⟨-, -, -, -, rfl⟩
      · exact { Counted.refl s with enclosures := hnext _ }
      · exact { Counted.refl s with enclosures := hnext _ }
  | setShareCode ht =>
      obtain ⟨-, -, rfl⟩ := of_setShareCode ht
      exact ⟨le_rfl, le_rfl, le_rfl, le_rfl, le_rfl⟩
  | _ => exact ⟨le_rfl, le_rfl, le_rfl, le_rfl, le_rfl⟩

theorem Steps.counted {s t : Store} {now : Int} (h : s.Steps now t) : s.Counted t := by
  induction h with
  | refl => exact .refl s
  | tail _ hst ih => exact ih.trans hst.counted

end Store

/-- Counters never go back in a run. -/
theorem Session.Leads.counted {s t : Session} (h : s.Leads t) : s.store.Counted t.store := by
  induction h with
  | refl => exact .refl _
  | tail _ hc ih =>
      obtain ⟨c, rfl⟩ := hc
      exact ih.trans (c.takes_next _).store.counted

/-- Every reachable store is in order. -/
theorem Reachable.integrity {s : Session} (h : Reachable s) : s.store.Integrity := by
  refine h.invariant (P := fun s => s.store.Integrity) (fun _ => .empty) fun s c hs => ?_
  exact hs.steps (c.takes_next s).store

end FeedStore

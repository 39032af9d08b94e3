import FeedStore.Proofs.Statement

/-!
# Whose enclosures there are

Rows name their users, and an enclosure also names its entry. In a reachable store the two
agree: the entry of an enclosure is there and belongs to the user of the enclosure
(`Reachable.enclosuresOwned`). Enclosures are only ever stored for an entry of the user who
stores them, and an entry never changes hands.
-/

namespace FeedStore

theorem Entry.isOwn_iff {user id : Id} {e : Entry} :
    e.isOwn user id = true ↔ e.userId = user ∧ e.id = id := by
  simp [isOwn]

namespace Store

open Table

variable {s t : Store}

/-- Every enclosure is of an entry of its own user. -/
def EnclosuresOwned (s : Store) : Prop :=
  ∀ x ∈ s.enclosures.rows, s.HasEntryOf x.userId x.entryId

/-- Changing entries takes none away from its user. -/
theorem HasEntryOf.modify {user entry : Id} {p : Entry → Bool} {f : Entry → Entry}
    (h : s.HasEntryOf user entry) (hid : ∀ e, (f e).id = e.id)
    (huser : ∀ e, (f e).userId = e.userId) :
    ({ s with entries := s.entries.modify p f } : Store).HasEntryOf user entry := by
  obtain ⟨e, he, hown⟩ := h
  refine ⟨_, mem_rows_modify.2 ⟨e, he, rfl⟩, ?_⟩
  split
  · unfold Entry.isOwn at hown ⊢
    rwa [hid, huser]
  · exact hown

/-- An entry stays if its identifier is not among those taken away. -/
theorem HasEntryOf.erase {user entry : Id} {p : Entry → Bool} (h : s.HasEntryOf user entry)
    (hn : entry ∉ s.entryIds p) :
    ({ s with entries := s.entries.erase p } : Store).HasEntryOf user entry := by
  obtain ⟨e, he, hown⟩ := h
  refine ⟨e, mem_rows_erase.2 ⟨he, Bool.eq_false_iff.2 fun hp => hn ?_⟩, hown⟩
  exact mem_entryIds.2 ⟨e, he, hp, (Entry.isOwn_iff.1 hown).2⟩

namespace EnclosuresOwned

theorem modifyEntries (h : s.EnclosuresOwned) (p : Entry → Bool) {f : Entry → Entry}
    (hf : ∀ e, (f e).id = e.id ∧ (f e).userId = e.userId) :
    (s.modifyEntries p f).2.EnclosuresOwned := by
  intro x hx
  exact (h x hx).modify (fun e => (hf e).1) fun e => (hf e).2

theorem modifyEnclosures (h : s.EnclosuresOwned) (p : Enclosure → Bool)
    {f : Enclosure → Enclosure}
    (hf : ∀ x, (f x).userId = x.userId ∧ (f x).entryId = x.entryId) :
    ({ s with enclosures := s.enclosures.modify p f } : Store).EnclosuresOwned := by
  intro x hx
  obtain ⟨y, hy, rfl⟩ := mem_rows_modify.1 hx
  rw [apply_ite Enclosure.userId, apply_ite Enclosure.entryId, (hf y).1, (hf y).2, ite_self,
    ite_self]
  exact h y hy

theorem eraseEntries (h : s.EnclosuresOwned) (p : Entry → Bool) :
    (s.eraseEntries p).EnclosuresOwned := by
  intro x hx
  obtain ⟨hx, hn⟩ := mem_rows_erase.1 hx
  exact (h x hx).erase fun hmem => by simp [hmem] at hn

theorem eraseUser (h : s.EnclosuresOwned) (user : Id) : (s.eraseUser user).EnclosuresOwned := by
  intro x hx
  obtain ⟨hx, hn⟩ := mem_rows_erase.1 hx
  simp only [enclosureGoesWith, Bool.or_eq_false_iff] at hn
  exact (h x hx).erase fun hmem => by simp [hmem] at hn

theorem addEntry (h : s.EnclosuresOwned) (make : Id → Entry) :
    ({ s with entries := (s.entries.add make).2 } : Store).EnclosuresOwned := by
  intro x hx
  obtain ⟨e, he, hown⟩ := h x hx
  exact ⟨e, by rw [rows_add]; exact List.mem_append_left _ he, hown⟩

theorem putEnclosure (h : s.EnclosuresOwned) {user entry : Id} {url mimeType : String} {size : Int}
    {row : Enclosure} (hown : s.HasEntryOf user entry)
    (ht : s.putEnclosure user entry url mimeType size = .ok (row, t)) : t.EnclosuresOwned := by
  rcases of_putEnclosure ht with ⟨x, -, -, rfl⟩ | ⟨-, -, -, -, rfl⟩
  · exact h.modifyEnclosures (isEnclosure entry url) fun _ => ⟨rfl, rfl⟩
  · exact forall_mem_rows_add h hown

theorem step {now : Int} (h : s.EnclosuresOwned) (hs : s.Step now t) : t.EnclosuresOwned := by
  cases hs with
  | addUser _ ht =>
      obtain ⟨-, -, rfl⟩ := of_addUser ht
      exact h
  | removeUser user => exact h.eraseUser user
  | addCategory _ ht =>
      obtain ⟨-, -, -, rfl⟩ := of_addCategory ht
      exact h
  | removeCategory user category => exact h.eraseEntries _
  | addFeed _ ht =>
      obtain ⟨-, -, -, -, rfl⟩ := of_addFeed ht
      exact h
  | removeFeed user feed => exact h.eraseEntries _
  | eraseBatch user feed size => exact h.eraseEntries _
  | sweep feed _ => exact h.eraseEntries _
  | addEntry _ ht =>
      obtain ⟨-, -, -, rfl⟩ := of_addEntry ht
      exact h.addEntry _
  | putEnclosure _ hown ht => exact h.putEnclosure hown ht
  | removeStaleEnclosures user entry urls => exact fun x hx => h x (mem_rows_erase.1 hx).1
  | setProgression user enclosure seconds => exact h.modifyEnclosures _ fun _ => ⟨rfl, rfl⟩
  | setShareCode ht =>
      obtain ⟨-, -, rfl⟩ := of_setShareCode ht
      exact h.modifyEntries _ fun _ => ⟨rfl, rfl⟩
  | refreshEntry user feed c => exact h.modifyEntries _ fun _ => ⟨rfl, rfl⟩
  | updateText user entry title content readingTime =>
      exact h.modifyEntries _ fun _ => ⟨rfl, rfl⟩
  | setStatus user ids status => exact h.modifyEntries _ fun _ => ⟨rfl, rfl⟩
  | setStar user ids starred => exact h.modifyEntries _ fun _ => ⟨rfl, rfl⟩
  | toggleStar user entry => exact h.modifyEntries _ fun _ => ⟨rfl, rfl⟩
  | markRead user p => exact h.modifyEntries _ fun _ => ⟨rfl, rfl⟩
  | archive status cutoff limit => exact h.modifyEntries _ fun _ => ⟨rfl, rfl⟩
  | flush user => exact h.modifyEntries _ fun _ => ⟨rfl, rfl⟩
  | hideCategory user category hide => exact h
  | hideFeed user feed hide => exact h
  | noteFetch user feed state => exact h
  | noteFailure user feed message nextCheckAt => exact h
  | resetFeedErrors user => exact h

theorem steps {now : Int} (h : s.EnclosuresOwned) (hs : s.Steps now t) : t.EnclosuresOwned := by
  induction hs with
  | refl => exact h
  | tail _ hst ih => exact ih.step hst

end EnclosuresOwned

end Store

theorem Reachable.enclosuresOwned {s : Session} (h : Reachable s) : s.store.EnclosuresOwned := by
  refine h.invariant (P := fun s => s.store.EnclosuresOwned) (fun _ => ?_) fun s c hs => ?_
  · intro x hx
    cases hx
  · exact hs.steps (c.takes_next s).store

end FeedStore

import FeedStore.Proofs.Integrity

/-!
# Storing the enclosures of an entry

Storing a list of offers touches nothing but enclosures, and of these only the ones of the
entry. What it lists as stored is what the entry then has, if it listed what the entry had
when it began (`Action.attaches_putEnclosures`). For a new entry that is the list of offers
with trimmed addresses, blank ones passed over, each address once, where it came first and as
it came last (`EnclosureOffer.merged`).
-/

namespace FeedStore

/-! ## What a list of offers comes to -/

namespace EnclosureOffer

/-- Puts an offer where its address is offered already, or at the end. -/
def putInto (o : EnclosureOffer) (offers : List EnclosureOffer) : List EnclosureOffer :=
  if offers.any (·.url == o.url) then offers.map fun p => if p.url = o.url then o else p
  else offers ++ [o]

/-- Puts an offer in under its trimmed address, unless that is empty. -/
def collect (offers : List EnclosureOffer) (o : EnclosureOffer) : List EnclosureOffer :=
  if Text.trim o.url = "" then offers else { o with url := Text.trim o.url }.putInto offers

/-- The offers that remain: each address once. -/
def merged (offers : List EnclosureOffer) : List EnclosureOffer := offers.foldl collect []

end EnclosureOffer

/-- What the enclosure was offered as. -/
def Enclosure.offer (x : Enclosure) : EnclosureOffer := ⟨x.url, x.mimeType, x.size⟩

/-- The enclosure is the user's and has not been played. -/
def Enclosure.IsUnplayedOf (user : Id) (x : Enclosure) : Prop :=
  x.userId = user ∧ x.mediaProgression = 0

/-! ## Lists of stored enclosures -/

namespace Action

theorem place_eq_append {x : Enclosure} {xs : List Enclosure} (h : ∀ y ∈ xs, y.id ≠ x.id) :
    place x xs = xs ++ [x] := by
  induction xs with
  | nil => rfl
  | cons y ys ih =>
      rw [List.forall_mem_cons] at h
      rw [place, if_neg h.1, ih h.2, List.cons_append]

theorem place_eq_map {x : Enclosure} {xs : List Enclosure}
    (hd : xs.Pairwise fun a b => a.id ≠ b.id) (hx : ∃ y ∈ xs, y.id = x.id) :
    place x xs = xs.map fun y => if y.id = x.id then x else y := by
  induction xs with
  | nil =>
      obtain ⟨y, hy, -⟩ := hx
      cases hy
  | cons y ys ih =>
      rw [List.pairwise_cons] at hd
      by_cases hy : y.id = x.id
      · have hrest : ys.map (fun z => if z.id = x.id then x else z) = ys := by
          conv => rhs; rw [← List.map_id ys]
          refine List.map_congr_left fun z hz => if_neg ?_
          exact fun hzx => hd.1 z hz (hy.trans hzx.symm)
        rw [place, if_pos hy, List.map_cons, if_pos hy, hrest]
      · obtain ⟨z, hz, hzx⟩ := hx
        have hz : z ∈ ys := (List.mem_cons.1 hz).resolve_left fun h => hy (h ▸ hzx)
        rw [place, if_neg hy, List.map_cons, if_neg hy, ih hd.2 ⟨z, hz, hzx⟩]

end Action

/-! ## One offer -/

namespace Store

open Table

variable {s t : Store} {user entry : Id} {url mimeType : String} {size : Int} {row : Enclosure}

/-- The enclosures of an entry, whoever stored them. -/
def attached (s : Store) (entry : Id) : List Enclosure := s.enclosures.select (·.entryId == entry)

theorem mem_attached {x : Enclosure} :
    x ∈ s.attached entry ↔ x ∈ s.enclosures.rows ∧ x.entryId = entry := by
  simp [attached, select]

theorem putEnclosure_frame (h : s.putEnclosure user entry url mimeType size = .ok (row, t)) :
    t = { s with enclosures := t.enclosures } := by
  rcases of_putEnclosure h with ⟨x, -, -, rfl⟩ | ⟨-, -, -, -, rfl⟩
  · rfl
  · rfl

theorem attached_modify (p : Enclosure → Bool) :
    ({ s with enclosures :=
        (s.enclosures.modify p fun x => { x with mimeType, size }).skipId } : Store).attached entry
      = (s.attached entry).map fun x => if p x then { x with mimeType, size } else x := by
  have hp : ((fun x : Enclosure => x.entryId == entry)
      ∘ fun x => if p x then { x with mimeType, size } else x) = fun x => x.entryId == entry := by
    funext x
    rw [Function.comp_apply, apply_ite Enclosure.entryId, ite_self]
  unfold attached select
  rw [rows_skipId, rows_modify, List.filter_map, hp]

theorem attached_add :
    ({ s with enclosures :=
        (s.enclosures.add (newEnclosure user entry url mimeType size)).2 } : Store).attached entry
      = s.attached entry
        ++ [newEnclosure user entry url mimeType size (s.enclosures.lastId + 1)] := by
  unfold attached select
  rw [rows_add, List.filter_append]
  simp [newEnclosure]

/-- Another entry's enclosures stay as they are. -/
theorem attached_putEnclosure_of_ne
    (h : s.putEnclosure user entry url mimeType size = .ok (row, t))
    {other : Id} (hne : other ≠ entry) : t.attached other = s.attached other := by
  rcases of_putEnclosure h with ⟨x, -, -, rfl⟩ | ⟨-, -, -, -, rfl⟩
  · rw [attached_modify]
    conv => rhs; rw [← List.map_id (s.attached other)]
    refine List.map_congr_left fun y hy => if_neg ?_
    simp [isEnclosure, (mem_attached.1 hy).2, hne]
  · unfold attached select
    rw [rows_add, List.filter_append]
    simp [newEnclosure, hne.symm]

/-- Storing an enclosure places its row among those of the entry. -/
theorem attached_putEnclosure (hs : s.Integrity)
    (h : s.putEnclosure user entry url mimeType size = .ok (row, t)) :
    t.attached entry = Action.place row (s.attached entry) := by
  rcases of_putEnclosure h with ⟨x, hx, rfl, rfl⟩ | ⟨-, -, -, rfl, rfl⟩
  · have hxp : isEnclosure entry url x = true := List.find?_some hx
    have hxmem : x ∈ s.enclosures.rows := List.mem_of_find?_eq_some hx
    have hd : (s.attached entry).Pairwise fun a b => a.id ≠ b.id := hs.enclosures.distinct.filter _
    have hxatt : x ∈ s.attached entry :=
      mem_attached.2 ⟨hxmem, by simpa using (Bool.and_eq_true_iff.1 hxp).1⟩
    rw [attached_modify,
      Action.place_eq_map (x := { x with mimeType, size }) hd ⟨x, hxatt, rfl⟩]
    refine List.map_congr_left fun y hy => ?_
    obtain ⟨hymem, -⟩ := mem_attached.1 hy
    by_cases hyp : isEnclosure entry url y = true
    · have hyx : y = x := hs.enclosureUrls.eq_of_eq hymem hxmem (by
        simp only [isEnclosure, Bool.and_eq_true, beq_iff_eq] at hyp hxp
        rw [hyp.1, hyp.2, hxp.1, hxp.2])
      rw [if_pos hyp, if_pos (by rw [hyx]), hyx]
    · rw [if_neg hyp, if_neg]
      intro hid
      exact hyp (hs.enclosures.distinct.eq_of_eq hymem hxmem hid ▸ hxp)
  · rw [attached_add, Action.place_eq_append]
    intro y hy
    exact ne_of_lt (Int.lt_add_one_of_le (hs.enclosures.bounded y (mem_attached.1 hy).1))

/-- Clearing away stale enclosures of an entry leaves those of the other entries alone. -/
theorem attached_removeStaleEnclosures_of_ne {urls : List String} {other : Id}
    (hne : other ≠ entry) :
    (s.removeStaleEnclosures user entry urls).2.attached other = s.attached other := by
  show (List.filter _ _).filter _ = s.enclosures.rows.filter _
  rw [List.filter_filter]
  refine List.filter_congr fun x _ => ?_
  by_cases hx : x.entryId = other
  · simp [hx, hne]
  · simp [hx]

/-- What the entry has been offered takes the new offer in. -/
theorem offers_putEnclosure (h : s.putEnclosure user entry url mimeType size = .ok (row, t)) :
    (t.attached entry).map Enclosure.offer
      = (⟨url, mimeType, size⟩ : EnclosureOffer).putInto
          ((s.attached entry).map Enclosure.offer) := by
  rcases of_putEnclosure h with ⟨x, hx, -, rfl⟩ | ⟨hnew, -, -, -, rfl⟩
  · have hxp : x.entryId = entry ∧ x.url = url := by simpa [isEnclosure] using List.find?_some hx
    have hxatt : x ∈ s.attached entry := mem_attached.2 ⟨List.mem_of_find?_eq_some hx, hxp.1⟩
    have hany : ((s.attached entry).map Enclosure.offer).any (·.url == url) = true :=
      List.any_eq_true.2 ⟨x.offer, List.mem_map_of_mem hxatt, by simp [Enclosure.offer, hxp.2]⟩
    rw [attached_modify, EnclosureOffer.putInto, if_pos hany, List.map_map,
      List.map_map]
    refine List.map_congr_left fun y hy => ?_
    have hy : y.entryId = entry := (mem_attached.1 hy).2
    by_cases hu : y.url = url
    · simp [Enclosure.offer, isEnclosure, hy, hu]
    · simp [Enclosure.offer, isEnclosure, hu]
  · have hany : ¬ ((s.attached entry).map Enclosure.offer).any (·.url == url) = true := by
      simp only [List.any_map, List.any_eq_true, not_exists, not_and]
      intro y hy
      obtain ⟨hymem, hye⟩ := mem_attached.1 hy
      simpa [isEnclosure, hye, Enclosure.offer] using hnew y hymem
    rw [attached_add, EnclosureOffer.putInto, if_neg hany, List.map_append]
    rfl

theorem isUnplayedOf_attached_putEnclosure
    (h : s.putEnclosure user entry url mimeType size = .ok (row, t))
    (hs : ∀ x ∈ s.attached entry, x.IsUnplayedOf user) :
    ∀ x ∈ t.attached entry, x.IsUnplayedOf user := by
  rcases of_putEnclosure h with ⟨-, -, -, rfl⟩ | ⟨-, -, -, -, rfl⟩
  · intro y hy
    obtain ⟨hmem, hye⟩ := mem_attached.1 hy
    obtain ⟨z, hz, rfl⟩ := mem_rows_modify.1 hmem
    by_cases hp : isEnclosure entry url z = true
    · rw [if_pos hp] at hye ⊢
      exact hs z (mem_attached.2 ⟨hz, hye⟩)
    · rw [if_neg hp] at hye ⊢
      exact hs z (mem_attached.2 ⟨hz, hye⟩)
  · intro y hy
    obtain ⟨hmem, hye⟩ := mem_attached.1 hy
    rw [rows_add, List.mem_append, List.mem_singleton] at hmem
    rcases hmem with hmem | rfl
    · exact hs y (mem_attached.2 ⟨hmem, hye⟩)
    · exact ⟨rfl, rfl⟩

end Store

/-! ## A list of offers -/

namespace Action

open Store

variable {user entry : Id} {offers : List EnclosureOffer} {stored xs : List Enclosure}
  {s t : Session}

theorem putEnclosures_frame
    (h : (putEnclosures user entry offers stored).perform s = (.ok xs, t)) :
    t = { s with store := { s.store with enclosures := t.store.enclosures } } := by
  induction offers generalizing stored s with
  | nil =>
      cases h
      rfl
  | cons offer offers ih =>
      unfold putEnclosures at h
      dsimp only at h
      by_cases hblank : Text.trim offer.url = ""
      · rw [if_pos hblank] at h
        exact ih h
      · rw [if_neg hblank] at h
        obtain ⟨row, u, hwrite, h⟩ := of_perform_bind h
        obtain ⟨store, hput, rfl⟩ := of_perform_write hwrite
        rw [ih h, putEnclosure_frame hput]

/-- Another entry's enclosures stay as they are, offer by offer. -/
theorem attached_putEnclosures_of_ne
    (h : (putEnclosures user entry offers stored).perform s = (.ok xs, t)) {other : Id}
    (hne : other ≠ entry) : t.store.attached other = s.store.attached other := by
  induction offers generalizing stored s with
  | nil =>
      cases h
      rfl
  | cons offer offers ih =>
      unfold putEnclosures at h
      dsimp only at h
      by_cases hblank : Text.trim offer.url = ""
      · rw [if_pos hblank] at h
        exact ih h
      · rw [if_neg hblank] at h
        obtain ⟨row, u, hwrite, h⟩ := of_perform_bind h
        obtain ⟨store, hput, rfl⟩ := of_perform_write hwrite
        rw [ih h]
        exact attached_putEnclosure_of_ne hput hne

/-- Storing enclosures has led from the first session to the second one, and the entry has
these. -/
structure Attaches (user entry : Id) (offers : List EnclosureOffer) (s t : Session)
    (xs : List Enclosure) : Prop where
  attached : xs = t.store.attached entry
  offers : xs.map Enclosure.offer
    = offers.foldl EnclosureOffer.collect ((s.store.attached entry).map Enclosure.offer)
  unplayed : (∀ x ∈ s.store.attached entry, x.IsUnplayedOf user) → ∀ x ∈ xs, x.IsUnplayedOf user

/-- The list of stored enclosures keeps up with the table, offer by offer. -/
theorem attaches_putEnclosures
    (h : (putEnclosures user entry offers stored).perform s = (.ok xs, t)) (hs : s.store.Integrity)
    (hstored : stored = s.store.attached entry) : Attaches user entry offers s t xs := by
  induction offers generalizing stored s with
  | nil =>
      cases h
      exact ⟨hstored, by rw [hstored]; rfl, fun hu => hstored ▸ hu⟩
  | cons offer offers ih =>
      unfold putEnclosures at h
      dsimp only at h
      by_cases hblank : Text.trim offer.url = ""
      · rw [if_pos hblank] at h
        have hrest := ih h hs hstored
        refine { hrest with offers := ?_ }
        rw [hrest.offers, List.foldl_cons]
        simp only [EnclosureOffer.collect, if_pos hblank]
      · rw [if_neg hblank] at h
        obtain ⟨row, u, hwrite, h⟩ := of_perform_bind h
        obtain ⟨store, hput, rfl⟩ := of_perform_write hwrite
        have hplace := attached_putEnclosure hs hput
        have hrest := ih h (hs.putEnclosure hput) (by rw [hstored]; exact hplace.symm)
        refine ⟨hrest.attached, ?_, ?_⟩
        · rw [hrest.offers, List.foldl_cons]
          simp only [EnclosureOffer.collect, if_neg hblank]
          rw [offers_putEnclosure hput]
        · exact fun hu => hrest.unplayed (isUnplayedOf_attached_putEnclosure hput hu)

/-- An identifier that no entry has got yet has no enclosures either. -/
theorem attached_eq_nil {s : Store} (hs : s.Integrity) (hlast : s.entries.lastId < entry) :
    s.attached entry = [] := by
  refine List.filter_eq_nil_iff.2 fun x hx hentry => ?_
  obtain ⟨e, he, hid⟩ := Table.holds_id_iff.1 (hs.enclosureEntry x hx)
  have hentry : x.entryId = entry := by simpa using hentry
  have hle : e.id ≤ s.entries.lastId := hs.entries.bounded e he
  rw [hid, hentry] at hle
  exact absurd hle (Int.not_le.2 hlast)

/-- Bringing enclosures in line touches nothing but enclosures. -/
theorem updateEnclosures_frame
    (h : (updateEnclosures user entry offers).perform s = (.ok (), t)) :
    t = { s with store := { s.store with enclosures := t.store.enclosures } } := by
  unfold updateEnclosures at h
  split at h
  · cases h
    rfl
  · obtain ⟨xs, u, hput, h⟩ := of_perform_bind h
    obtain ⟨n, v, hstale, h⟩ := of_perform_bind h
    obtain ⟨-, rfl⟩ := of_perform_change hstale
    cases h
    rw [putEnclosures_frame hput]
    rfl

/-- Bringing the enclosures of an entry in line leaves those of the other entries alone. -/
theorem attached_updateEnclosures_of_ne
    (h : (updateEnclosures user entry offers).perform s = (.ok (), t)) {other : Id}
    (hne : other ≠ entry) : t.store.attached other = s.store.attached other := by
  unfold updateEnclosures at h
  split at h
  · cases h
    rfl
  · obtain ⟨xs, u, hput, h⟩ := of_perform_bind h
    obtain ⟨n, v, hstale, h⟩ := of_perform_bind h
    obtain ⟨-, rfl⟩ := of_perform_change hstale
    cases h
    rw [← attached_putEnclosures_of_ne hput hne]
    exact attached_removeStaleEnclosures_of_ne hne

end Action

end FeedStore

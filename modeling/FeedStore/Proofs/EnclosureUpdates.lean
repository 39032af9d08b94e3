import FeedStore.Proofs.EnclosureReads
import FeedStore.Proofs.Progress
import Mathlib.Data.List.Induction

/-!
# Bringing enclosures in line

What a candidate offers is taken in one offer after the other: an address that the entry has
keeps its row and takes over type and size, another one gets a row of its own at the end, and
every offer with an address uses up an identifier (`Store.Takes`, kept by each offer in
`Action.takes_putEnclosures`). What is listed as stored on the way are exactly the addresses offered
so far (`Store.Lists`), so an update that then takes away the rest leaves the entry with what its
candidate offers and nothing else (`Store.InLine`, `Reachable.bringsInLine`).
-/

namespace FeedStore

/-! ## Addresses -/

namespace EnclosureOffer

/-- The trimmed addresses that are not empty, each of them once, where it comes first. -/
def addresses (offers : List EnclosureOffer) : List String :=
  ((offers.map fun o => Text.trim o.url).filter (· ≠ "")).eraseDups

/-- The last offer with that address. -/
def last? (url : String) (offers : List EnclosureOffer) : Option EnclosureOffer :=
  (offers.filter fun o => Text.trim o.url == url).getLast?

/-- How many offers have an address that is not blank. -/
def usable (offers : List EnclosureOffer) : Nat :=
  offers.countP fun o => Text.trim o.url ≠ ""

variable {offers : List EnclosureOffer} {o : EnclosureOffer} {url : String}

theorem mem_addresses :
    url ∈ addresses offers ↔ url ≠ "" ∧ ∃ o ∈ offers, Text.trim o.url = url := by
  simp [addresses, and_comm]

/-- One more offer adds its address, unless it is blank or offered already. -/
theorem addresses_concat (offers : List EnclosureOffer) (o : EnclosureOffer) :
    addresses (offers ++ [o])
      = if Text.trim o.url = "" ∨ Text.trim o.url ∈ addresses offers then addresses offers
        else addresses offers ++ [Text.trim o.url] := by
  unfold addresses
  rw [List.map_append, List.filter_append, List.eraseDups_append]
  by_cases hblank : Text.trim o.url = ""
  · simp [hblank, List.removeAll]
  · by_cases hmem : Text.trim o.url ∈ (offers.map fun o => Text.trim o.url).filter (· ≠ "")
    · rw [if_pos (Or.inr (List.mem_eraseDups.2 hmem))]
      simp_all [List.removeAll]
    · rw [if_neg (not_or.2 ⟨hblank, fun h => hmem (List.mem_eraseDups.1 h)⟩)]
      simp_all [List.removeAll, List.eraseDups_cons]

theorem nodup_addresses (offers : List EnclosureOffer) : (addresses offers).Nodup := by
  induction offers using List.reverseRecOn with
  | nil => exact List.nodup_nil
  | append_singleton offers o ih =>
      rw [addresses_concat]
      split
      · exact ih
      · rename_i hnew
        rw [← List.concat_eq_append]
        exact ih.concat fun hmem => hnew (Or.inr hmem)

theorem last?_concat_of_eq (h : Text.trim o.url = url) : last? url (offers ++ [o]) = some o := by
  simp [last?, h]

theorem last?_concat_of_ne (h : Text.trim o.url ≠ url) :
    last? url (offers ++ [o]) = last? url offers := by
  simp [last?, h]

theorem usable_concat (offers : List EnclosureOffer) (o : EnclosureOffer) :
    usable (offers ++ [o]) = usable offers + if Text.trim o.url = "" then 0 else 1 := by
  by_cases h : Text.trim o.url = ""
  · simp [usable, h]
  · simp [usable, h]

theorem addresses_eq_nil_iff : addresses offers = [] ↔ ∀ o ∈ offers, Text.trim o.url = "" := by
  simp only [List.eq_nil_iff_forall_not_mem, mem_addresses]
  constructor
  · exact fun h o ho => by_contra fun hne => h _ ⟨hne, o, ho, rfl⟩
  · rintro h url ⟨hne, o, ho, rfl⟩
    exact hne (h o ho)

theorem all_isBlankText_iff :
    (offers.all fun o => Text.isBlankText o.url) = true ↔ addresses offers = [] := by
  simp only [addresses_eq_nil_iff, List.all_eq_true, Text.trim_eq_empty_iff]

end EnclosureOffer

/-- The enclosure after an offer has gone by, whose type and size it takes over if it has the
address. -/
def Enclosure.renewed (o : EnclosureOffer) (x : Enclosure) : Enclosure :=
  if x.url = Text.trim o.url then { x with mimeType := o.mimeType, size := o.size } else x

/-- Nothing but type and size of an enclosure is ever renewed. -/
theorem Enclosure.renewed_eq (o : EnclosureOffer) (x : Enclosure) :
    x.renewed o
      = { x with mimeType := (x.renewed o).mimeType, size := (x.renewed o).size } := by
  unfold renewed
  split
  · rfl
  · rfl

@[simp] theorem Enclosure.renewed_url (o : EnclosureOffer) (x : Enclosure) :
    (x.renewed o).url = x.url := by
  rw [renewed_eq]

@[simp] theorem Enclosure.renewed_id (o : EnclosureOffer) (x : Enclosure) :
    (x.renewed o).id = x.id := by
  rw [renewed_eq]

/-! ## One more offer -/

namespace Action

/-- Where identifiers and addresses tell rows apart alike, a row is placed under its address. -/
theorem map_url_place {x : Enclosure} {xs : List Enclosure}
    (h : ∀ y ∈ xs, y.id = x.id ↔ y.url = x.url) :
    (place x xs).map (·.url)
      = if x.url ∈ xs.map (·.url) then xs.map (·.url) else xs.map (·.url) ++ [x.url] := by
  induction xs with
  | nil => rfl
  | cons y ys ih =>
      rw [List.forall_mem_cons] at h
      by_cases hid : y.id = x.id
      · have hurl : y.url = x.url := h.1.1 hid
        simp [place, hid, hurl]
      · have hurl : x.url ≠ y.url := fun heq => hid (h.1.2 heq.symm)
        rw [place, if_neg hid, List.map_cons, List.map_cons, ih h.2]
        simp only [List.mem_cons, hurl, false_or]
        split
        · rfl
        · rfl

theorem mem_place {x z : Enclosure} {xs : List Enclosure} (h : z ∈ place x xs) :
    z = x ∨ z ∈ xs := by
  induction xs with
  | nil => exact Or.inl (List.mem_singleton.1 h)
  | cons y ys ih =>
      rw [place] at h
      split at h
      · exact (List.mem_cons.1 h).imp_right (List.mem_cons_of_mem y)
      · rcases List.mem_cons.1 h with rfl | h
        · exact Or.inr List.mem_cons_self
        · exact (ih h).imp_right (List.mem_cons_of_mem y)

theorem mem_place_self (x : Enclosure) (xs : List Enclosure) : x ∈ place x xs := by
  induction xs with
  | nil => exact List.mem_singleton_self x
  | cons y ys ih =>
      rw [place]
      split
      · exact List.mem_cons_self
      · exact List.mem_cons_of_mem y ih

end Action

namespace Store

open Table EnclosureOffer

variable {s t u : Store} {user entry : Id} {offers : List EnclosureOffer} {stored : List Enclosure}
  {row : Enclosure}

/-- The addresses of the enclosures of an entry. -/
def urls (s : Store) (entry : Id) : List String := (s.attached entry).map (·.url)

theorem nodup_urls (hs : s.Integrity) (entry : Id) : (s.urls entry).Nodup := by
  rw [urls, List.Nodup, List.pairwise_map]
  refine (hs.enclosureUrls.filter _).imp_of_mem fun {x y} hx hy hne heq => hne ?_
  have hx : x.entryId = entry := (mem_attached.1 hx).2
  have hy : y.entryId = entry := (mem_attached.1 hy).2
  exact Prod.ext (hx.trans hy.symm) heq

/-- Storing an offer renews the enclosure with its address, or adds one. An identifier is used up
either way. -/
theorem attached_putEnclosure_eq {o : EnclosureOffer}
    (h : s.putEnclosure user entry (Text.trim o.url) o.mimeType o.size = .ok (row, t)) :
    t.enclosures.lastId = s.enclosures.lastId + 1 ∧
      (Text.trim o.url ∈ s.urls entry
          ∧ t.attached entry = (s.attached entry).map (Enclosure.renewed o)
        ∨ Text.trim o.url ∉ s.urls entry ∧ t.attached entry = s.attached entry
            ++ [newEnclosure user entry (Text.trim o.url) o.mimeType o.size
              (s.enclosures.lastId + 1)]) := by
  rcases of_putEnclosure h with ⟨x, hx, -, rfl⟩ | ⟨hnew, -, -, -, rfl⟩
  · have hxp : x.entryId = entry ∧ x.url = Text.trim o.url := by
      simpa [isEnclosure] using List.find?_some hx
    have hxatt : x ∈ s.attached entry := mem_attached.2 ⟨List.mem_of_find?_eq_some hx, hxp.1⟩
    refine ⟨rfl, Or.inl ⟨List.mem_map.2 ⟨x, hxatt, hxp.2⟩, ?_⟩⟩
    rw [attached_modify]
    refine List.map_congr_left fun y hy => ?_
    simp [isEnclosure, Enclosure.renewed, (mem_attached.1 hy).2]
  · refine ⟨rfl, Or.inr ⟨fun hmem => ?_, attached_add⟩⟩
    obtain ⟨y, hy, hyurl⟩ := List.mem_map.1 hmem
    obtain ⟨hymem, hyentry⟩ := mem_attached.1 hy
    have hother := hnew y hymem
    simp [isEnclosure, hyentry, hyurl] at hother

theorem url_putEnclosure {url mimeType : String} {size : Int}
    (h : s.putEnclosure user entry url mimeType size = .ok (row, t)) : row.url = url := by
  rcases of_putEnclosure h with ⟨x, hx, rfl, -⟩ | ⟨-, -, -, rfl, -⟩
  · have hxp : x.entryId = entry ∧ x.url = url := by simpa [isEnclosure] using List.find?_some hx
    exact hxp.2
  · rfl

/-! ## What the offers so far have come to -/

/-- The entry has taken these offers in, from the first store to the second one. -/
structure Takes (user entry : Id) (offers : List EnclosureOffer) (s t : Store) : Prop where
  urls : t.urls entry = s.urls entry ++ (addresses offers).filter (· ∉ s.urls entry)
  kept : ∀ x ∈ s.attached entry, ∃ y ∈ t.attached entry,
    y = { x with mimeType := y.mimeType, size := y.size }
  last : ∀ y ∈ t.attached entry, y.url ∈ addresses offers →
    ∃ o, last? y.url offers = some o ∧ y.mimeType = o.mimeType ∧ y.size = o.size
  fresh : ∀ y ∈ t.attached entry, y.url ∉ s.urls entry →
    s.enclosures.lastId < y.id ∧ y.IsUnplayedOf user
  lastId : t.enclosures.lastId = s.enclosures.lastId + usable offers

/-- What is listed as stored are the addresses offered so far, with the rows that they have. -/
structure Lists (entry : Id) (offers : List EnclosureOffer) (stored : List Enclosure) (t : Store) :
    Prop where
  urls : stored.map (·.url) = addresses offers
  held : ∀ x ∈ stored, ∃ y ∈ t.attached entry, y.id = x.id ∧ y.url = x.url

theorem Takes.start (user entry : Id) (s : Store) : Takes user entry [] s s where
  urls := (List.append_nil _).symm
  kept x hx := ⟨x, hx, rfl⟩
  last _ _ hy := by cases hy
  fresh y hy hnew := absurd (List.mem_map_of_mem hy) hnew
  lastId := (Int.add_zero _).symm

theorem Lists.start (entry : Id) (t : Store) : Lists entry [] [] t :=
  ⟨rfl, fun _ hx => by cases hx⟩

theorem addresses_concat_of_blank {o : EnclosureOffer} (h : Text.trim o.url = "") :
    addresses (offers ++ [o]) = addresses offers := by
  rw [addresses_concat, if_pos (Or.inl h)]

/-- A blank offer is passed over. -/
theorem Takes.blank {o : EnclosureOffer} (h : Takes user entry offers s t)
    (hblank : Text.trim o.url = "") : Takes user entry (offers ++ [o]) s t where
  urls := by
    rw [addresses_concat_of_blank hblank]
    exact h.urls
  kept := h.kept
  last y hy hmem := by
    rw [addresses_concat_of_blank hblank] at hmem
    rw [last?_concat_of_ne fun heq => (mem_addresses.1 hmem).1 (heq.symm.trans hblank)]
    exact h.last y hy hmem
  fresh := h.fresh
  lastId := by
    rw [h.lastId, usable_concat, if_pos hblank]
    rfl

theorem Lists.blank {o : EnclosureOffer} (h : Lists entry offers stored t)
    (hblank : Text.trim o.url = "") : Lists entry (offers ++ [o]) stored t :=
  ⟨by rw [addresses_concat_of_blank hblank, h.urls], h.held⟩

/-- The offer whose address is that of an enclosure renews it. -/
theorem Takes.renew {o : EnclosureOffer} (h : Takes user entry offers s t)
    (hmem : Text.trim o.url ∈ t.urls entry)
    (hatt : u.attached entry = (t.attached entry).map (Enclosure.renewed o))
    (hlast : u.enclosures.lastId = s.enclosures.lastId + usable (offers ++ [o])) :
    Takes user entry (offers ++ [o]) s u := by
  have hurls : u.urls entry = t.urls entry := by
    rw [Store.urls, hatt, List.map_map]
    exact List.map_congr_left fun x _ => x.renewed_url o
  refine ⟨?_, fun x hx => ?_, ?_, ?_, hlast⟩
  · rw [hurls, h.urls, addresses_concat]
    split
    · rfl
    · -- an address that is not offered yet was there before all offers
      rename_i hnew
      rw [h.urls, List.mem_append, List.mem_filter] at hmem
      have hold : Text.trim o.url ∈ s.urls entry :=
        hmem.resolve_right fun hoffered => hnew (Or.inr hoffered.1)
      simp [hold]
  · obtain ⟨y, hy, heq⟩ := h.kept x hx
    refine ⟨y.renewed o, hatt ▸ List.mem_map_of_mem hy, ?_⟩
    rw [Enclosure.renewed_eq, heq]
  · rw [hatt]
    refine List.forall_mem_map.2 fun y hy hoffered => ?_
    rw [Enclosure.renewed_url] at hoffered ⊢
    by_cases hyurl : y.url = Text.trim o.url
    · exact ⟨o, last?_concat_of_eq hyurl.symm, by rw [Enclosure.renewed, if_pos hyurl],
        by rw [Enclosure.renewed, if_pos hyurl]⟩
    · have hbefore : y.url ∈ addresses offers := by
        rw [addresses_concat] at hoffered
        split at hoffered
        · exact hoffered
        · exact (List.mem_append.1 hoffered).resolve_right fun heq =>
            hyurl (List.mem_singleton.1 heq)
      rw [last?_concat_of_ne (Ne.symm hyurl), Enclosure.renewed, if_neg hyurl]
      exact h.last y hy hbefore
  · rw [hatt]
    refine List.forall_mem_map.2 fun y hy hnew => ?_
    rw [Enclosure.renewed_url] at hnew
    rw [Enclosure.renewed_eq]
    exact h.fresh y hy hnew

/-- The offer whose address the entry does not have yet becomes its last enclosure. -/
theorem Takes.append {o : EnclosureOffer} (h : Takes user entry offers s t)
    (hurl : Text.trim o.url ≠ "") (hnew : Text.trim o.url ∉ t.urls entry)
    (hatt : u.attached entry = t.attached entry
      ++ [newEnclosure user entry (Text.trim o.url) o.mimeType o.size (t.enclosures.lastId + 1)])
    (hlast : u.enclosures.lastId = s.enclosures.lastId + usable (offers ++ [o])) :
    Takes user entry (offers ++ [o]) s u := by
  have hold : Text.trim o.url ∉ s.urls entry := fun hmem =>
    hnew (h.urls ▸ List.mem_append_left _ hmem)
  have hunoffered : Text.trim o.url ∉ addresses offers := fun hmem =>
    hnew (h.urls ▸ List.mem_append_right _ (List.mem_filter.2 ⟨hmem, by simpa using hold⟩))
  have haddresses : addresses (offers ++ [o]) = addresses offers ++ [Text.trim o.url] := by
    rw [addresses_concat, if_neg (not_or.2 ⟨hurl, hunoffered⟩)]
  have hurls : u.urls entry = t.urls entry ++ [Text.trim o.url] := by
    rw [Store.urls, hatt, List.map_append]
    rfl
  refine ⟨?_, fun x hx => ?_, ?_, ?_, hlast⟩
  · rw [hurls, h.urls, haddresses, List.filter_append, List.append_assoc]
    simp [hold]
  · obtain ⟨y, hy, heq⟩ := h.kept x hx
    exact ⟨y, hatt ▸ List.mem_append_left _ hy, heq⟩
  · rw [hatt, haddresses]
    intro y hy hoffered
    rcases List.mem_append.1 hy with hy | hy
    · -- an enclosure that was there has another address
      have hyurl : y.url ≠ Text.trim o.url := fun heq =>
        hnew (heq ▸ List.mem_map_of_mem (f := Enclosure.url) hy)
      rw [last?_concat_of_ne hyurl.symm]
      exact h.last y hy ((List.mem_append.1 hoffered).resolve_right fun heq =>
        hyurl (List.mem_singleton.1 heq))
    · rw [List.mem_singleton.1 hy]
      exact ⟨o, last?_concat_of_eq rfl, rfl, rfl⟩
  · rw [hatt]
    intro y hy hynew
    rcases List.mem_append.1 hy with hy | hy
    · exact h.fresh y hy hynew
    · rw [List.mem_singleton.1 hy, h.lastId]
      refine ⟨?_, rfl, rfl⟩
      show s.enclosures.lastId < s.enclosures.lastId + usable offers + 1
      exact Int.lt_add_one_of_le (Int.le_add_of_nonneg_right (Int.natCast_nonneg _))

/-- An offer with an address is taken in. -/
theorem Takes.put {o : EnclosureOffer} (h : Takes user entry offers s t)
    (hurl : Text.trim o.url ≠ "")
    (hput : t.putEnclosure user entry (Text.trim o.url) o.mimeType o.size = .ok (row, u)) :
    Takes user entry (offers ++ [o]) s u := by
  obtain ⟨hnext, hatt⟩ := attached_putEnclosure_eq hput
  have hlast : u.enclosures.lastId = s.enclosures.lastId + usable (offers ++ [o]) := by
    rw [hnext, h.lastId, usable_concat, if_neg hurl, Int.natCast_add, Int.add_assoc]
    rfl
  rcases hatt with ⟨hmem, hatt⟩ | ⟨hnew, hatt⟩
  · exact h.renew hmem hatt hlast
  · exact h.append hurl hnew hatt hlast

/-- What is listed as stored keeps up with the offers. -/
theorem Lists.put {o : EnclosureOffer} (h : Lists entry offers stored t) (ht : t.Integrity)
    (hu : u.Integrity) (hurl : Text.trim o.url ≠ "")
    (hput : t.putEnclosure user entry (Text.trim o.url) o.mimeType o.size = .ok (row, u)) :
    Lists entry (offers ++ [o]) (Action.place row stored) u := by
  have hrow : row ∈ u.attached entry := by
    rw [attached_putEnclosure ht hput]
    exact Action.mem_place_self row _
  have hrowurl : row.url = Text.trim o.url := url_putEnclosure hput
  have hmoved : ∀ x ∈ stored, ∃ y ∈ u.attached entry, y.id = x.id ∧ y.url = x.url := by
    intro x hx
    obtain ⟨y, hy, hid, hyurl⟩ := h.held x hx
    rcases (attached_putEnclosure_eq hput).2 with ⟨-, hatt⟩ | ⟨-, hatt⟩
    · exact ⟨y.renewed o, hatt ▸ List.mem_map_of_mem hy, by rw [Enclosure.renewed_id, hid],
        by rw [Enclosure.renewed_url, hyurl]⟩
    · exact ⟨y, hatt ▸ List.mem_append_left _ hy, hid, hyurl⟩
  have halike : ∀ x ∈ stored, x.id = row.id ↔ x.url = row.url := by
    intro x hx
    obtain ⟨y, hy, hid, hyurl⟩ := hmoved x hx
    obtain ⟨hymem, hyentry⟩ := mem_attached.1 hy
    obtain ⟨hrowmem, hrowentry⟩ := mem_attached.1 hrow
    constructor
    · intro heq
      rw [← hyurl, hu.enclosures.distinct.eq_of_eq hymem hrowmem (hid.trans heq)]
    · intro heq
      rw [← hid, hu.enclosureUrls.eq_of_eq hymem hrowmem
        (Prod.ext (hyentry.trans hrowentry.symm) (hyurl.trans heq))]
  constructor
  · rw [Action.map_url_place halike, h.urls, hrowurl, addresses_concat]
    simp only [hurl, false_or]
  · intro x hx
    rcases Action.mem_place hx with rfl | hx
    · exact ⟨x, hrow, rfl, rfl⟩
    · exact hmoved x hx

end Store

/-! ## All offers -/

namespace Action

open Store EnclosureOffer

variable {user feed entry : Id} {update : Bool} {done offers : List EnclosureOffer}
  {stored xs : List Enclosure} {c : Candidate} {s t : Session} {start : Store}

/-- Offer after offer, the entry takes them in and what is listed as stored keeps up. -/
theorem takes_putEnclosures (h : (putEnclosures user entry offers stored).perform s = (.ok xs, t))
    (hs : s.store.Integrity) (htakes : Takes user entry done start s.store)
    (hlists : Lists entry done stored s.store) :
    Takes user entry (done ++ offers) start t.store
      ∧ Lists entry (done ++ offers) xs t.store := by
  induction offers generalizing done stored s with
  | nil =>
      cases h
      rw [List.append_nil]
      exact ⟨htakes, hlists⟩
  | cons o offers ih =>
      rw [List.append_cons]
      unfold putEnclosures at h
      dsimp only at h
      by_cases hblank : Text.trim o.url = ""
      · rw [if_pos hblank] at h
        exact ih h hs (htakes.blank hblank) (hlists.blank hblank)
      · rw [if_neg hblank] at h
        obtain ⟨row, u, hwrite, h⟩ := of_perform_bind h
        obtain ⟨store, hput, rfl⟩ := of_perform_write hwrite
        have hu : store.Integrity := hs.putEnclosure hput
        exact ih h hu (htakes.put hblank hput) (hlists.put hs hu hblank hput)

end Action

/-! ## An entry in line with its candidate -/

open Store EnclosureOffer

/-- From the first store to the second one, the enclosures of the entry have come to be those that
are offered, and no others have changed. -/
structure Store.InLine (user entry : Id) (offers : List EnclosureOffer) (s t : Store) : Prop where
  /-- The entry has just the addresses on offer. -/
  urls : (t.urls entry).Perm (addresses offers)
  /-- An address that it had keeps its row, up to type and size. -/
  kept : ∀ x ∈ s.attached entry, x.url ∈ addresses offers →
    ∃ y ∈ t.attached entry, y = { x with mimeType := y.mimeType, size := y.size }
  /-- Type and size are those that came last. -/
  last : ∀ y ∈ t.attached entry,
    ∃ o, last? y.url offers = some o ∧ y.mimeType = o.mimeType ∧ y.size = o.size
  /-- A new address gets an identifier above all that have been given out, and is unplayed. -/
  fresh : ∀ y ∈ t.attached entry, y.url ∉ s.urls entry →
    s.enclosures.lastId < y.id ∧ y.IsUnplayedOf user
  ascending : (t.attached entry).Pairwise fun x y => x.id < y.id
  /-- New addresses come in the order in which they are offered. -/
  order : (t.urls entry).filter (· ∉ s.urls entry)
    = (addresses offers).filter (· ∉ s.urls entry)
  others : ∀ other, other ≠ entry → t.attached other = s.attached other
  /-- Every offer with an address has used up an identifier. -/
  lastId : t.enclosures.lastId = s.enclosures.lastId + usable offers

namespace Store

variable {s t u : Store} {user entry : Id} {offers : List EnclosureOffer}

/-- Once all offers have been taken in and nothing but the addresses on offer has been left, the
entry is in line. -/
theorem Takes.inLine (h : Takes user entry offers s u) (ht : t.Integrity)
    (hatt : t.attached entry = (u.attached entry).filter (·.url ∈ addresses offers))
    (hothers : ∀ other, other ≠ entry → t.attached other = s.attached other)
    (hlast : t.enclosures.lastId = u.enclosures.lastId) : InLine user entry offers s t := by
  have hsub : ∀ y ∈ t.attached entry, y ∈ u.attached entry ∧ y.url ∈ addresses offers := by
    intro y hy
    simpa [hatt] using hy
  have hurls : t.urls entry = (s.urls entry).filter (· ∈ addresses offers)
      ++ (addresses offers).filter (· ∉ s.urls entry) := by
    have hfilter : t.urls entry = (u.urls entry).filter (· ∈ addresses offers) := by
      rw [Store.urls, Store.urls, hatt, List.filter_map]
      rfl
    rw [hfilter, h.urls, List.filter_append, List.filter_filter]
    refine congrArg _ (List.filter_congr fun url hurl => ?_)
    simp [hurl]
  refine ⟨?_, fun x hx hurl => ?_, fun y hy => ?_, fun y hy => ?_, ?_, ?_, hothers,
    hlast.trans h.lastId⟩
  · rw [List.perm_ext_iff_of_nodup (nodup_urls ht entry) (nodup_addresses offers)]
    intro url
    rw [hurls]
    by_cases hold : url ∈ s.urls entry
    · simp [hold]
    · simp [hold]
  · obtain ⟨y, hy, heq⟩ := h.kept x hx
    have hyurl : y.url ∈ addresses offers := by
      rw [heq]
      exact hurl
    exact ⟨y, hatt ▸ List.mem_filter.2 ⟨hy, by simpa using hyurl⟩, heq⟩
  · exact h.last y (hsub y hy).1 (hsub y hy).2
  · exact h.fresh y (hsub y hy).1
  · exact pairwise_id_attached ht entry
  · have hold : ∀ url ∈ (s.urls entry).filter (· ∈ addresses offers),
        ¬ decide (url ∉ s.urls entry) = true := by
      intro url hurl
      simpa using (List.mem_filter.1 hurl).1
    rw [hurls, List.filter_append, List.filter_eq_nil_iff.2 hold, List.filter_filter]
    simp

/-- Only the enclosures matter of the store in which it began. -/
theorem InLine.congr {s' : Store} (h : InLine user entry offers s t)
    (hs : s'.enclosures = s.enclosures) : InLine user entry offers s' t := by
  obtain ⟨_, _, _, _, _⟩ := s
  obtain ⟨_, _, _, _, _⟩ := s'
  cases hs
  exact ⟨h.urls, h.kept, h.last, h.fresh, h.ascending, h.order, h.others, h.lastId⟩

/-- Of the enclosures of an entry whose user owns them all, just those with the given addresses
are left. -/
theorem attached_removeStaleEnclosures {urls : List String}
    (howner : ∀ x ∈ s.attached entry, x.userId = user) :
    (s.removeStaleEnclosures user entry urls).2.attached entry
      = (s.attached entry).filter (·.url ∈ urls) := by
  show (List.filter _ _).filter _ = (List.filter _ _).filter _
  rw [List.filter_filter, List.filter_filter]
  refine List.filter_congr fun x hx => ?_
  by_cases hentry : x.entryId = entry
  · have huser : x.userId = user := howner x (mem_attached.2 ⟨hx, hentry⟩)
    simp [hentry, huser]
  · have hne : (x.entryId == entry) = false := beq_eq_false_iff_ne.2 hentry
    rw [hne, Bool.false_and, Bool.and_false]

end Store

namespace Action

variable {user feed entry : Id} {update : Bool} {offers : List EnclosureOffer}
  {c : Candidate} {v : EntryView} {s t : Session}

/-- An update leaves the enclosures alone if no address is on offer. Otherwise it brings them in
line. -/
theorem inLine_updateEnclosures (hs : s.store.Integrity) (howned : s.store.EnclosuresOwned)
    (hown : s.store.HasEntryOf user entry)
    (h : (updateEnclosures user entry offers).perform s = (.ok (), t)) :
    (addresses offers = [] → t = s)
      ∧ (addresses offers ≠ [] → InLine user entry offers s.store t.store) := by
  have hev : s.Evolves t := (evolves_updateEnclosures offers hown).of_perform h
  have hothers : ∀ other, other ≠ entry → t.store.attached other = s.store.attached other :=
    fun other hne => attached_updateEnclosures_of_ne h hne
  unfold updateEnclosures at h
  by_cases hnone : addresses offers = []
  · rw [if_pos (all_isBlankText_iff.2 hnone)] at h
    cases h
    exact ⟨fun _ => rfl, fun hne => absurd hnone hne⟩
  · refine ⟨fun heq => absurd heq hnone, fun _ => ?_⟩
    rw [if_neg fun hall => hnone (all_isBlankText_iff.1 hall)] at h
    obtain ⟨xs, u, hput, h⟩ := of_perform_bind h
    obtain ⟨n, w, hstale, h⟩ := of_perform_bind h
    obtain ⟨-, rfl⟩ := of_perform_change hstale
    cases h
    obtain ⟨htakes, hlists⟩ := takes_putEnclosures hput hs (.start user entry s.store)
      (.start entry s.store)
    have hsteps := ((evolves_putEnclosures offers [] hown).of_perform hput).store
    have howner : ∀ x ∈ u.store.attached entry, x.userId = user := by
      intro x hx
      obtain ⟨hmem, rfl⟩ := mem_attached.1 hx
      obtain ⟨e, he, hid⟩ := hown
      obtain ⟨huser, hid⟩ := Entry.isOwn_iff.1 hid
      have he : e ∈ u.store.entries.rows := by
        rw [putEnclosures_frame hput]
        exact he
      have hentry : u.store.HasEntryOf x.userId e.id := hid ▸ howned.steps hsteps x hmem
      exact (hentry.userId_eq (hs.steps hsteps) he).symm.trans huser
    refine htakes.inLine (hs.steps hev.store) ?_ hothers rfl
    rw [attached_removeStaleEnclosures howner, hlists.urls]

/-- An entry that is created has from the start what its candidate offers. -/
theorem inLine_createEntry (hs : s.store.Integrity) (hnew : c.hash ∉ s.store.hashes feed)
    (h : (createEntry user feed c).perform s = (.ok v, t)) :
    s.store.attached v.id = [] ∧ InLine user v.id c.enclosures s.store t.store := by
  have hitem : s.store.item? feed c.hash = none := by
    rw [← Option.not_isSome_iff_eq_none, item?_isSome]
    exact hnew
  have ht : t.store.Integrity :=
    hs.steps ((evolves_createEntry hitem).of_perform h).store
  have hsettles : Settles user feed false c s t (some v) := (createEntry_settles hs hnew h).2.2
  have hid : v.id = s.store.entries.lastId + 1 := by
    cases hsettles with
    | new _ _ hid _ _ => exact hid
  unfold createEntry at h
  obtain ⟨i, u, hwrite, hrest⟩ := of_perform_bind (of_perform_now_bind h)
  obtain ⟨store, hadd, rfl⟩ := of_perform_write hwrite
  obtain ⟨xs, w, hput, hrest⟩ := of_perform_bind hrest
  obtain ⟨view, w', hfetch, hlast⟩ := of_perform_bind hrest
  obtain ⟨rfl, -⟩ := of_perform_fetchEntry hfetch
  cases hlast
  have hint : store.Integrity := hs.addEntry hitem hadd
  obtain ⟨-, -, rfl, rfl⟩ := of_addEntry hadd
  have hnone : s.store.attached (s.store.entries.lastId + 1) = [] :=
    attached_eq_nil hs (Int.lt_add_one_of_le le_rfl)
  obtain ⟨htakes, -⟩ := takes_putEnclosures hput hint (.start user _ _) (.start _ _)
  rw [hid]
  -- the new row is no enclosure, so it makes no difference that the offers come after it
  refine ⟨hnone, InLine.congr (htakes.inLine ht ?_
    (fun other hne => attached_putEnclosures_of_ne hput hne) rfl) rfl⟩
  refine (List.filter_eq_self.2 fun y hy => ?_).symm
  have hmem : y.url ∈ t.store.urls (s.store.entries.lastId + 1) := List.mem_map_of_mem hy
  rw [htakes.urls] at hmem
  rcases List.mem_append.1 hmem with hmem | hmem
  · have hmem : y.url ∈ s.store.urls (s.store.entries.lastId + 1) := hmem
    rw [Store.urls, hnone] at hmem
    cases hmem
  · simpa using (List.mem_filter.1 hmem).1

/-- An update brings the entry of the user in line, if there is an address on offer. -/
theorem inLine_updateEntry (hs : s.store.Integrity) (howned : s.store.EnclosuresOwned) {e : Entry}
    (he : e ∈ s.store.entries.rows) (hown : e.userId = user) (hitem : e.isItem feed c.hash = true)
    (h : (updateEntry user feed c).perform s = (.ok (), t)) :
    (addresses c.enclosures = [] → t.store.enclosures = s.store.enclosures)
      ∧ (addresses c.enclosures ≠ [] → InLine user e.id c.enclosures s.store t.store) := by
  unfold updateEntry at h
  obtain ⟨id, u, hchange, hrest⟩ := of_perform_bind (of_perform_now_bind h)
  obtain ⟨hid, rfl⟩ := of_perform_change hchange
  cases id with
  | none => cases hrest
  | some i =>
      obtain ⟨e₀, he₀, rfl, hitem₀⟩ := of_refreshEntry hid.symm
      obtain rfl : e₀ = e := hs.items.eq_of_eq he₀ he (by
        obtain ⟨hfeed, hhash⟩ := Entry.isItem_iff.1 hitem
        obtain ⟨hfeed₀, hhash₀⟩ := Entry.isItem_iff.1 hitem₀
        rw [hfeed, hhash, hfeed₀, hhash₀])
      have hstep : s.store.Step s.now (s.store.refreshEntry user feed c s.now).2 :=
        .refreshEntry user feed c
      have hrow : (s.store.refreshEntry user feed c s.now).2.HasEntryOf user e₀.id :=
        HasEntryOf.modify ⟨e₀, he, Entry.isOwn_iff.2 ⟨hown, rfl⟩⟩ (fun _ => rfl) fun _ => rfl
      obtain ⟨hnone, hline⟩ :=
        inLine_updateEnclosures (hs.step hstep) (howned.step hstep) hrow hrest
      refine ⟨fun h => by rw [hnone h]; rfl, fun h => ?_⟩
      exact (hline h).congr rfl

/-- A refresh with one more candidate is the refresh without it and then that candidate. -/
theorem perform_refreshFeed_concat {r u : Session} {front : List Candidate}
    {made : List EntryView} {x : Option EntryView}
    (hfront : (refreshFeed user feed front update).perform r = (.ok made, u)) (hu : u.Ready)
    (h : (reconcile user feed update c).perform u = (.ok x, t)) :
    ∃ t', (refreshFeed user feed (front ++ [c]) update).perform r = (.ok (made ++ x.toList), t')
      ∧ t'.store = t.store := by
  obtain ⟨w, hw, rfl⟩ := perform_refreshFeed_ok_iff.1 hfront
  rw [DisregardsJobs.reconcile] at h
  cases hrec : (reconcile user feed update c).perform w with
  | mk y v =>
      rw [hrec] at h
      cases h
      refine ⟨_, perform_refreshFeed_ok_iff.2 ⟨v, ?_, rfl⟩, rfl⟩
      have hopen : w.access.isOpen = true := by rw [show w.access = {} from hu]
      rw [reconcileAll_append, perform_bind, hw]
      dsimp only
      rw [perform_bind, perform_reconcileAll_singleton, perform_transaction, if_pos hopen, hrec]
      rfl

end Action

open FeedStore.Action in
/-- Wherever it stands in a batch, a candidate that becomes an entry gives it the enclosures that
it offers, and one that updates an entry of the user brings the enclosures of that entry in line
with what it offers, unless it offers no address: then no enclosure changes. -/
theorem Reachable.bringsInLine {r u : Session} {user feed : Id} {update : Bool}
    {front : List Candidate} {made : List EntryView} (hr : Reachable r)
    (hfront : (refreshFeed user feed front update).perform r = (.ok made, u)) (c : Candidate) :
    (u.store.hasUser user = true → u.store.hasFeed feed = true →
        c.hash ∉ u.store.hashes feed →
      ∃ v t, (refreshFeed user feed (front ++ [c]) update).perform r = (.ok (made ++ [v]), t)
        ∧ u.store.attached v.id = [] ∧ t.store.attached v.id = v.enclosures
        ∧ InLine user v.id c.enclosures u.store t.store)
      ∧ (update = true → ∀ e ∈ u.store.entries.rows,
        e.userId = user → e.feedId = feed → e.hash = c.hash →
      ∃ t, (refreshFeed user feed (front ++ [c]) update).perform r = (.ok made, t)
        ∧ (addresses c.enclosures ≠ [] → InLine user e.id c.enclosures u.store t.store)
        ∧ (addresses c.enclosures = [] → t.store.enclosures = u.store.enclosures)) := by
  have hu : Reachable u := reachable_of_refreshFeed hr hfront
  constructor
  · intro huser hfeed hnew
    obtain ⟨v, t, hcreate⟩ :=
      exists_perform_createEntry hu.ready hu.integrity hu.readable huser hfeed hnew
    obtain ⟨t', hwhole, hstore⟩ := perform_refreshFeed_concat hfront hu.ready
      (perform_reconcile_of_new hu.ready hnew hcreate)
    obtain ⟨hnone, hline⟩ := inLine_createEntry hu.integrity hnew hcreate
    refine ⟨v, t', hwhole, hnone, ?_, hstore ▸ hline⟩
    rw [hstore]
    exact (attached_createEntry hu.integrity hnew hcreate).symm
  · rintro rfl e he hown hfeed hhash
    have hitem : e.isItem feed c.hash = true := Entry.isItem_iff.2 ⟨hfeed, hhash⟩
    have hexists : u.store.hasUser user = true := hown ▸ hu.integrity.entryUser e he
    obtain ⟨t, hupdate⟩ := exists_perform_updateEntry hu.ready hexists he hown hitem
    have hmem : c.hash ∈ u.store.hashes feed := mem_hashes.2 ⟨e, he, hfeed, hhash⟩
    obtain ⟨t', hwhole, hstore⟩ := perform_refreshFeed_concat hfront hu.ready
      (perform_reconcile_of_known hu.ready hmem hupdate)
    obtain ⟨hnone, hline⟩ :=
      inLine_updateEntry hu.integrity hu.enclosuresOwned he hown hitem hupdate
    refine ⟨t', ?_, fun h => hstore ▸ hline h, fun h => hstore ▸ hnone h⟩
    rw [hwhole, Option.toList_none, List.append_nil]

/-- What the same candidate offers later: one address as before, one no longer and one anew. -/
def Candidate.offeringAnew : Candidate :=
  { Candidate.bare "a" 1 with
    enclosures := [⟨"z", "audio", 4⟩, ⟨"  ", "audio", 5⟩, ⟨"y ", "video", 6⟩] }

/-- An entry is created with two enclosures, by three offers. Later it has lost the first one, the
second one has kept its row, and the new one has got an identifier that no other has had. -/
theorem Reachable.bringsInLine_offering :
    ∃ v u t, (Action.refreshFeed 1 1 [.offering] true).perform .subscribed = (.ok [v], u)
      ∧ InLine 1 v.id Candidate.offering.enclosures Session.subscribed.store u.store
      ∧ (Action.refreshFeed 1 1 [.offering, .offeringAnew] true).perform .subscribed
          = (.ok [v], t)
      ∧ InLine 1 v.id Candidate.offeringAnew.enclosures u.store t.store
      ∧ (t.store.attached v.id).map (fun x => (x.id, x.url, x.mimeType))
          = [(2, "y", "video"), (4, "z", "audio")] := by
  obtain ⟨v, u, hfirst, hrow⟩ : ∃ v u,
      (Action.refreshFeed 1 1 [.offering] true).perform .subscribed = (.ok [v], u)
        ∧ ∃ e ∈ u.store.entries.rows, e.id = v.id ∧ e.userId = 1 ∧ e.feedId = 1 ∧ e.hash = "a" :=
    ⟨_, _, by rfl, _, List.mem_singleton_self _, by rfl, by rfl, by rfl, by rfl⟩
  obtain ⟨t, hsecond, hstored⟩ : ∃ t,
      (Action.refreshFeed 1 1 [.offering, .offeringAnew] true).perform .subscribed = (.ok [v], t)
        ∧ (t.store.attached v.id).map (fun x => (x.id, x.url, x.mimeType))
          = [(2, "y", "video"), (4, "z", "audio")] := by
    cases hfirst
    exact ⟨_, by rfl, by rfl⟩
  have hnothing : (Action.refreshFeed 1 1 [] true).perform .subscribed
      = (.ok [], { Session.subscribed with jobs := [{ work := .sweep 1 [] }] }) := rfl
  obtain ⟨v', u', hcreate, -, -, hcreated⟩ :=
    (Reachable.subscribed.bringsInLine hnothing .offering).1 (by decide) (by decide) (by decide)
  cases hfirst.symm.trans hcreate
  obtain ⟨e, he, hid, huser, hfeed, hhash⟩ := hrow
  obtain ⟨t', hupdate, hupdated, -⟩ :=
    (Reachable.subscribed.bringsInLine hfirst .offeringAnew).2 rfl e he huser hfeed hhash
  cases hsecond.symm.trans hupdate
  exact ⟨v, u, t, hfirst, hcreated, hsecond, hid ▸ hupdated (by decide), hstored⟩

end FeedStore

import FeedStore.Proofs.Pagination
import FeedStore.Proofs.Parts
import FeedStore.Proofs.Progress
import FeedStore.Proofs.TagFilter

/-!
# Which tags find their entries

A tag is stored as the literal of it and compared with its ASCII letters folded, but a filter looks
for its lower case, in all of Unicode and without escapes. So an entry is found by its own tag when
these two come to the same (`SoughtAsStored`). Otherwise it may be missed: a tag without `%` and
`U+0000` always finds its entries only if they do (`finds_own_tags`).
-/

namespace FeedStore

open Text

namespace Text

open Lowercase

namespace Lowercase

/-! ## Lower case leaves punctuation alone -/

/-- What the table maps comes to lie behind the capital letters, and is a character. None of it looks
like another character. -/
theorem of_mem_mappings {m : Nat × Nat × Nat × Int} (h : m ∈ mappings) :
    0x61 ≤ (m.1 : Int) + m.2.2.2
      ∧ ((m.2.1 : Int) + m.2.2.2 < 0xd800
        ∨ 0xdfff < (m.1 : Int) + m.2.2.2 ∧ (m.2.1 : Int) + m.2.2.2 < 0x110000)
      ∧ (m.2.1 < 0xfffd ∨ 0xffff < m.1) := by
  have hall : mappings.all (fun m => 0x61 ≤ (m.1 : Int) + m.2.2.2
      ∧ ((m.2.1 : Int) + m.2.2.2 < 0xd800
        ∨ 0xdfff < (m.1 : Int) + m.2.2.2 ∧ (m.2.1 : Int) + m.2.2.2 < 0x110000)
      ∧ (m.2.1 < 0xfffd ∨ 0xffff < m.1)) = true := by
    decide +kernel
  exact of_decide_eq_true (Array.all_eq_true'.1 hall m h)

theorem tableLower_cases (c : Char) : tableLower c = c
    ∨ 0x61 ≤ (tableLower c).toNat ∧ (c.toNat < 0xfffd ∨ 0xffff < c.toNat) := by
  unfold tableLower
  split
  · rename_i m hm
    right
    obtain ⟨hlow, hvalid, hdistinct⟩ := of_mem_mappings (Array.mem_of_find?_eq_some hm)
    have hrange := Array.find?_some hm
    simp only [Bool.and_eq_true, decide_eq_true_eq, beq_iff_eq] at hrange
    refine ⟨?_, by omega⟩
    have hchar : ((c.toNat : Int) + m.2.2.2).toNat.isValidChar := by
      unfold Nat.isValidChar
      omega
    rw [Char.ofNat, dif_pos hchar]
    show 0x61 ≤ ((c.toNat : Int) + m.2.2.2).toNat
    omega
  · exact Or.inl rfl

/-- What stands for a character in the lower case of a text. -/
def lowerOne (before : List Char) (c : Char) (cs : List Char) : List Char :=
  if c = 'Σ' then [if startsCased before && !startsCased cs then 'ς' else 'σ'] else lowerChar c

theorem lowerFrom_cons (before : List Char) (c : Char) (cs : List Char) :
    lowerFrom before (c :: cs) = lowerOne before c cs ++ lowerFrom (c :: before) cs := rfl

variable {before cs : List Char} {c d : Char}

theorem lowerOne_of_ascii (h : c.toNat < 0x80) : lowerOne before c cs = [fold c] := by
  have hsigma : c ≠ 'Σ' := by
    rintro rfl
    revert h
    decide
  rw [lowerOne, if_neg hsigma, lowerChar_of_ascii h]

/-- The lower case of a character begins with another one only from the small letters on, and only if no
other character looks like it. -/
theorem lowerOne_cases (before : List Char) (c : Char) (cs : List Char) :
    lowerOne before c cs = [fold c]
      ∨ ∃ x xs, lowerOne before c cs = x :: xs ∧ 0x80 ≤ c.toNat
        ∧ (c.toNat < 0xfffd ∨ 0xffff < c.toNat) ∧ x ≠ c ∧ ∀ d ∈ x :: xs, 0x61 ≤ d.toNat := by
  by_cases hascii : c.toNat < 0x80
  · exact Or.inl (lowerOne_of_ascii hascii)
  · have hfold : fold c = c := fold_eq_self (by omega)
    unfold lowerOne
    split
    · rename_i hsigma
      subst hsigma
      right
      split
      · exact ⟨'ς', [], rfl, by decide, by decide, by decide,
          List.forall_mem_singleton.2 (by decide)⟩
      · exact ⟨'σ', [], rfl, by decide, by decide, by decide,
          List.forall_mem_singleton.2 (by decide)⟩
    · unfold lowerChar
      rw [if_neg hascii]
      split
      · rename_i hdot
        subst hdot
        exact Or.inr ⟨'i', ['\u0307'], rfl, by decide, by decide, by decide,
          List.all_iff_forall_prop.1 (by decide)⟩
      · by_cases hsame : tableLower c = c
        · exact Or.inl (by rw [hsame, hfold])
        · obtain ⟨hsmall, hdistinct⟩ := (tableLower_cases c).resolve_left hsame
          exact Or.inr ⟨tableLower c, [], rfl, Nat.not_lt.1 hascii, hdistinct, hsame,
            List.forall_mem_singleton.2 hsmall⟩

/-- Only the character itself becomes one that is no letter and comes before the small ones. -/
theorem eq_of_mem_lowerOne (hd : d.toNat < 65 ∨ 90 < d.toNat ∧ d.toNat < 0x61)
    (h : d ∈ lowerOne before c cs) : c = d := by
  rcases lowerOne_cases before c cs with heq | ⟨x, xs, heq, -, -, -, hsmall⟩
  · rw [heq, List.mem_singleton] at h
    exact (fold_eq_iff (by omega) (by omega)).1 h.symm
  · have hle := hsmall d (heq ▸ h)
    omega

theorem mem_of_mem_lowerFrom (hd : d.toNat < 65 ∨ 90 < d.toNat ∧ d.toNat < 0x61)
    (h : d ∈ lowerFrom before cs) : d ∈ cs := by
  induction cs generalizing before with
  | nil => cases h
  | cons c cs ih =>
      rw [lowerFrom_cons] at h
      rcases List.mem_append.1 h with h | h
      · exact List.mem_cons.2 (Or.inl (eq_of_mem_lowerOne hd h).symm)
      · exact List.mem_cons_of_mem c (ih h)

theorem count_quote_le_lowerFrom (before cs : List Char) :
    cs.count '"' ≤ (lowerFrom before cs).count '"' := by
  induction cs generalizing before with
  | nil => exact le_rfl
  | cons c cs ih =>
      have hrest := ih (c :: before)
      rw [lowerFrom_cons, List.count_append]
      by_cases hc : c = '"'
      · subst hc
        have hone : lowerOne before '"' cs = ['"'] := lowerOne_of_ascii (by decide)
        rw [hone, List.count_cons_self, List.count_singleton_self]
        omega
      · rw [List.count_cons_of_ne hc]
        omega

end Lowercase

/-! ## The form in which a tag is sought -/

/-- A tag is sought as it is stored: its lower case is the tag with its ASCII letters folded, and it
needs no escapes. -/
def SoughtAsStored (t : String) : Prop :=
  (lowercase t).toList = foldChars t.toList ∧ ∀ c ∈ t.toList, Json.IsPlain c

namespace Wildcard

variable {p q cs ds before : List Char} {c d x : Char}

/-- A quote is taken by a quote only. -/
theorem accepts_quote_iff : accepts '"' c = true ↔ c = '"' := by
  have hquote : fold '"' = '"' := by decide
  rw [accepts_iff, seen_eq_seen_iff (Or.inl (by decide)), hquote, eq_comm (a := '"'),
    eq_comm (a := '"'), fold_eq_iff (Or.inl (by decide)) (Or.inl (by decide))]
  simp

/-- What takes a backslash or `_` is one of them. -/
theorem eq_of_accepts_shift (hd : d = '\\' ∨ d = '_') (h : accepts x d = true) :
    x = '\\' ∨ x = '_' := by
  have hbounds : 90 < d.toNat ∧ d.toNat < 97 := by
    rcases hd with rfl | rfl
    · decide
    · decide
  have hfold : fold d = d := fold_eq_self (by omega)
  rw [accepts_iff, eq_comm (a := seen x), seen_eq_seen_iff (Or.inl (by omega)), hfold,
    eq_comm (a := d), fold_eq_iff (Or.inr hbounds.1) (Or.inl hbounds.2)] at h
  rcases h with rfl | rfl
  · exact Or.inr rfl
  · exact hd

/-- Both are sought as they are, and what is stored for them is made of them. -/
theorem shift_of_mem_lowerOne (hx : x = '\\' ∨ x = '_') (h : x ∈ lowerOne before c cs) :
    c = x ∧ lowerOne before x cs = [x] ∧ foldChars (Json.encodeChar x) ≠ []
      ∧ ∀ e ∈ foldChars (Json.encodeChar x), e = '\\' ∨ e = '_' := by
  rcases hx with rfl | rfl
  · exact ⟨eq_of_mem_lowerOne (by decide) h, lowerOne_of_ascii (by decide), by decide,
      List.all_iff_forall_prop.1 (by decide)⟩
  · exact ⟨eq_of_mem_lowerOne (by decide) h, lowerOne_of_ascii (by decide), by decide,
      List.all_iff_forall_prop.1 (by decide)⟩

/-- Behind a shift to the right nothing fits any more: only a backslash or `_` takes what has been
shifted in, and each of them shifts in as much again. -/
theorem not_takes_shifted (hds : ds ≠ []) (hshift : ∀ d ∈ ds, d = '\\' ∨ d = '_') :
    ¬ Takes (lowerFrom before cs) (ds ++ foldChars (Json.encodeChars cs)) := by
  induction cs generalizing before ds with
  | nil =>
      obtain ⟨d, ds, rfl⟩ := List.exists_cons_of_ne_nil hds
      intro h
      cases h
  | cons c cs ih =>
      obtain ⟨d, ds, rfl⟩ := List.exists_cons_of_ne_nil hds
      rw [List.forall_mem_cons] at hshift
      obtain ⟨x, xs, hone⟩ : ∃ x xs, lowerOne before c cs = x :: xs := by
        rcases lowerOne_cases before c cs with heq | ⟨x, xs, heq, -⟩
        · exact ⟨fold c, [], heq⟩
        · exact ⟨x, xs, heq⟩
      rw [lowerFrom_cons, hone, Json.encodeChars_cons, foldChars_append]
      intro h
      cases h with
      | cons hx hrest =>
          obtain ⟨rfl, hself, hne, henc⟩ :=
            shift_of_mem_lowerOne (eq_of_accepts_shift hshift.1 hx) (hone ▸ List.mem_cons_self)
          obtain rfl : xs = [] := (List.cons.inj (hone.symm.trans hself)).2
          refine ih (List.append_ne_nil_of_right_ne_nil ds hne) (fun e he => ?_)
            (by rw [List.append_assoc]; exact hrest)
          exact (List.mem_append.1 he).elim (hshift.2 e) (henc e)

/-- A lower case that fits what is stored is that, without escapes. -/
theorem eq_of_takes (h : Takes (lowerFrom before cs) (foldChars (Json.encodeChars cs))) :
    lowerFrom before cs = foldChars cs ∧ ∀ c ∈ cs, Json.IsPlain c := by
  induction cs generalizing before with
  | nil => exact ⟨rfl, fun c hc => by cases hc⟩
  | cons c cs ih =>
      rw [lowerFrom_cons, Json.encodeChars_cons, foldChars_append] at h
      by_cases hplain : Json.IsPlain c
      · rw [Json.encodeChar_of_isPlain hplain] at h
        rcases lowerOne_cases before c cs with hone | ⟨x, xs, hone, hc, hdistinct, hne, hsmall⟩
        · rw [hone] at h
          cases h with
          | cons _ hrest =>
              obtain ⟨heq, hall⟩ := ih hrest
              refine ⟨?_, List.forall_mem_cons.2 ⟨hplain, hall⟩⟩
              rw [lowerFrom_cons, hone, heq]
              rfl
        · -- a character that is stored as it is does not fit a lower case of its own
          rw [hone] at h
          have hfold : fold c = c := fold_eq_self (by omega)
          cases h with
          | cons hx _ =>
              rw [accepts_iff, hfold, eq_comm (a := seen x), seen_eq_seen_iff hdistinct, hfold,
                eq_comm (a := c), fold_eq_iff (Or.inr (by omega)) (Or.inr (by omega))] at hx
              rcases hx with rfl | rfl
              · exact absurd (hsmall '_' List.mem_cons_self) (by decide)
              · exact absurd rfl hne
      · obtain ⟨d, ds, henc⟩ := Json.encodeChar_of_not_isPlain hplain
        have hascii : c.toNat < 0x80 := by
          by_contra hlarge
          refine hplain ⟨?_, ?_, by omega⟩
          · rintro rfl
            exact hlarge (by decide)
          · rintro rfl
            exact hlarge (by decide)
        rw [lowerOne_of_ascii hascii, henc] at h
        cases h with
        | cons hx hrest =>
            have hbackslash : fold '\\' = '\\' := by decide
            rw [hbackslash] at hx
            rcases eq_of_accepts_shift (Or.inl rfl) hx with hc | hc
            · obtain rfl := (fold_eq_iff (Or.inr (by decide)) (Or.inl (by decide))).1 hc
              obtain ⟨rfl, rfl⟩ : d = '\\' ∧ ds = [] := by
                simpa [Json.encodeChar] using henc.symm
              exact absurd hrest
                (not_takes_shifted (List.cons_ne_nil '\\' [])
                  (List.forall_mem_singleton.2 (Or.inl rfl)))
            · obtain rfl := (fold_eq_iff (Or.inr (by decide)) (Or.inl (by decide))).1 hc
              exact absurd (by decide) hplain

/-! ### Quotes are taken by quotes -/

theorem count_quote_le_of_takes (h : Takes p cs) : p.count '"' ≤ cs.count '"' := by
  induction h with
  | nil => exact le_rfl
  | @cons d c p cs hx _ ih =>
      by_cases hd : d = '"'
      · subst hd
        obtain rfl := accepts_quote_iff.1 hx
        rw [List.count_cons_self, List.count_cons_self]
        exact Nat.succ_le_succ ih
      · rw [List.count_cons_of_ne hd]
        exact ih.trans List.count_le_count_cons

theorem exists_of_takes_append (h : Takes (p ++ q) cs) :
    ∃ as bs, cs = as ++ bs ∧ Takes p as ∧ Takes q bs := by
  induction p generalizing cs with
  | nil => exact ⟨[], cs, rfl, .nil, h⟩
  | cons d p ih =>
      cases h with
      | @cons _ c _ cs hx hrest =>
          obtain ⟨as, bs, rfl, hp, hq⟩ := ih hrest
          exact ⟨c :: as, bs, rfl, .cons hx hp, hq⟩

theorem count_quote_encodeChars (cs : List Char) :
    (Json.encodeChars cs).count '"' = cs.count '"' := by
  induction cs with
  | nil => rfl
  | cons c cs ih =>
      rw [Json.encodeChars_cons, List.count_append, ih]
      by_cases hc : c = '"'
      · subst hc
        have hone : (Json.encodeChar '"').count '"' = 1 := by decide
        rw [hone, List.count_cons_self, Nat.add_comm]
      · have hnone : '"' ∉ Json.encodeChar c := by
          have hsingle := @Json.quote_not_mem_encodeChars [c]
          simpa [Json.encodeChars, Ne.symm hc] using hsingle
        rw [List.count_eq_zero.2 hnone, List.count_cons_of_ne hc, Nat.zero_add]

theorem count_quote_foldChars (cs : List Char) : (foldChars cs).count '"' = cs.count '"' := by
  unfold foldChars List.count
  rw [List.countP_map]
  refine List.countP_congr fun c _ => ?_
  rw [Function.comp_apply, beq_iff_eq, beq_iff_eq,
    fold_eq_iff (Or.inl (by decide)) (Or.inl (by decide))]

/-- With no more quotes in a literal than in a pattern between quotes, the pattern can only stand
for the whole literal. -/
theorem takes_of_within {literal mid : List Char} (hcount : literal.count '"' ≤ p.count '"')
    (h : Takes ('"' :: (p ++ ['"'])) mid)
    (hmid : mid <:+: '[' :: '"' :: (literal ++ ['"', ']'])) : Takes p literal := by
  obtain ⟨front, back, htext⟩ := hmid
  have hquotes := count_quote_le_of_takes h
  have hall : front.count '"' + mid.count '"' + back.count '"' = literal.count '"' + 2 := by
    rw [← List.count_append, ← List.count_append, htext]
    simp
  simp only [List.count_cons_self, List.count_append, List.count_nil] at hquotes
  have hfront : '"' ∉ front := List.count_eq_zero.1 (by omega)
  have hback : '"' ∉ back := List.count_eq_zero.1 (by omega)
  cases h with
  | @cons _ c _ mid hx hrest =>
      obtain rfl := accepts_quote_iff.1 hx
      obtain ⟨as, bs, rfl, hp, hlast⟩ := exists_of_takes_append hrest
      obtain ⟨e, rfl, he⟩ : ∃ e, bs = [e] ∧ accepts '"' e = true := by
        cases hlast with
        | cons he hnil =>
            cases hnil
            exact ⟨_, rfl, he⟩
      obtain rfl := accepts_quote_iff.1 he
      have hsplit : front ++ '"' :: (as ++ '"' :: back)
          = ['['] ++ '"' :: (literal ++ '"' :: [']']) := by
        simpa using htext
      obtain ⟨-, hsplit⟩ := Json.TextArray.append_quote_inj hfront (by decide) hsplit
      -- the last quote can be told in the same way, from the end
      have hrev : back.reverse ++ '"' :: as.reverse = [']'] ++ '"' :: literal.reverse := by
        simpa using congrArg List.reverse hsplit
      have hback : '"' ∉ back.reverse := by rwa [List.mem_reverse]
      obtain ⟨-, hwhole⟩ := Json.TextArray.append_quote_inj hback (by decide) hrev
      rwa [List.reverse_inj.1 hwhole] at hp

end Wildcard

end Text

namespace Condition

variable {t t' : String}

theorem nul_not_mem_lowercase (h : '\x00' ∉ t.toList) : '\x00' ∉ (lowercase t).toList := by
  rw [lowercase, String.toList_ofList]
  exact fun hmem => h (Lowercase.mem_of_mem_lowerFrom (Or.inl (by decide)) hmem)

/-- A tag that is sought as it is stored is found among stored tags, and so is every tag with the
same lower case. -/
theorem hasTag_of_mem (ht : SoughtAsStored t) (hcase : lowercase t' = lowercase t)
    {tags : List String} (hmem : t ∈ tags) : hasTag t' (Json.TextArray.encode tags) = true := by
  obtain ⟨hlower, hplain⟩ := ht
  have hnul : '\x00' ∉ t.toList := fun h => absurd (hplain _ h) (by decide)
  have hstored : Json.encodeChars (folded t).toList = foldChars t.toList := by
    rw [toList_folded, ← Json.foldChars_encodeChars, Json.encodeChars_of_plain hplain]
  rw [hasTag_encode (by rw [hcase]; exact nul_not_mem_lowercase hnul), hcase, hlower, ← hstored]
  exact Wildcard.matches_within (.refl _)
    (Json.TextArray.quoted_encodeChars_of_mem (List.mem_map_of_mem hmem))

/-- A tag that is found where nothing else is stored is sought as it is stored. -/
theorem soughtAsStored_of_hasTag (hpercent : '%' ∉ t.toList) (hnul : '\x00' ∉ t.toList)
    (h : hasTag t (Json.TextArray.encode [t]) = true) : SoughtAsStored t := by
  have hlower : (lowercase t).toList = Lowercase.lowerFrom [] t.toList := by
    rw [lowercase, String.toList_ofList]
  have hno : '%' ∉ Lowercase.lowerFrom [] t.toList := fun hmem =>
    hpercent (Lowercase.mem_of_mem_lowerFrom (Or.inl (by decide)) hmem)
  rw [hasTag_encode (nul_not_mem_lowercase hnul), hlower] at h
  obtain ⟨mid, hmid, htaken⟩ := Wildcard.exists_of_matches_within (by simp [hno]) h
  have hstored : (Json.TextArray.encode ([t].map folded)).toList
      = '[' :: '"' :: (foldChars (Json.encodeChars t.toList) ++ ['"', ']']) := by
    rw [List.map_singleton, Json.TextArray.toList_encode, Json.TextArray.body_singleton,
      toList_folded, Json.foldChars_encodeChars]
    simp
  have hcount : (foldChars (Json.encodeChars t.toList)).count '"'
      ≤ (Lowercase.lowerFrom [] t.toList).count '"' := by
    rw [Wildcard.count_quote_foldChars, Wildcard.count_quote_encodeChars]
    exact Lowercase.count_quote_le_lowerFrom [] t.toList
  obtain ⟨heq, hplain⟩ := Wildcard.eq_of_takes
    (Wildcard.takes_of_within hcount htaken (hstored ▸ hmid))
  exact ⟨hlower.trans heq, hplain⟩

theorem isTooLong_tag_of_lowercase_eq (hcase : lowercase t' = lowercase t) :
    (tag t').isTooLong = (tag t).isTooLong := by
  have hpattern : tagPattern t' = tagPattern t := by rw [tagPattern, tagPattern, hcase]
  rw [isTooLong, isTooLong, hpattern]

end Condition

/-! ## What finds an entry -/

/-- The tag is one of the tags of the entry. -/
def Entry.Carries (e : Entry) (t : String) : Prop :=
  ∃ tags, Json.TextArray.decode? e.tags = some tags ∧ t ∈ tags

/-- Of what is found before and after an anchor, what is found on this side. -/
def Side.pick {α : Type} (side : Side) (before after : α) : α :=
  match side with
  | .before => before
  | .after => after

/-- The entry is found by the tag. A query for the tag shows it. Unless it is removed, it is among
what is found on its side of any anchor when its user goes along the entries with the tag, and its
user, standing at another entry, is led to it or to one that is nearer. -/
structure Session.Finds (s : Session) (e : Entry) (t : String) : Prop where
  listed : ∃ ls, Query.Answers e.userId [.filter (.tags [t])] s ls
    ∧ Query.window [.filter (.tags [t])] ls = ls ∧ ∃ l ∈ ls, l.entry = e
  matched : e.status ≠ .known .removed → ∀ anchor tl d side time,
    (Trail.filtered e.userId anchor tl d [.tags [t]]).liesOn side time e = true →
      ∃ ls, (Trail.filtered e.userId anchor tl d [.tags [t]]).found side time s.store = .ok ls
        ∧ ∃ l ∈ ls, l.entry = e
  met : e.status ≠ .known .removed → ∀ a ∈ s.store.entries.rows, a.userId = e.userId →
    ∀ tl d side, tl.LiesOn side a e → ∃ before after, ∃ m ∈ s.store.listed,
      (Action.neighbours (Trail.filtered e.userId a.id tl d [.tags [t]])).perform s
          = (.ok (d.arrange before after), s)
        ∧ side.pick before after = some m.sibling ∧ tl.Nearer side m.entry e

/-- In every reachable session the tag finds the entries that carry it, in whatever case its letters
are given. -/
def FindsOwn (t : String) : Prop :=
  ∀ s, Reachable s → ∀ e ∈ s.store.entries.rows, e.Carries t →
    ∀ t', lowercase t' = lowercase t → s.Finds e t'

namespace Trail

variable {s : Store} {t : String}

theorem withinLimits_filtered_tag (user anchor : Id) (tl : Timeline) (d : Direction)
    (hshort : (Condition.tag t).isTooLong = false) :
    (filtered user anchor tl d [.tags [t]]).WithinLimits := by
  rw [filtered_eq]
  exact ⟨of_decide_eq_true rfl, of_decide_eq_true rfl, List.forall_mem_singleton.2 hshort⟩

theorem mem_matching_filtered_tag (anchor : Id) (tl : Timeline) (d : Direction) {l : Listed}
    (hl : l ∈ s.listed) (hstatus : l.entry.status ≠ .known .removed)
    (h : Condition.hasTag t l.entry.tags = true) :
    l ∈ (filtered l.entry.userId anchor tl d [.tags [t]]).matching s := by
  rw [filtered_eq, mem_matching]
  refine ⟨hl, List.forall_mem_cons.2 ⟨beq_self_eq_true _, List.forall_mem_cons.2 ⟨?_, ?_⟩⟩⟩
  · exact bne_iff_ne.2 hstatus
  · exact List.forall_mem_singleton.2 h

end Trail

/-- The query for a tag shows the entries whose stored tags match. -/
theorem Query.exists_sorted_tag_iff {s : Store} (hs : s.Integrity) {e : Entry}
    (he : e ∈ s.entries.rows) (t : String) :
    (∃ l ∈ (Query.built e.userId [.filter (.tags [t])]).sorted s, l.entry = e)
      ↔ Condition.hasTag t e.tags = true := by
  have hadmits : (Addition.filter (.tags [t])).Admits s e ↔ Condition.hasTag t e.tags = true :=
    List.forall_mem_singleton.trans Wildcard.matchText_iff.symm
  rw [(denotes_sorted hs e.userId [.filter (.tags [t])]).mem_iff e, List.forall_mem_singleton,
    hadmits]
  exact ⟨fun h => h.2.2, fun h => ⟨he, rfl, h⟩⟩

theorem Query.withinLimits_tag (user : Id) {t : String}
    (hshort : (Condition.tag t).isTooLong = false) :
    (Query.built user [.filter (.tags [t])]).WithinLimits :=
  withinLimits_tags (List.forall_mem_singleton.2 hshort) (of_decide_eq_true rfl)

namespace Reachable

variable {s : Session} {e : Entry} {t : String}

/-- An entry whose stored tags match is found. -/
theorem finds (hs : Reachable s) (he : e ∈ s.store.entries.rows)
    (hshort : (Condition.tag t).isTooLong = false) (h : Condition.hasTag t e.tags = true) :
    s.Finds e t := by
  obtain ⟨l, hl, rfl⟩ := hs.integrity.exists_listed he
  constructor
  · exact ⟨_, Query.answers_sorted hs (Query.withinLimits_tag _ hshort), Query.window_tags _,
      (Query.exists_sorted_tag_iff hs.integrity he t).2 h⟩
  · intro hstatus anchor tl d side time hside
    have hlimits := Trail.withinLimits_filtered_tag l.entry.userId anchor tl d hshort
    refine ⟨_, Trail.found_eq hlimits.patterns side time s.store, l, ?_, rfl⟩
    exact List.mem_filter.2 ⟨Trail.mem_matching_filtered_tag anchor tl d hl hstatus h, hside⟩
  · intro hstatus a ha huser tl d side hside
    obtain ⟨la, hla, rfl⟩ := hs.integrity.exists_listed ha
    have htrail : Trail.filtered l.entry.userId la.entry.id tl d [.tags [t]]
        = { user := l.entry.userId, anchor := la.entry.id, timeline := tl, direction := d,
            conditions := [.tag t] } := Trail.filtered_eq
    have hlimits := Trail.withinLimits_filtered_tag l.entry.userId la.entry.id tl d hshort
    have hmatch := Trail.mem_matching_filtered_tag la.entry.id tl d hl hstatus h
    rw [htrail] at hlimits hmatch ⊢
    obtain ⟨m, hm, hnearest, hnearer⟩ := Trail.exists_nearestTo hmatch hside
    refine ⟨_, _, m, (Trail.mem_matching.1 hm).1,
      Action.perform_neighbours_of_listed hs hlimits hla huser, ?_, hnearer⟩
    cases side with
    | before => exact congrArg (Option.map Listed.sibling) hnearest
    | after => exact congrArg (Option.map Listed.sibling) hnearest

/-- An entry that the query for a tag shows has stored tags that match. -/
theorem hasTag_of_finds (hs : Reachable s) (he : e ∈ s.store.entries.rows) (h : s.Finds e t)
    (hshort : (Condition.tag t).isTooLong = false) : Condition.hasTag t e.tags = true := by
  obtain ⟨ls, hanswers, hwindow, l, hl, rfl⟩ := h.listed
  have hsorted := Query.answers_sorted hs (Query.withinLimits_tag l.entry.userId hshort)
  have hids := hanswers.ids.symm.trans hsorted.ids
  rw [hwindow, Query.window_tags] at hids
  have hids : ls.map (·.entry.id) = _ := Except.ok.inj (Prod.mk.inj hids).1
  obtain ⟨m, hm, hid⟩ := List.mem_map.1 (hids ▸ List.mem_map_of_mem hl)
  have hdenotes := Query.denotes_sorted hs.integrity l.entry.userId [.filter (.tags [t])]
  have hrow := ((hdenotes.mem_iff m.entry).1 ⟨m, hm, rfl⟩).1
  have hsame : m.entry = l.entry := hs.integrity.entries.distinct.eq_of_eq hrow he hid
  exact (Query.exists_sorted_tag_iff hs.integrity he t).1 ⟨m, hm, hsame⟩

open FeedStore.Action in
/-- Any tags can come to be the tags of an entry. -/
theorem exists_tagged (tags : List String) : ∃ s, Reachable s
    ∧ ∃ e ∈ s.store.entries.rows, e.tags = Json.TextArray.encode tags := by
  let c : Candidate := { Candidate.bare "a" 1 with tags }
  have haccepts : Session.subscribed.Accepts 1 1 :=
    ⟨rfl, Reachable.subscribed.integrity, Reachable.subscribed.readable, rfl, rfl,
      fun e he => by cases he⟩
  obtain ⟨r, u, hrun, hsettles, -⟩ := haccepts.exists_reconcile false c
  have hrefresh := perform_refreshFeed_ok_iff.2 ⟨u, by
    rw [perform_reconcileAll_singleton, hrun], rfl⟩
  refine ⟨_, reachable_of_refreshFeed Reachable.subscribed hrefresh, ?_⟩
  cases hsettles with
  | known hmem _ _ => cases hmem
  | new _ hentries _ _ _ =>
      refine ⟨c.toEntry 1 1 0 1, ?_, rfl⟩
      rw [hentries, Table.rows_add]
      exact List.mem_append_right _ (List.mem_singleton_self _)

end Reachable

/-- A tag that is sought as it is stored finds its entries, in whatever case its letters are given.
Without `%` and `U+0000` in it, no other tag does. -/
theorem finds_own_tags (t : String) (hshort : (Condition.tag t).isTooLong = false) :
    (SoughtAsStored t → FindsOwn t)
      ∧ ('%' ∉ t.toList → '\x00' ∉ t.toList → FindsOwn t → SoughtAsStored t) := by
  constructor
  · intro ht s hs e he hcarries t' hcase
    obtain ⟨tags, hdecode, hmem⟩ := hcarries
    obtain ⟨-, stored, -, hstored⟩ := hs.readable e he
    obtain rfl : stored = tags := by
      rw [hstored, Json.TextArray.decode?_encode] at hdecode
      exact Option.some.inj hdecode
    refine hs.finds he ((Condition.isTooLong_tag_of_lowercase_eq hcase).trans hshort) ?_
    rw [hstored]
    exact Condition.hasTag_of_mem ht hcase hmem
  · intro hpercent hnul hown
    obtain ⟨s, hs, e, he, htags⟩ := Reachable.exists_tagged [t]
    have hcarries : e.Carries t :=
      ⟨[t], by rw [htags, Json.TextArray.decode?_encode], List.mem_singleton_self t⟩
    have hhas := hs.hasTag_of_finds he (hown s hs e he hcarries t rfl) hshort
    rw [htags] at hhas
    exact Condition.soughtAsStored_of_hasTag hpercent hnul hhas

/-- A tag with a small `é` finds its entry, also in capital letters. -/
theorem finds_own_tags_accent :
    ∃ s e, Reachable s ∧ e ∈ s.store.entries.rows ∧ e.Carries "Café" ∧ s.Finds e "CAFÉ" := by
  obtain ⟨s, hs, e, he, htags⟩ := Reachable.exists_tagged ["news", "Café"]
  have hcarries : e.Carries "Café" :=
    ⟨_, by rw [htags, Json.TextArray.decode?_encode], List.mem_cons_of_mem _ List.mem_cons_self⟩
  have ht : SoughtAsStored "Café" :=
    ⟨by decide +kernel, List.all_iff_forall_prop.1 (by decide)⟩
  have hfinds := (finds_own_tags "Café" (by decide +kernel)).1 ht
  exact ⟨s, e, hs, he, hcarries, hfinds s hs e he hcarries "CAFÉ" (by decide +kernel)⟩

/-- An entry whose only tag is a capital `É` is not found by it. -/
theorem not_forall_finds_own_tags :
    ¬ ∀ t, (Condition.tag t).isTooLong = false → FindsOwn t := by
  intro h
  let s := Session.subscribed.run
    [.refreshFeed 1 1 [{ Candidate.bare "a" 1 with tags := ["É"] }] false]
  have hs : Reachable s := Reachable.subscribed.run _
  obtain ⟨e, he, huser, htags⟩ : ∃ e ∈ s.store.entries.rows, e.userId = 1
      ∧ Json.TextArray.decode? e.tags = some ["É"] :=
    ⟨_, List.mem_singleton_self _, by rfl, by decide +kernel⟩
  have hfinds := h "É" (by decide +kernel) s hs e he ⟨_, htags, List.mem_singleton_self _⟩ "É" rfl
  obtain ⟨ls, hanswers, -, l, hl, -⟩ := hfinds.listed
  rw [huser] at hanswers
  have hcount : ((Action.countEntries (Query.built 1 [.filter (.tags ["É"])])).perform s).1
      = .ok 0 := by decide +kernel
  rw [hanswers.count] at hcount
  rw [List.eq_nil_of_length_eq_zero (Except.ok.inj hcount)] at hl
  cases hl

end FeedStore

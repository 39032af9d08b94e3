import FeedStore.Proofs.Denotation
import Mathlib.Data.Bool.AllAny
import Mathlib.Data.List.Forall2

/-!
# Quoted texts in stored tags

The tags of an entry are stored as one text, and a filter looks in it for its own text between
quotes. Only texts without escapes are considered here (`Json.IsPlain`). Between two neighbouring
quotes of the stored text stands a part of a tag or the comma between two tags; a part that is
followed by a quote of its tag ends in a backslash. So a plain text is found between quotes when a
tag ends with it, from its start or behind a quote (`Json.TextArray.quoted_encode_iff`).
-/

namespace FeedStore

namespace Text

/-! ## Folded letters -/

theorem toNat_fold (c : Char) :
    (fold c).toNat = if 65 ≤ c.toNat ∧ c.toNat ≤ 90 then c.toNat + 32 else c.toNat := by
  have hupper : ('A'.val ≤ c.val ∧ c.val ≤ 'Z'.val) ↔ 65 ≤ c.toNat ∧ c.toNat ≤ 90 := Iff.rfl
  unfold fold Char.toLower
  split
  · rename_i h
    have hsmall : c.val.toNat ≤ 90 := (hupper.1 h).2
    rw [if_pos (hupper.1 h)]
    show (c.val + 32).toNat = c.val.toNat + 32
    rw [UInt32.toNat_add]
    exact Nat.mod_eq_of_lt (by show c.val.toNat + 32 < 2 ^ 32; omega)
  · rename_i h
    rw [if_neg fun h' => h (hupper.2 h')]

theorem fold_eq_self {c : Char} (h : c.toNat < 65 ∨ 90 < c.toNat) : fold c = c := by
  rw [← Char.toNat_inj, toNat_fold, if_neg (by omega)]

/-- What is no letter is folded to itself, and nothing else is folded to it. -/
theorem fold_eq_iff {c d : Char} (hupper : d.toNat < 65 ∨ 90 < d.toNat)
    (hlower : d.toNat < 97 ∨ 122 < d.toNat) : fold c = d ↔ c = d := by
  rw [← Char.toNat_inj, ← Char.toNat_inj, toNat_fold]
  split
  · omega
  · rfl

theorem fold_fold (c : Char) : fold (fold c) = fold c := by
  have h := toNat_fold c
  rw [← Char.toNat_inj, toNat_fold (fold c), if_neg]
  split at h
  · omega
  · omega

theorem foldChars_append (cs ds : List Char) :
    foldChars (cs ++ ds) = foldChars cs ++ foldChars ds := List.map_append

/-- The text with its letters folded. -/
def folded (s : String) : String := String.ofList (foldChars s.toList)

@[simp] theorem toList_folded (s : String) : (folded s).toList = foldChars s.toList := by
  simp [folded]

namespace Wildcard

/-! ## Looking for a pattern within a text -/

variable {p q cs ds : List Char}

theorem Matches.append (h : Matches p cs) (h' : Matches q ds) : Matches (p ++ q) (cs ++ ds) := by
  induction h with
  | nil => exact h'
  | skip _ ih => exact .skip ih
  | take _ ih => exact .take ih
  | char hd ha _ ih => exact .char hd ha ih

theorem Matches.refl (p : List Char) : Matches p p := by
  induction p with
  | nil => exact .nil
  | cons d p ih =>
      by_cases hd : d = '%'
      · subst hd
        exact .take (.skip ih)
      · exact .char hd (by simp [accepts]) ih

theorem matches_any (cs : List Char) : Matches ['%'] cs :=
  matches_percent_iff.2 ⟨[], List.nil_suffix, .nil⟩

theorem accepts_iff {c d : Char} : accepts d c = true ↔ d = '_' ∨ seen d = seen c := by
  simp [accepts]

/-- Three characters look alike, every other one looks like those with the same folded letter. -/
theorem seen_eq_seen_iff {c d : Char} (hc : c.toNat < 0xfffd ∨ 0xffff < c.toNat) :
    seen c = seen d ↔ fold c = fold d := by
  have hfold := toNat_fold c
  have hseen : seen c = fold c := if_neg (by omega)
  rw [hseen]
  unfold seen
  split
  · rename_i hd
    have hself : fold d = d := fold_eq_self (by omega)
    have hreplaced : '\ufffd'.toNat = 0xfffd := rfl
    rw [hself, ← Char.toNat_inj, ← Char.toNat_inj]
    split at hfold
    · omega
    · omega
  · rfl

/-- Characters as they are seen. -/
def seenChars (cs : List Char) : List Char := cs.map seen

/-- Every character of the pattern accepts the one in its place. -/
def Takes (p cs : List Char) : Prop := List.Forall₂ (fun d c => accepts d c = true) p cs

/-- What stands in front of a pattern and has no `%` takes one character after the other. -/
theorem exists_of_matches_append (hp : '%' ∉ p) (h : Matches (p ++ q) cs) :
    ∃ mid back, cs = mid ++ back ∧ Takes p mid ∧ Matches q back := by
  induction p generalizing cs with
  | nil => exact ⟨[], cs, rfl, .nil, h⟩
  | cons d p ih =>
      rw [List.mem_cons, not_or] at hp
      cases h with
      | skip _ => exact absurd rfl hp.1
      | take _ => exact absurd rfl hp.1
      | @char _ _ c cs _ ha hm =>
          obtain ⟨mid, back, rfl, htaken, hback⟩ := ih hp.2 hm
          exact ⟨c :: mid, back, rfl, .cons ha htaken, hback⟩

theorem matches_within {mid : List Char} (h : Matches p mid) (hmid : mid <:+: cs) :
    Matches ('%' :: (p ++ ['%'])) cs := by
  obtain ⟨front, back, rfl⟩ := hmid
  refine matches_percent_iff.2 ⟨mid ++ back, ⟨front, ?_⟩, h.append (matches_any back)⟩
  rw [List.append_assoc]

/-- Between two `%`, a pattern without any stands for some part of the text. -/
theorem exists_of_matches_within (hp : '%' ∉ p) (h : Matches ('%' :: (p ++ ['%'])) cs) :
    ∃ mid, mid <:+: cs ∧ Takes p mid := by
  obtain ⟨tail, ⟨front, rfl⟩, htail⟩ := matches_percent_iff.1 h
  obtain ⟨mid, back, rfl, htaken, -⟩ := exists_of_matches_append hp htail
  exact ⟨mid, ⟨front, back, by rw [List.append_assoc]⟩, htaken⟩

/-- Without `_`, a pattern takes nothing but what looks like it. -/
theorem seenChars_eq_of_takes (hp : '_' ∉ p) (h : Takes p cs) : seenChars p = seenChars cs := by
  induction h with
  | nil => rfl
  | @cons d c p cs ha _ ih =>
      rw [List.mem_cons, not_or] at hp
      have hseen : seen d = seen c := (accepts_iff.1 ha).resolve_left (Ne.symm hp.1)
      rw [seenChars, List.map_cons, hseen]
      exact congrArg (seen c :: ·) (ih hp.2)

/-- What looks like ASCII characters has the same folded letters. -/
theorem foldChars_eq_of_seenChars_eq (hp : ∀ c ∈ p, c.toNat < 0x80)
    (h : seenChars p = seenChars cs) : foldChars p = foldChars cs := by
  induction p generalizing cs with
  | nil =>
      obtain rfl : cs = [] := List.map_eq_nil_iff.1 h.symm
      rfl
  | cons d p ih =>
      cases cs with
      | nil => cases h
      | cons c cs =>
          rw [List.forall_mem_cons] at hp
          obtain ⟨hseen, hrest⟩ := List.cons.inj h
          have hfold : fold d = fold c := (seen_eq_seen_iff (Or.inl (by omega))).1 hseen
          rw [foldChars, List.map_cons, hfold]
          exact congrArg (fold c :: ·) (ih hp.2 hrest)

end Wildcard

end Text

namespace Json

open Text

/-! ## Characters with and without escapes -/

/-- The character stands in a literal as it is. -/
def IsPlain (c : Char) : Prop := c ≠ '"' ∧ c ≠ '\\' ∧ 0x20 ≤ c.toNat

instance : DecidablePred IsPlain := fun c =>
  inferInstanceAs (Decidable (c ≠ '"' ∧ c ≠ '\\' ∧ 0x20 ≤ c.toNat))

theorem encodeChars_cons (c : Char) (cs : List Char) :
    encodeChars (c :: cs) = encodeChar c ++ encodeChars cs := List.flatMap_cons

theorem encodeChar_of_isPlain {c : Char} (h : IsPlain c) : encodeChar c = [c] := by
  obtain ⟨hquote, hbackslash, hcontrol⟩ := h
  unfold encodeChar
  split
  case h_8 => exact if_neg (Nat.not_lt.2 hcontrol)
  all_goals simp_all

/-- Any other character is written with a backslash in front. -/
theorem encodeChar_of_not_isPlain {c : Char} (h : ¬ IsPlain c) :
    ∃ d ds, encodeChar c = '\\' :: d :: ds := by
  unfold encodeChar
  split
  case h_8 =>
    split
    · exact ⟨_, _, rfl⟩
    · rename_i hq hb _ _ _ _ _ hc
      exact absurd ⟨hq, hb, Nat.not_lt.1 hc⟩ h
  all_goals exact ⟨_, _, rfl⟩

/-- The characters that escapes are made of, apart from what they stand for. -/
def escapeChars : List Char :=
  ['\\', 'b', 'f', 'n', 'r', 't', 'u', '0', '1', '2', '3', '4', '5', '6', '7', '8', '9', 'a', 'c',
    'd', 'e']

theorem hexDigit_mem_escapeChars {n : Nat} (h : n < 16) : hexDigit n ∈ escapeChars := by
  have hall : ∀ m : Fin 16, hexDigit m.val ∈ escapeChars := by decide
  exact hall ⟨n, h⟩

theorem mem_encodeChar {c d : Char} (h : d ∈ encodeChar c) :
    d = c ∧ 0x20 ≤ c.toNat ∨ d ∈ escapeChars := by
  unfold encodeChar at h
  split at h
  case h_8 =>
    split at h
    · rename_i hc
      have hhigh := hexDigit_mem_escapeChars (n := c.toNat / 16) (by omega)
      have hlow := hexDigit_mem_escapeChars (n := c.toNat % 16) (by omega)
      right
      simp only [List.mem_cons, List.not_mem_nil, or_false] at h
      rcases h with rfl | rfl | rfl | rfl | rfl | rfl
      · decide
      · decide
      · decide
      · decide
      · exact hhigh
      · exact hlow
    · rename_i hc
      exact Or.inl ⟨List.mem_singleton.1 h, Nat.not_lt.1 hc⟩
  all_goals
    simp only [List.mem_cons, List.not_mem_nil, or_false] at h
    rcases h with rfl | rfl
    · exact Or.inr (by decide)
    · first
      | exact Or.inl ⟨rfl, by decide⟩
      | exact Or.inr (by decide)

theorem quote_not_mem_encodeChars {cs : List Char} (h : '"' ∉ cs) : '"' ∉ encodeChars cs := by
  intro hmem
  obtain ⟨c, hc, hmem⟩ := List.mem_flatMap.1 hmem
  rcases mem_encodeChar hmem with ⟨rfl, -⟩ | hescape
  · exact h hc
  · revert hescape
    decide

theorem nul_not_mem_encodeChars (cs : List Char) : '\x00' ∉ encodeChars cs := by
  intro hmem
  obtain ⟨c, -, hmem⟩ := List.mem_flatMap.1 hmem
  rcases mem_encodeChar hmem with ⟨rfl, hc⟩ | hescape
  · revert hc
    decide
  · revert hescape
    decide

theorem encodeChars_of_plain {cs : List Char} (h : ∀ c ∈ cs, IsPlain c) : encodeChars cs = cs := by
  induction cs with
  | nil => rfl
  | cons c cs ih =>
      rw [List.forall_mem_cons] at h
      rw [encodeChars_cons, encodeChar_of_isPlain h.1, ih h.2]
      rfl

/-- Without a backslash, nothing has been escaped. -/
theorem plain_of_backslash_not_mem {cs : List Char} (h : '\\' ∉ encodeChars cs) :
    ∀ c ∈ cs, IsPlain c := by
  intro c hc
  by_contra hplain
  obtain ⟨d, ds, hescape⟩ := encodeChar_of_not_isPlain hplain
  exact h (List.mem_flatMap.2 ⟨c, hc, hescape ▸ List.mem_cons_self⟩)

theorem isPlain_fold_iff {c : Char} : IsPlain (fold c) ↔ IsPlain c := by
  have hquote : fold c = '"' ↔ c = '"' := fold_eq_iff (Or.inl (by decide)) (Or.inl (by decide))
  have hbackslash : fold c = '\\' ↔ c = '\\' :=
    fold_eq_iff (Or.inr (by decide)) (Or.inl (by decide))
  have hcontrol : 0x20 ≤ (fold c).toNat ↔ 0x20 ≤ c.toNat := by
    rw [toNat_fold]
    split
    · omega
    · rfl
  unfold IsPlain
  rw [Ne, Ne, hquote, hbackslash, hcontrol]

theorem fold_eq_self_of_mem_escapeChars {d : Char} (h : d ∈ escapeChars) : fold d = d := by
  have hall : ∀ d ∈ escapeChars, fold d = d := List.all_iff_forall_prop.1 (by decide)
  exact hall d h

/-- Letters stand in a literal as they are, so they can as well be folded there. -/
theorem foldChars_encodeChars (cs : List Char) :
    foldChars (encodeChars cs) = encodeChars (foldChars cs) := by
  have hchar : ∀ c, foldChars (encodeChar c) = encodeChar (fold c) := by
    intro c
    by_cases hplain : IsPlain c
    · rw [encodeChar_of_isPlain hplain, encodeChar_of_isPlain (isPlain_fold_iff.2 hplain)]
      rfl
    · have hc : fold c = c := by
        refine fold_eq_self (by_contra fun hletter => hplain ⟨?_, ?_, by omega⟩)
        · rintro rfl
          exact hletter (by decide)
        · rintro rfl
          exact hletter (by decide)
      have hfixed : ∀ d ∈ encodeChar c, fold d = d := by
        intro d hd
        rcases mem_encodeChar hd with ⟨rfl, -⟩ | hescape
        · exact hc
        · exact fold_eq_self_of_mem_escapeChars hescape
      rw [hc, foldChars, List.map_congr_left hfixed, List.map_id']
  induction cs with
  | nil => rfl
  | cons c cs ih =>
      rw [encodeChars_cons, foldChars_append, hchar, ih]
      exact (encodeChars_cons (fold c) (foldChars cs)).symm

namespace TextArray

/-! ## Arrays of texts -/

/-- What stands between the brackets. -/
def body (items : List String) : List Char := (",".intercalate (items.map Json.encode)).toList

theorem toList_encode (items : List String) :
    (encode items).toList = '[' :: (body items ++ [']']) := by
  simp [encode, body]

theorem body_singleton (item : String) :
    body [item] = '"' :: (encodeChars item.toList ++ ['"']) := by
  simp [body, Json.encode]

theorem body_cons_cons (item next : String) (items : List String) :
    body (item :: next :: items)
      = '"' :: (encodeChars item.toList ++ '"' :: ',' :: body (next :: items)) := by
  rw [body, toList_intercalate_encode, Json.encode]
  simp [body]

/-- Folding stored tags is storing folded tags. -/
theorem foldChars_body (items : List String) :
    foldChars (body items) = body (items.map folded) := by
  have hliteral : ∀ (item : String) (rest : List Char),
      foldChars ('"' :: (encodeChars item.toList ++ rest))
        = '"' :: (encodeChars (folded item).toList ++ foldChars rest) := by
    intro item rest
    rw [toList_folded, ← foldChars_encodeChars]
    simp only [foldChars, List.map_cons, List.map_append]
    rfl
  induction items with
  | nil => rfl
  | cons item items ih =>
      cases items with
      | nil =>
          rw [body_singleton, hliteral]
          exact (body_singleton (folded item)).symm
      | cons next items =>
          rw [body_cons_cons, hliteral]
          refine Eq.trans ?_ (body_cons_cons (folded item) (folded next) (items.map folded)).symm
          rw [show foldChars ('"' :: ',' :: body (next :: items))
            = '"' :: ',' :: foldChars (body (next :: items)) from rfl, ih]
          rfl

theorem foldChars_encode (items : List String) :
    foldChars (encode items).toList = (encode (items.map folded)).toList := by
  rw [toList_encode, toList_encode, ← foldChars_body]
  simp only [foldChars, List.map_cons, List.map_append]
  rfl

/-! ## Between two quotes -/

/-- The text stands somewhere between two quotes. -/
def Quoted (text cs : List Char) : Prop := '"' :: (text ++ ['"']) <:+: cs

/-- The characters begin with the text and a quote. -/
def Closed (text cs : List Char) : Prop := text ++ ['"'] <+: cs

/-- The tag is the text, or ends with a quote and the text. -/
def Bears (text tag : List Char) : Prop := tag = text ∨ '"' :: text <:+ tag

variable {text tag cs rest : List Char} {c : Char}

theorem quoted_quote : Quoted text ('"' :: cs) ↔ Closed text cs ∨ Quoted text cs := by
  rw [Quoted, List.infix_cons_iff, List.cons_prefix_cons]
  exact or_congr (and_iff_right rfl) Iff.rfl

theorem quoted_cons_of_ne (h : c ≠ '"') : Quoted text (c :: cs) ↔ Quoted text cs := by
  rw [Quoted, List.infix_cons_iff, List.cons_prefix_cons]
  exact or_iff_right fun hstart => h hstart.1.symm

theorem quoted_append_of_not_mem (h : '"' ∉ cs) :
    Quoted text (cs ++ rest) ↔ Quoted text rest := by
  induction cs with
  | nil => rfl
  | cons c cs ih =>
      rw [List.mem_cons, not_or] at h
      rw [List.cons_append, quoted_cons_of_ne (Ne.symm h.1), ih h.2]

/-- Every text of an array stands there between quotes, with its escapes. -/
theorem quoted_encodeChars_of_mem {item : String} {items : List String} (h : item ∈ items) :
    Quoted (encodeChars item.toList) (encode items).toList := by
  suffices hbody : Quoted (encodeChars item.toList) (body items) by
    rw [toList_encode]
    exact (hbody.trans (List.prefix_append _ _).isInfix).trans (List.suffix_cons _ _).isInfix
  induction items with
  | nil => cases h
  | cons first items ih =>
      cases items with
      | nil =>
          obtain rfl := List.mem_singleton.1 h
          rw [body_singleton]
          exact List.infix_rfl
      | cons next items =>
          rw [body_cons_cons]
          rcases List.mem_cons.1 h with rfl | hrest
          · exact ⟨[], ',' :: body (next :: items), by simp⟩
          · exact (ih hrest).trans ⟨'"' :: (encodeChars first.toList ++ ['"', ',']), [], by simp⟩

/-- The first quote of a text can be told. -/
theorem append_quote_inj {as bs : List Char} (ha : '"' ∉ as) (hb : '"' ∉ bs)
    (h : as ++ '"' :: cs = bs ++ '"' :: rest) : as = bs ∧ cs = rest := by
  have hfirst : ∀ {ds es : List Char}, '"' ∉ ds → (ds ++ '"' :: es).takeWhile (· != '"') = ds := by
    intro ds es hds
    have hall : ∀ c ∈ ds, (c != '"') = true := fun c hc =>
      bne_iff_ne.2 fun heq => hds (heq ▸ hc)
    rw [List.takeWhile_append_of_pos hall]
    simp
  obtain rfl : as = bs := by rw [← hfirst ha, h, hfirst hb]
  exact ⟨rfl, (List.cons.inj (List.append_cancel_left h)).2⟩

/-- What begins with the text and a quote has the text in front of its first quote. -/
theorem closed_append_quote (ht : '"' ∉ text) (hc : '"' ∉ cs) :
    Closed text (cs ++ '"' :: rest) ↔ cs = text := by
  constructor
  · rintro ⟨back, h⟩
    rw [List.append_assoc, List.singleton_append] at h
    exact (append_quote_inj ht hc h).1.symm
  · rintro rfl
    exact ⟨rest, by rw [List.append_assoc, List.singleton_append]⟩

theorem not_closed_of_not_mem (h : '"' ∉ cs) : ¬ Closed text cs := fun hstart =>
  h (hstart.subset (List.mem_append_right _ (List.mem_singleton_self _)))

theorem not_quoted_of_not_mem (h : '"' ∉ cs) : ¬ Quoted text cs := fun hwithin =>
  h (hwithin.subset List.mem_cons_self)

theorem quote_not_mem_of_plain (h : ∀ c ∈ text, IsPlain c) : '"' ∉ text := fun hmem =>
  (h _ hmem).1 rfl

/-- From inside a literal, behind some of it that has no quote, the text is found as what is left of
the tag, behind a quote of the tag, or behind the literal. A quote of the tag closes nothing, since
a backslash stands in front of it. -/
theorem closed_or_quoted_literal (ht : ∀ c ∈ text, IsPlain c) (hc : '"' ∉ cs) :
    Closed text (encodeChars cs ++ (encodeChars tag ++ '"' :: rest))
        ∨ Quoted text (encodeChars cs ++ (encodeChars tag ++ '"' :: rest))
      ↔ (cs ++ tag = text ∨ '"' :: text <:+ tag) ∨ Closed text rest ∨ Quoted text rest := by
  have hquote := quote_not_mem_of_plain ht
  induction tag generalizing cs with
  | nil =>
      have hself : encodeChars cs = text ↔ cs = text := by
        constructor
        · intro h
          rw [← h, encodeChars_of_plain (plain_of_backslash_not_mem fun hmem => ?_)]
          exact (ht _ (h ▸ hmem)).2.1 rfl
        · rintro rfl
          exact encodeChars_of_plain ht
      have hnil : ¬ '"' :: text <:+ [] := fun h => List.cons_ne_nil _ _ (List.suffix_nil.1 h)
      rw [show encodeChars [] = [] from rfl, List.nil_append, List.append_nil,
        closed_append_quote hquote (quote_not_mem_encodeChars hc), hself,
        quoted_append_of_not_mem (quote_not_mem_encodeChars hc), quoted_quote, or_iff_left hnil]
  | cons c tag ih =>
      rw [List.suffix_cons_iff]
      by_cases hcq : c = '"'
      · subst hcq
        have hne : encodeChars cs ++ ['\\'] ≠ text := by
          rintro rfl
          exact (ht '\\' (List.mem_append_right _ (List.mem_singleton_self _))).2.1 rfl
        have hnew : ¬ cs ++ '"' :: tag = text := by
          rintro rfl
          exact hquote (List.mem_append_right _ List.mem_cons_self)
        have hfront : '"' ∉ encodeChars cs ++ ['\\'] := by
          rw [List.mem_append, not_or]
          exact ⟨quote_not_mem_encodeChars hc, by decide⟩
        have hsplit : encodeChars cs ++ (encodeChars ('"' :: tag) ++ '"' :: rest)
            = (encodeChars cs ++ ['\\']) ++ '"' :: (encodeChars tag ++ '"' :: rest) := by
          simp [encodeChars, encodeChar]
        have htail : (Closed text (encodeChars tag ++ '"' :: rest)
              ∨ Quoted text (encodeChars tag ++ '"' :: rest))
            ↔ (tag = text ∨ '"' :: text <:+ tag) ∨ Closed text rest ∨ Quoted text rest :=
          ih (show '"' ∉ [] from List.not_mem_nil)
        rw [hsplit, closed_append_quote hquote hfront, or_iff_right hne,
          quoted_append_of_not_mem hfront, quoted_quote, htail, or_iff_right hnew,
          List.cons_inj_right, eq_comm (a := text)]
      · have hfront : '"' ∉ cs ++ [c] := by
          rw [List.mem_append, not_or, List.mem_singleton]
          exact ⟨hc, Ne.symm hcq⟩
        have hsplit : encodeChars cs ++ (encodeChars (c :: tag) ++ '"' :: rest)
            = encodeChars (cs ++ [c]) ++ (encodeChars tag ++ '"' :: rest) := by
          simp [encodeChars]
        have hne : ¬ '"' :: text = c :: tag := fun heq => hcq (List.cons.inj heq).1.symm
        rw [hsplit, or_iff_right hne]
        refine (ih hfront).trans ?_
        rw [List.append_assoc, List.singleton_append]

/-- A text that is written without escapes, and is not a comma, stands between two quotes of the
stored tags just when one of them is the text or ends with a quote and the text. -/
theorem quoted_body_iff (ht : ∀ c ∈ text, IsPlain c) (hcomma : text ≠ [',']) (items : List String) :
    Quoted text (body items ++ [']']) ↔ ∃ item ∈ items, Bears text item.toList := by
  have hliteral : ∀ (item : String) (rest : List Char),
      Quoted text ('"' :: (encodeChars item.toList ++ '"' :: rest))
        ↔ Bears text item.toList ∨ Closed text rest ∨ Quoted text rest := by
    intro item rest
    rw [quoted_quote]
    exact closed_or_quoted_literal ht (show '"' ∉ [] from List.not_mem_nil)
  induction items with
  | nil =>
      have hnone : ¬ Quoted text [']'] := not_quoted_of_not_mem (by decide)
      simpa [body] using hnone
  | cons item items ih =>
      cases items with
      | nil =>
          have hclosed : ¬ Closed text [']'] := not_closed_of_not_mem (by decide)
          have hquoted : ¬ Quoted text [']'] := not_quoted_of_not_mem (by decide)
          rw [body_singleton, List.cons_append, List.append_assoc, List.singleton_append, hliteral]
          simp [hclosed, hquoted]
      | cons next items =>
          have hclosed : ¬ Closed text (',' :: (body (next :: items) ++ [']'])) := by
            obtain ⟨cs, hcs⟩ := toList_intercalate_head next items
            rw [body, hcs]
            exact fun h => hcomma
              ((closed_append_quote (quote_not_mem_of_plain ht)
                (show '"' ∉ [','] by decide)).1 h).symm
          rw [body_cons_cons, List.cons_append, List.append_assoc, List.cons_append,
            List.cons_append, hliteral, or_iff_right hclosed, quoted_cons_of_ne (by decide)]
          refine (or_congr Iff.rfl ih).trans ?_
          simp only [List.mem_cons, or_and_right, exists_or, exists_eq_left]

theorem quoted_encode_iff (ht : ∀ c ∈ text, IsPlain c) (hcomma : text ≠ [','])
    (items : List String) :
    Quoted text (encode items).toList ↔ ∃ item ∈ items, Bears text item.toList := by
  rw [toList_encode, quoted_cons_of_ne (by decide), quoted_body_iff ht hcomma]

theorem nul_not_mem_body (items : List String) : '\x00' ∉ body items := by
  induction items with
  | nil => decide
  | cons item items ih =>
      have hitem := nul_not_mem_encodeChars item.toList
      cases items with
      | nil =>
          rw [body_singleton]
          simp [hitem]
      | cons next items =>
          rw [body_cons_cons]
          simp [hitem, ih]

/-- Stored tags are seen whole. -/
theorem beforeNul_encode (items : List String) :
    beforeNul (encode items).toList = (encode items).toList := by
  refine beforeNul_eq_self ?_
  rw [toList_encode]
  simp [nul_not_mem_body]

end TextArray

end Json

end FeedStore

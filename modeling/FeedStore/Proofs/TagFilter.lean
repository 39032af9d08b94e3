import FeedStore.Proofs.StoredTags

/-!
# What a tag filter finds

A filter for tags looks for each of them, between quotes, in the folded text of the stored tags. For
tags of plain ASCII characters (`PlainTag`) that finds the entries one of whose tags is the text, in
either case of its letters, and by accident those with a tag that ends with a quote and the text
(`Entry.Bears`); no match ever straddles two tags or an escape (`PlainTag.hasTag_encode_iff`). The
engine takes up to 994 of them in one query (`Reachable.tagged_exactly`).
-/

namespace FeedStore

open Text

/-- The text is of ASCII characters that mean themselves in a literal and in a pattern, few enough
for a pattern, and it is not a comma. -/
structure PlainTag (t : String) : Prop where
  short : t.toList.length ≤ 49996
  ascii : ∀ c ∈ t.toList, c.toNat < 0x80
  plain : ∀ c ∈ t.toList, Json.IsPlain c
  noPercent : '%' ∉ t.toList
  noUnderscore : '_' ∉ t.toList
  noComma : t ≠ ","

/-- One of the tags of the entry is the text or ends with a quote and the text, in either case of
the ASCII letters. -/
def Entry.Bears (e : Entry) (t : String) : Prop :=
  ∃ tags, Json.TextArray.decode? e.tags = some tags
    ∧ ∃ tag ∈ tags, Json.TextArray.Bears (foldChars t.toList) (foldChars tag.toList)

namespace Text

theorem foldChars_of_mem_foldChars {cs ds : List Char} (h : ∀ c ∈ ds, c ∈ foldChars cs) :
    foldChars ds = ds := by
  conv => rhs; rw [← List.map_id ds]
  refine List.map_congr_left fun c hc => ?_
  obtain ⟨d, -, rfl⟩ := List.mem_map.1 (h c hc)
  exact fold_fold d

theorem utf8ByteSize_ofList_of_ascii {cs : List Char} (h : ∀ c ∈ cs, c.toNat < 0x80) :
    (String.ofList cs).utf8ByteSize = cs.length := by
  induction cs with
  | nil => rfl
  | cons c cs ih =>
      rw [List.forall_mem_cons] at h
      have hsize : c.utf8Size = 1 := Char.utf8Size_eq_one_iff.2 (Nat.le_of_lt_succ h.1)
      rw [String.ofList_cons, String.utf8ByteSize_append, String.utf8ByteSize_singleton, hsize,
        ih h.2, List.length_cons, Nat.add_comm]

end Text

namespace Condition

variable {t : String} {tags : List String}

theorem toList_tagPattern (t : String) :
    (tagPattern t).toList = '%' :: (('"' :: ((lowercase t).toList ++ ['"'])) ++ ['%']) := by
  simp [tagPattern]

/-- Stored tags are tried whole, with folded letters. -/
theorem hasTag_encode (hnul : '\x00' ∉ (lowercase t).toList) (tags : List String) :
    hasTag t (Json.TextArray.encode tags) = true
      ↔ Wildcard.Matches ('%' :: (('"' :: ((lowercase t).toList ++ ['"'])) ++ ['%']))
          (Json.TextArray.encode (tags.map folded)).toList := by
  have hpattern : beforeNul (tagPattern t).toList = (tagPattern t).toList := by
    refine beforeNul_eq_self ?_
    rw [toList_tagPattern]
    simp [hnul]
  unfold hasTag
  rw [Wildcard.matchText_iff, Wildcard.Fits, String.toList_ofList, Json.TextArray.foldChars_encode,
    Json.TextArray.beforeNul_encode, hpattern, toList_tagPattern]

end Condition

namespace PlainTag

variable {t : String}

theorem toList_lowercase (h : PlainTag t) : (lowercase t).toList = foldChars t.toList := by
  rw [lowercase, String.toList_ofList, Lowercase.lowerFrom_of_ascii h.ascii]

/-- Folding makes no character special. -/
theorem not_mem_foldChars {c : Char} (hc : c ∉ t.toList) (hupper : c.toNat < 65 ∨ 90 < c.toNat)
    (hlower : c.toNat < 97 ∨ 122 < c.toNat) : c ∉ foldChars t.toList := by
  intro hmem
  obtain ⟨d, hd, heq⟩ := List.mem_map.1 hmem
  exact hc ((fold_eq_iff hupper hlower).1 heq ▸ hd)

theorem ascii_foldChars (h : PlainTag t) : ∀ c ∈ foldChars t.toList, c.toNat < 0x80 := by
  intro c hc
  obtain ⟨d, hd, rfl⟩ := List.mem_map.1 hc
  have hascii := h.ascii d hd
  rw [toNat_fold]
  split
  · omega
  · exact hascii

theorem plain_foldChars (h : PlainTag t) : ∀ c ∈ foldChars t.toList, Json.IsPlain c := by
  intro c hc
  obtain ⟨d, hd, rfl⟩ := List.mem_map.1 hc
  exact Json.isPlain_fold_iff.2 (h.plain d hd)

theorem foldChars_ne_comma (h : PlainTag t) : foldChars t.toList ≠ [','] := by
  intro heq
  obtain ⟨c, hc, hfold⟩ := List.map_eq_singleton_iff.1 heq
  have hcomma : c = ',' := (fold_eq_iff (Or.inl (by decide)) (Or.inl (by decide))).1 hfold
  exact h.noComma (String.toList_inj.1 (by rw [hc, hcomma]; rfl))

theorem isTooLong (h : PlainTag t) : (Condition.tag t).isTooLong = false := by
  have hsize : (lowercase t).utf8ByteSize = t.toList.length := by
    rw [← String.ofList_toList (s := lowercase t), h.toList_lowercase,
      utf8ByteSize_ofList_of_ascii]
    · exact List.length_map _
    · exact h.ascii_foldChars
  have hshort := h.short
  unfold Condition.isTooLong Condition.tagPattern
  rw [decide_eq_false_iff_not, String.utf8ByteSize_append, String.utf8ByteSize_append, hsize]
  show ¬ 2 + t.toList.length + 2 > 50000
  omega

/-- A plain tag is found in stored tags just when one of them is that text or ends with a quote and
the text, in either case. -/
theorem hasTag_encode_iff (h : PlainTag t) (tags : List String) :
    Condition.hasTag t (Json.TextArray.encode tags) = true
      ↔ ∃ tag ∈ tags, Json.TextArray.Bears (foldChars t.toList) (foldChars tag.toList) := by
  have hlower := h.toList_lowercase
  have hnul : '\x00' ∉ foldChars t.toList := by
    intro hmem
    have hcontrol := (h.plain_foldChars _ hmem).2.2
    revert hcontrol
    decide
  have hpercent : '%' ∉ '"' :: (foldChars t.toList ++ ['"']) := by
    have hmem := not_mem_foldChars h.noPercent (Or.inl (by decide)) (Or.inl (by decide))
    simp [hmem]
  have hunderscore : '_' ∉ '"' :: (foldChars t.toList ++ ['"']) := by
    have hmem := not_mem_foldChars h.noUnderscore (Or.inr (by decide)) (Or.inl (by decide))
    simp [hmem]
  have hascii : ∀ c ∈ '"' :: (foldChars t.toList ++ ['"']), c.toNat < 0x80 :=
    List.forall_mem_cons.2 ⟨by decide,
      List.forall_mem_append.2 ⟨h.ascii_foldChars, List.forall_mem_singleton.2 (by decide)⟩⟩
  have hitems : (∃ tag ∈ tags, Json.TextArray.Bears (foldChars t.toList) (foldChars tag.toList))
      ↔ ∃ tag ∈ tags.map folded, Json.TextArray.Bears (foldChars t.toList) tag.toList := by
    simp
  rw [Condition.hasTag_encode (by rw [hlower]; exact hnul), hlower, hitems,
    ← Json.TextArray.quoted_encode_iff h.plain_foldChars h.foldChars_ne_comma]
  constructor
  · intro hmatch
    obtain ⟨mid, hmid, htaken⟩ := Wildcard.exists_of_matches_within hpercent hmatch
    -- what is taken is folded already, and so is what takes it
    have hfixed : foldChars mid = mid := by
      rw [← Json.TextArray.foldChars_encode] at hmid
      exact foldChars_of_mem_foldChars fun c hc => List.IsInfix.subset hmid hc
    have hself : foldChars ('"' :: (foldChars t.toList ++ ['"']))
        = '"' :: (foldChars t.toList ++ ['"']) := by
      refine @foldChars_of_mem_foldChars ('"' :: (t.toList ++ ['"'])) _ fun c hc => ?_
      have hquote : fold '"' = '"' := by decide
      simpa [foldChars, hquote] using hc
    have hseen := Wildcard.seenChars_eq_of_takes hunderscore htaken
    rw [Json.TextArray.Quoted, ← hself, Wildcard.foldChars_eq_of_seenChars_eq hascii hseen, hfixed]
    exact hmid
  · exact fun hquoted => Wildcard.matches_within (.refl _) hquoted

end PlainTag

/-! ## Queries for tags -/

/-- So many tags can be asked for at once. -/
def maxTags : Nat := 994

namespace Query

variable {user : Id} {ts : List String}

theorem built_tags (user : Id) (ts : List String) :
    built user [.filter (.tags ts)] = { user, conditions := ts.map .tag } := by
  rw [built_eq]
  simp [Addition.conditions, Filter.conditions, Addition.terms, Addition.limits, Addition.offsets]

/-- There is no limit and no offset. -/
theorem window_tags (ls : List Listed) : window [.filter (.tags ts)] ls = ls :=
  List.take_length

theorem values_tags (user : Id) (ts : List String) :
    (built user [.filter (.tags ts)]).values = ts.length + 1 := by
  have hvalues : (ts.map Condition.tag).map Condition.values = List.replicate ts.length 1 := by
    rw [List.map_map, ← List.map_const']
    rfl
  rw [built_tags]
  unfold values allConditions
  rw [List.map_cons, hvalues, List.foldr_cons, ← List.sum_eq_foldr, List.sum_replicate_nat,
    Nat.mul_one, Nat.add_comm]
  rfl

/-- Every tag adds a level. -/
theorem depth_tags (user : Id) (ts : List String) :
    Condition.depth (built user [.filter (.tags ts)]).allConditions
      = if ts = [] then 5 else ts.length + 6 := by
  have hlevels : (ts.map Condition.tag).flatMap Condition.levels = List.replicate ts.length 4 := by
    rw [List.flatMap_map, ← List.map_const']
    exact List.map_eq_flatMap.symm
  rw [built_tags]
  unfold Condition.depth allConditions
  rw [List.flatMap_cons, hlevels]
  cases ts with
  | nil => rfl
  | cons t ts =>
      rw [if_neg (List.cons_ne_nil t ts), List.length_cons, List.replicate_succ]
      show (List.replicate ts.length 4).foldl (fun acc level => max acc level + 1) 5 + 2 = _
      rw [Condition.foldl_replicate_levels _ (by decide)]
      omega

theorem withinLimits_tags (hts : ∀ t ∈ ts, (Condition.tag t).isTooLong = false)
    (hfew : ts.length ≤ maxTags) :
    (built user [.filter (.tags ts)]).WithinLimits := by
  unfold maxTags at hfew
  refine ⟨⟨?_, ?_, fun c hc => ?_⟩, ?_⟩
  · rw [values_tags]
    unfold maxValues
    omega
  · rw [depth_tags]
    unfold maxDepth
    split
    · decide
    · omega
  · rw [built_tags] at hc
    obtain ⟨t, ht, rfl⟩ := List.mem_map.1 hc
    exact hts t ht
  · rw [built_tags]
    exact Nat.zero_le _

end Query

/-! ## Too many tags -/

/-- The statement exceeds a limit of the engine. -/
def Fault.IsLimit (fault : Fault) : Prop := fault = .tooManyValues ∨ fault = .tooDeep

/-- None of the four ways to answer the query gets an answer, because of a limit of the engine. -/
structure Query.Refused (q : Query) (s : Session) : Prop where
  count : ∃ fault : Fault, fault.IsLimit ∧ (Action.countEntries q).perform s
    = (.error (.ofFault "unable to count entries" fault), s)
  ids : ∃ fault : Fault, fault.IsLimit ∧ (Action.entryIds q).perform s
    = (.error (.ofFault "unable to fetch entry ids" fault), s)
  entries : ∃ fault : Fault, fault.IsLimit ∧ (Action.entries q).perform s
    = (.error (.ofFault "unable to fetch entries" fault), s)
  first : ∃ fault : Fault, fault.IsLimit ∧ (Action.firstEntry q).perform s
    = (.error (.ofFault "unable to fetch entries" fault), s)

namespace Action

variable {α : Type} {s : Session}

theorem perform_readWithin_of_deep (hs : s.Ready) {extent : Extent} (h : maxDepth < extent.depth)
    (context : String) (tables : List TableName) (f : Store → Except Fault α) :
    ∃ fault : Fault, fault.IsLimit
      ∧ (readWithin extent context tables f).perform s = (.error (.ofFault context fault), s) := by
  have hopen : s.access.isOpen = true := by rw [show s.access = {} from hs]
  have hrefused : ∃ fault : Fault, fault.IsLimit
      ∧ s.refusal? (.select tables) extent = some fault := by
    unfold Session.refusal?
    rw [hopen]
    by_cases hvalues : maxValues < extent.values
    · exact ⟨.tooManyValues, Or.inl rfl, by simp [hvalues]⟩
    · exact ⟨.tooDeep, Or.inr rfl, by simp [hvalues, h]⟩
  obtain ⟨fault, hlimit, hrefused⟩ := hrefused
  exact ⟨fault, hlimit, by rw [perform_readWithin, hrefused]⟩

/-- A query of too many conditions gets no answer. -/
theorem refused_of_deep (hs : s.Ready) {q : Query}
    (h : maxDepth < Condition.depth q.allConditions) : q.Refused s := by
  have hentries : ∀ q' : Query, q'.allConditions = q.allConditions →
      ∃ fault : Fault, fault.IsLimit ∧ (Action.entries q').perform s
        = (.error (.ofFault "unable to fetch entries" fault), s) := by
    intro q' hsame
    have hdeep : maxDepth < q'.pageExtent.depth := by
      rw [Query.pageExtent, hsame]
      exact h
    obtain ⟨fault, hlimit, hrefused⟩ := perform_readWithin_of_deep hs hdeep
      "unable to fetch entries" listingTables q'.page
    exact ⟨fault, hlimit, by rw [entries, perform_bind, hrefused]⟩
  refine ⟨perform_readWithin_of_deep hs h _ _ _, perform_readWithin_of_deep hs h _ _ _,
    hentries q rfl, ?_⟩
  obtain ⟨fault, hlimit, hrefused⟩ := hentries { q with limit := some 1 } rfl
  exact ⟨fault, hlimit, by rw [firstEntry, perform_bind, hrefused]⟩

end Action

/-! ## What is found -/

/-- A filter for plain tags admits the entries that bear each of them. -/
theorem Filter.admits_tags_iff {s : Store} {e : Entry} (he : e.Readable) {ts : List String}
    (hts : ∀ t ∈ ts, PlainTag t) : (Filter.tags ts).Admits s e ↔ ∀ t ∈ ts, e.Bears t := by
  obtain ⟨-, tags, -, htags⟩ := he
  refine forall₂_congr fun t ht => ?_
  rw [← Text.Wildcard.matchText_iff]
  show Condition.hasTag t e.tags = true ↔ _
  rw [htags, (hts t ht).hasTag_encode_iff, Entry.Bears, htags, Json.TextArray.decode?_encode]
  simp

/-- In a reachable session the conditions of a query for plain tags hold of exactly the entries of
the user that bear each of them, and these are what it answers with, unless there are more tags
than the engine takes. -/
theorem Reachable.tagged_exactly {s : Session} (hs : Reachable s) (user : Id) {ts : List String}
    (hts : ∀ t ∈ ts, PlainTag t) :
    (∀ l, l ∈ (Query.built user [.filter (.tags ts)]).matching s.store
        ↔ l ∈ s.store.listed ∧ l.entry.userId = user ∧ ∀ t ∈ ts, l.entry.Bears t)
      ∧ (ts.length ≤ maxTags → ∃ ls, Query.Answers user [.filter (.tags ts)] s ls
        ∧ Query.window [.filter (.tags ts)] ls = ls ∧ (ls.map (·.entry.id)).Nodup
        ∧ ∀ e, (∃ l ∈ ls, l.entry = e)
          ↔ e ∈ s.store.entries.rows ∧ e.userId = user ∧ ∀ t ∈ ts, e.Bears t)
      ∧ (maxTags < ts.length → (Query.built user [.filter (.tags ts)]).Refused s) := by
  have hadmits : ∀ e ∈ s.store.entries.rows,
      (∀ a ∈ [Addition.filter (.tags ts)], a.Admits s.store e) ↔ ∀ t ∈ ts, e.Bears t := by
    intro e he
    rw [List.forall_mem_singleton]
    exact Filter.admits_tags_iff (s := s.store) (hs.readable e he) hts
  refine ⟨fun l => ?_, fun hfew => ?_, fun hmany => ?_⟩
  · rw [Query.mem_matching_built hs.integrity]
    exact and_congr_right fun hl => and_congr_right fun _ =>
      hadmits l.entry (Store.of_mem_listed hl).1
  · have hdenotes := Query.denotes_sorted hs.integrity user [.filter (.tags ts)]
    have hq : (Query.built user [.filter (.tags ts)]).WithinLimits :=
      Query.withinLimits_tags (fun t ht => (hts t ht).isTooLong) hfew
    refine ⟨_, Query.answers_sorted hs hq, Query.window_tags _, hdenotes.once, fun e => ?_⟩
    rw [hdenotes.mem_iff]
    exact and_congr_right fun he => and_congr_right fun _ => hadmits e he
  · refine Action.refused_of_deep hs.ready ?_
    have hne : ts ≠ [] := by
      rintro rfl
      exact absurd hmany (Nat.not_lt_zero _)
    rw [Query.depth_tags, if_neg hne]
    unfold maxTags at hmany
    unfold maxDepth
    omega

/-- Of three entries, one has the tag in other letters, one has a tag that ends with a quote and the
tag, and one has a tag that goes on behind it. -/
theorem Reachable.tagged_exactly_news :
    ∃ s ls, Reachable s ∧ Query.Answers 1 [.filter (.tags ["news"])] s ls ∧ ls.length = 2
      ∧ ∀ e, (∃ l ∈ ls, l.entry = e)
        ↔ e ∈ s.store.entries.rows ∧ e.userId = 1 ∧ ∀ t ∈ ["news"], e.Bears t := by
  let s := Session.subscribed.run
    [.refreshFeed 1 1 [{ Candidate.bare "a" 1 with tags := ["x", "News"] },
      { Candidate.bare "b" 2 with tags := ["the \"NEWS"] },
      { Candidate.bare "c" 3 with tags := ["newsroom"] }] false]
  have hs : Reachable s := Reachable.subscribed.run _
  have hplain : PlainTag "news" :=
    ⟨by decide, List.all_iff_forall_prop.1 (by decide), List.all_iff_forall_prop.1 (by decide),
      by decide, by decide, by decide⟩
  obtain ⟨ls, hanswers, -, -, hmem⟩ :=
    (hs.tagged_exactly 1 (List.forall_mem_singleton.2 hplain)).2.1 (by decide)
  have hcount : ((Action.countEntries (Query.built 1 [.filter (.tags ["news"])])).perform s).1
      = .ok 2 := by decide +kernel
  rw [hanswers.count] at hcount
  exact ⟨s, ls, hs, hanswers, Except.ok.inj hcount, hmem⟩

end FeedStore

import FeedStore.Store.Entries

/-!
# Batches of candidates

A batch may name a hash several times. The first candidate of a hash that the feed did not
have becomes the entry (`Candidate.newcomers`); if the caller asks for updates, the last
candidate of a hash is what its entry shows in the end (`Candidate.last?`), whatever the ones
before it said (`Entry.foldl_seen`).
-/

namespace FeedStore

/-! ## Batches -/

namespace Candidate

/-- The candidates whose hash is neither known nor brought by an earlier one. -/
def newcomers (known : List String) : List Candidate → List Candidate
  | [] => []
  | c :: cs =>
    if c.hash ∈ known then newcomers known cs else c :: newcomers (c.hash :: known) cs

/-- The last candidate with a hash. -/
def last? (hash : String) (cs : List Candidate) : Option Candidate :=
  (cs.filter (·.hash == hash)).getLast?

theorem newcomers_congr {known known' : List String} (h : ∀ x, x ∈ known ↔ x ∈ known')
    (cs : List Candidate) : newcomers known cs = newcomers known' cs := by
  induction cs generalizing known known' with
  | nil => rfl
  | cons c cs ih =>
      have hc : ∀ x, x ∈ c.hash :: known ↔ x ∈ c.hash :: known' := fun x => by
        simp only [List.mem_cons, h]
      simp only [newcomers, h, ih h, ih hc]

/-- A newcomer is the first candidate of a hash that was not known. -/
theorem mem_newcomers {known : List String} {cs : List Candidate} {c : Candidate} :
    c ∈ newcomers known cs ↔ c.hash ∉ known
      ∧ ∃ front back, cs = front ++ c :: back ∧ ∀ d ∈ front, d.hash ≠ c.hash := by
  induction cs generalizing known with
  | nil => simp [newcomers]
  | cons d cs ih =>
      have hsplit : (∃ front back, d :: cs = front ++ c :: back ∧ ∀ x ∈ front, x.hash ≠ c.hash)
          ↔ c = d ∨ (d.hash ≠ c.hash
            ∧ ∃ front back, cs = front ++ c :: back ∧ ∀ x ∈ front, x.hash ≠ c.hash) := by
        constructor
        · rintro ⟨front, back, heq, hfront⟩
          cases front with
          | nil =>
              cases heq
              exact Or.inl rfl
          | cons x front =>
              cases heq
              rw [List.forall_mem_cons] at hfront
              exact Or.inr ⟨hfront.1, front, back, rfl, hfront.2⟩
        · rintro (rfl | ⟨hne, front, back, rfl, hfront⟩)
          · exact ⟨[], cs, rfl, by simp⟩
          · exact ⟨d :: front, back, rfl, by simpa using ⟨hne, hfront⟩⟩
      rw [hsplit, newcomers]
      by_cases hd : d.hash ∈ known
      · rw [if_pos hd, ih]
        constructor
        · rintro ⟨hc, hrest⟩
          exact ⟨hc, Or.inr ⟨fun heq => hc (heq ▸ hd), hrest⟩⟩
        · rintro ⟨hc, rfl | ⟨-, hrest⟩⟩
          · exact absurd hd hc
          · exact ⟨hc, hrest⟩
      · rw [if_neg hd, List.mem_cons, ih, List.mem_cons, not_or]
        constructor
        · rintro (rfl | ⟨⟨hne, hc⟩, hrest⟩)
          · exact ⟨hd, Or.inl rfl⟩
          · exact ⟨hc, Or.inr ⟨fun heq => hne heq.symm, hrest⟩⟩
        · rintro ⟨hc, rfl | ⟨hne, hrest⟩⟩
          · exact Or.inl rfl
          · exact Or.inr ⟨⟨fun heq => hne heq.symm, hc⟩, hrest⟩

theorem hash_not_mem_of_mem_newcomers {known : List String} {cs : List Candidate} {c : Candidate}
    (h : c ∈ newcomers known cs) : c.hash ∉ known := (mem_newcomers.1 h).1

/-- No hash comes with two newcomers. -/
theorem pairwise_hash_newcomers (known : List String) (cs : List Candidate) :
    (newcomers known cs).Pairwise fun c d => c.hash ≠ d.hash := by
  induction cs generalizing known with
  | nil => exact .nil
  | cons c cs ih =>
      rw [newcomers]
      split
      · exact ih known
      · refine List.pairwise_cons.2 ⟨fun d hd heq => ?_, ih _⟩
        exact hash_not_mem_of_mem_newcomers hd (heq ▸ List.mem_cons_self)

/-- Every hash that was not known comes with a newcomer. -/
theorem mem_map_hash_newcomers {known : List String} {cs : List Candidate} {hash : String} :
    hash ∈ (newcomers known cs).map (·.hash) ↔ hash ∉ known ∧ hash ∈ cs.map (·.hash) := by
  induction cs generalizing known with
  | nil => simp [newcomers]
  | cons c cs ih =>
      rw [newcomers]
      by_cases hc : c.hash ∈ known
      · rw [if_pos hc, ih, List.map_cons, List.mem_cons]
        constructor
        · rintro ⟨hn, hmem⟩
          exact ⟨hn, Or.inr hmem⟩
        · rintro ⟨hn, rfl | hmem⟩
          · exact absurd hc hn
          · exact ⟨hn, hmem⟩
      · rw [if_neg hc, List.map_cons, List.mem_cons, ih, List.map_cons, List.mem_cons,
          List.mem_cons, not_or]
        constructor
        · rintro (rfl | ⟨⟨-, hn⟩, hmem⟩)
          · exact ⟨hc, Or.inl rfl⟩
          · exact ⟨hn, Or.inr hmem⟩
        · rintro ⟨hn, rfl | hmem⟩
          · exact Or.inl rfl
          · by_cases heq : hash = c.hash
            · exact Or.inl heq
            · exact Or.inr ⟨⟨heq, hn⟩, hmem⟩

theorem last?_cons_of_eq {hash : String} {c : Candidate} {cs : List Candidate}
    (h : hash = c.hash) :
    last? hash (c :: cs) = some ((last? hash cs).getD c) := by
  simp [last?, h, List.getLast?_cons]

theorem last?_cons_of_ne {hash : String} {c : Candidate} {cs : List Candidate}
    (h : hash ≠ c.hash) :
    last? hash (c :: cs) = last? hash cs := by
  simp [last?, h.symm]

theorem exists_last? {hash : String} {cs : List Candidate} (h : hash ∈ cs.map (·.hash)) :
    ∃ c, last? hash cs = some c := by
  obtain ⟨c, hc, rfl⟩ := List.mem_map.1 h
  have hne : cs.filter (·.hash == c.hash) ≠ [] :=
    List.ne_nil_of_mem (List.mem_filter.2 ⟨hc, beq_self_eq_true _⟩)
  exact ⟨_, List.getLast?_eq_some_getLast hne⟩

end Candidate

/-! ## What a batch shows of an entry -/

namespace Entry

/-- The entry shows what the candidate says, since the given time. -/
structure Shows (c : Candidate) (now : Int) (e : Entry) : Prop where
  title : e.title = c.title
  url : e.url = c.url
  commentsUrl : e.commentsUrl = c.commentsUrl
  author : e.author = c.author
  content : e.content = c.content
  tags : e.tags = Json.TextArray.encode c.tags
  readingTime : e.readingTime = c.readingTime
  changedAt : e.changedAt = now

/-- The second row is the first one as far as no candidate has a say. -/
structure Persists (e e' : Entry) : Prop where
  id : e'.id = e.id
  userId : e'.userId = e.userId
  feedId : e'.feedId = e.feedId
  hash : e'.hash = e.hash
  publishedAt : e'.publishedAt = e.publishedAt
  createdAt : e'.createdAt = e.createdAt
  status : e'.status = e.status
  starred : e'.starred = e.starred
  shareCode : e'.shareCode = e.shareCode

/-- What becomes of a row when a batch updates a feed: if the batch names the entry, it shows
the last candidate that does, and otherwise it stays as it is. -/
structure Updates (feed : Id) (cs : List Candidate) (now : Int) (e e' : Entry) : Prop where
  persists : e.Persists e'
  shows : e.feedId = feed → e.hash ∈ cs.map (·.hash) →
    ∃ c, Candidate.last? e.hash cs = some c ∧ e'.Shows c now
  rest : e.feedId ≠ feed ∨ e.hash ∉ cs.map (·.hash) → e' = e

/-- The batch has a say in the entry. -/
def IsTold (feed : Id) (update : Bool) (cs : List Candidate) (e : Entry) : Prop :=
  update = true ∧ e.feedId = feed ∧ e.hash ∈ cs.map (·.hash)

/-- The entry after a candidate has been looked at. -/
def seen (feed : Id) (update : Bool) (now : Int) (e : Entry) (c : Candidate) : Entry :=
  if update && e.isItem feed c.hash then e.refreshed c now else e

variable {feed : Id} {update : Bool} {now : Int} {e : Entry} {c : Candidate}

theorem isItem_iff {hash : String} :
    e.isItem feed hash = true ↔ e.feedId = feed ∧ e.hash = hash := by
  simp [isItem]

theorem seen_of_not_isItem (h : e.isItem feed c.hash = false) : e.seen feed update now c = e := by
  simp [seen, h]

theorem seen_false : e.seen feed false now c = e := by
  simp [seen]

theorem seen_of_not_isTold (h : ¬ e.IsTold feed update [c]) : e.seen feed update now c = e := by
  refine if_neg fun htold => h ?_
  obtain ⟨hupdate, hitem⟩ := Bool.and_eq_true_iff.1 htold
  obtain ⟨hfeed, hhash⟩ := isItem_iff.1 hitem
  exact ⟨hupdate, hfeed, by simp [hhash]⟩

theorem foldl_seen_false (cs : List Candidate) : cs.foldl (seen feed false now) e = e := by
  induction cs with
  | nil => rfl
  | cons c cs ih => rw [List.foldl_cons, seen_false, ih]

/-- A new entry is not changed by the candidate that it was made from. -/
theorem seen_toEntry (user : Id) (id : Id) :
    (c.toEntry user feed now id).seen feed update now c = c.toEntry user feed now id := by
  unfold seen
  split
  · rfl
  · rfl

/-- What the batch leaves of an entry: the last candidate of its hash wins, whatever came
before. -/
theorem foldl_seen (he : e.feedId = feed) (cs : List Candidate) :
    cs.foldl (seen feed true now) e
      = match Candidate.last? e.hash cs with
        | some c => e.refreshed c now
        | none => e := by
  induction cs generalizing e with
  | nil => rfl
  | cons c cs ih =>
      by_cases hc : e.hash = c.hash
      · have hseen : e.seen feed true now c = e.refreshed c now := by
          rw [seen, isItem_iff.2 ⟨he, hc⟩]
          rfl
        rw [List.foldl_cons, hseen, ih (e := e.refreshed c now) he, Candidate.last?_cons_of_eq hc]
        show (match Candidate.last? e.hash cs with
          | some d => (e.refreshed c now).refreshed d now
          | none => e.refreshed c now) = _
        cases Candidate.last? e.hash cs with
        | none => rfl
        | some d => rfl
      · have hitem : e.isItem feed c.hash = false := by
          rw [Bool.eq_false_iff]
          exact fun h => hc (isItem_iff.1 h).2
        rw [List.foldl_cons, seen_of_not_isItem hitem, ih he, Candidate.last?_cons_of_ne hc]

/-- Entries that the batch does not name stay as they are. -/
theorem foldl_seen_of_not_mem {cs : List Candidate}
    (h : e.feedId ≠ feed ∨ e.hash ∉ cs.map (·.hash)) : cs.foldl (seen feed update now) e = e := by
  induction cs with
  | nil => rfl
  | cons c cs ih =>
      have hitem : e.isItem feed c.hash = false := by
        rw [Bool.eq_false_iff]
        intro hitem
        obtain ⟨hfeed, hhash⟩ := isItem_iff.1 hitem
        exact h.elim (fun hne => hne hfeed) fun hn => hn (by simp [hhash])
      rw [List.foldl_cons, seen_of_not_isItem hitem]
      exact ih (h.imp_right fun hn hmem => hn (List.mem_cons_of_mem _ hmem))

theorem updates_foldl_seen (cs : List Candidate) :
    e.Updates feed cs now (cs.foldl (seen feed true now) e) := by
  refine ⟨?_, fun hfeed hmem => ?_, foldl_seen_of_not_mem⟩
  · by_cases hfeed : e.feedId = feed
    · rw [foldl_seen hfeed]
      split
      · exact ⟨rfl, rfl, rfl, rfl, rfl, rfl, rfl, rfl, rfl⟩
      · exact ⟨rfl, rfl, rfl, rfl, rfl, rfl, rfl, rfl, rfl⟩
    · rw [foldl_seen_of_not_mem (Or.inl hfeed)]
      exact ⟨rfl, rfl, rfl, rfl, rfl, rfl, rfl, rfl, rfl⟩
  · obtain ⟨c, hc⟩ := Candidate.exists_last? hmem
    refine ⟨c, hc, ?_⟩
    rw [foldl_seen hfeed, hc]
    exact ⟨rfl, rfl, rfl, rfl, rfl, rfl, rfl, rfl⟩

/-- Whatever a batch makes of an entry, what readers have made of it stays. -/
theorem persists_foldl_seen (feed : Id) (update : Bool) (now : Int) (e : Entry)
    (cs : List Candidate) :
    e.Persists (cs.foldl (seen feed update now) e) := by
  cases update with
  | false =>
      rw [foldl_seen_false]
      exact ⟨rfl, rfl, rfl, rfl, rfl, rfl, rfl, rfl, rfl⟩
  | true => exact (updates_foldl_seen cs).persists

theorem foldl_seen_item (cs : List Candidate) :
    (cs.foldl (seen feed update now) e).feedId = e.feedId
      ∧ (cs.foldl (seen feed update now) e).hash = e.hash :=
  ⟨(persists_foldl_seen feed update now e cs).feedId,
    (persists_foldl_seen feed update now e cs).hash⟩

end Entry

end FeedStore

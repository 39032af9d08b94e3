import FeedStore.Proofs.OwnTags

/-!
# What a search finds

A search takes its text for a wildcard pattern and tries it on title and content. A text without
wildcards is found as a run of neighbouring characters, in either case of the ASCII letters
(`Condition.holds_search_iff`), by queries as well as along trails (`Reachable.searches_text`). But a
run that only looks like the text is found as well (`Reachable.not_forall_searches_text`).
-/

namespace FeedStore

open Text

/-- The text has no wildcard and no `U+0000`, and is short enough for a pattern. -/
structure PlainText (q : String) : Prop where
  short : q.utf8ByteSize ≤ 49998
  noPercent : '%' ∉ q.toList
  noUnderscore : '_' ∉ q.toList
  noNul : '\x00' ∉ q.toList

/-- The text looks like a run of neighbouring characters of the title or of the content, in either case
of the ASCII letters. Title and content are seen up to their first `U+0000`. -/
def Entry.Mentions (e : Entry) (q : String) : Prop :=
  Wildcard.seenChars q.toList <:+: Wildcard.seenChars (beforeNul e.title.toList)
    ∨ Wildcard.seenChars q.toList <:+: Wildcard.seenChars (beforeNul e.content.toList)

/-- The text is a run of neighbouring characters of the title or of the content, in either case of the
ASCII letters, with no other characters taken for each other. -/
def Entry.Spells (e : Entry) (q : String) : Prop :=
  foldChars q.toList <:+: foldChars (beforeNul e.title.toList)
    ∨ foldChars q.toList <:+: foldChars (beforeNul e.content.toList)

namespace Text.Wildcard

variable {p cs : List Char}

theorem matches_of_seenChars_eq (hp : '%' ∉ p) (h : seenChars p = seenChars cs) : Matches p cs := by
  induction p generalizing cs with
  | nil =>
      obtain rfl : cs = [] := List.map_eq_nil_iff.1 h.symm
      exact .nil
  | cons d p ih =>
      cases cs with
      | nil => cases h
      | cons c cs =>
          rw [List.mem_cons, not_or] at hp
          obtain ⟨hseen, hrest⟩ := List.cons.inj h
          exact .char (Ne.symm hp.1) (accepts_iff.2 (Or.inr hseen)) (ih hp.2 hrest)

/-- Without wildcards, a pattern between two `%` asks for a run of neighbours that looks like it. -/
theorem matches_within_iff (hp : '%' ∉ p) (hu : '_' ∉ p) :
    Matches ('%' :: (p ++ ['%'])) cs ↔ seenChars p <:+: seenChars cs := by
  constructor
  · intro h
    obtain ⟨mid, hmid, htaken⟩ := exists_of_matches_within hp h
    rw [seenChars_eq_of_takes hu htaken]
    exact hmid.map seen
  · rintro ⟨front, back, h⟩
    obtain ⟨left, back, rfl, hleft, -⟩ := List.map_eq_append_iff.1 h.symm
    obtain ⟨front, mid, rfl, -, hmid⟩ := List.map_eq_append_iff.1 hleft
    exact matches_within (matches_of_seenChars_eq hp hmid.symm) ⟨front, back, rfl⟩

end Text.Wildcard

/-! ## Searching for a text without wildcards -/

namespace Condition

variable {q text : String}

theorem toList_searchPattern (q : String) :
    (searchPattern q).toList = '%' :: (q.toList ++ ['%']) := by
  simp [searchPattern]

theorem mentions_iff (hq : '\x00' ∉ q.toList) :
    mentions q text = true
      ↔ Wildcard.Matches ('%' :: (q.toList ++ ['%'])) (beforeNul text.toList) := by
  have hpattern : beforeNul (searchPattern q).toList = (searchPattern q).toList := by
    refine beforeNul_eq_self ?_
    rw [toList_searchPattern]
    simp [hq]
  unfold mentions
  rw [Wildcard.matchText_iff, Wildcard.Fits, hpattern, toList_searchPattern]

/-- Two bytes of the pattern are the wildcards around the text. -/
theorem isTooLong_search (h : q.utf8ByteSize ≤ 49998) : (search q).isTooLong = false := by
  unfold isTooLong searchPattern
  rw [decide_eq_false_iff_not, String.utf8ByteSize_append, String.utf8ByteSize_append]
  show ¬ 1 + q.utf8ByteSize + 1 > 50000
  omega

theorem mentions_iff_isInfix (hq : PlainText q) :
    mentions q text = true
      ↔ Wildcard.seenChars q.toList <:+: Wildcard.seenChars (beforeNul text.toList) :=
  (mentions_iff hq.noNul).trans (Wildcard.matches_within_iff hq.noPercent hq.noUnderscore)

theorem holds_search_iff (hq : PlainText q) (l : Listed) :
    (search q).holds l = true ↔ l.entry.Mentions q := by
  unfold holds Entry.Mentions
  rw [Bool.or_eq_true, mentions_iff_isInfix hq, mentions_iff_isInfix hq]

end Condition

/-- A search for the empty text is none, but then every entry mentions it. -/
theorem Filter.admits_search_iff {q : String} (hq : PlainText q) (s : Store) (e : Entry) :
    (Filter.search q).Admits s e ↔ e.Mentions q := by
  have hfits : ∀ text, Wildcard.Fits (Condition.searchPattern q) text
      ↔ Wildcard.seenChars q.toList <:+: Wildcard.seenChars (beforeNul text.toList) := fun text =>
    Wildcard.matchText_iff.symm.trans (Condition.mentions_iff_isInfix hq)
  show (q ≠ "" → _) ↔ _
  unfold Entry.Mentions
  rw [hfits, hfits]
  refine ⟨fun h => ?_, fun h _ => h⟩
  by_cases hempty : q = ""
  · subst hempty
    exact Or.inl List.nil_infix
  · exact h hempty

/-! ### Limits -/

theorem Query.withinLimits_search (user : Id) {q : String} (hq : q.utf8ByteSize ≤ 49998) :
    (Query.built user [.filter (.search q)]).WithinLimits := by
  have hconds : (Query.built user [.filter (.search q)]).conditions
      = if q = "" then [] else [.search q] := by
    rw [built_eq]
    exact List.append_nil _
  have hterms : (Query.built user [.filter (.search q)]).terms.length ≤ maxTerms := by
    rw [built_eq]
    exact Nat.zero_le _
  by_cases hempty : q = ""
  · rw [if_pos hempty] at hconds
    exact ⟨conditionsFit_of_isPlain hconds rfl (Nat.zero_le _), hterms⟩
  · rw [if_neg hempty] at hconds
    refine ⟨⟨?_, ?_, ?_⟩, hterms⟩
    · unfold values allConditions
      rw [hconds]
      exact of_decide_eq_true rfl
    · unfold allConditions
      rw [hconds]
      exact of_decide_eq_true rfl
    · rw [hconds]
      exact List.forall_mem_singleton.2 (Condition.isTooLong_search hq)

theorem Trail.withinLimits_search (user anchor : Id) (tl : Timeline) (d : Direction) {q : String}
    (hq : q.utf8ByteSize ≤ 49998) :
    (Trail.filtered user anchor tl d [.search q]).WithinLimits := by
  rw [filtered_eq]
  by_cases hempty : q = ""
  · subst hempty
    exact ⟨of_decide_eq_true rfl, of_decide_eq_true rfl, fun c hc => nomatch hc⟩
  · have hconds : [Filter.search q].flatMap Filter.conditions = [.search q] :=
      (List.append_nil _).trans (if_neg hempty)
    rw [hconds]
    exact ⟨of_decide_eq_true rfl, of_decide_eq_true rfl,
      List.forall_mem_singleton.2 (Condition.isTooLong_search hq)⟩

/-! ### Along a trail -/

/-- On that side of the anchor the reader is led to the nearest of certain entries, or to none if
none of them is there. -/
def Timeline.LeadsTo (tl : Timeline) (side : Side) (a : Entry) (P : Entry → Prop) :
    Option Sibling → Prop
  | none => ∀ e, P e → ¬ tl.LiesOn side a e
  | some x => ∃ e, P e ∧ tl.LiesOn side a e ∧ x = ⟨e.id, e.title⟩
      ∧ ∀ e', P e' → tl.LiesOn side a e' → tl.Nearer side e e'

namespace Trail

variable {s : Store} {user anchor : Id} {tl : Timeline} {d : Direction} {fs : List Filter}

/-- The entries that a trail with filters goes along. -/
theorem mem_matching_filtered (hs : s.Integrity) {l : Listed} :
    l ∈ (filtered user anchor tl d fs).matching s
      ↔ l ∈ s.listed ∧ l.entry.userId = user ∧ l.entry.status ≠ .known .removed
        ∧ ∀ f ∈ fs, f.Admits s l.entry := by
  rw [filtered_eq, mem_matching]
  refine and_congr_right fun hl => ?_
  have hjoins := Store.joins_of_mem_listed hl
  unfold query Query.allConditions
  rw [List.forall_mem_cons, List.forall_mem_cons, List.forall_mem_flatMap]
  refine and_congr beq_iff_eq (and_congr bne_iff_ne ?_)
  exact forall₂_congr fun f _ => f.forall_holds_iff hs hjoins

/-- The neighbour on a side is the nearest of the entries that the trail goes along. -/
theorem leadsTo_nearestTo {t : Trail} (hs : s.Integrity) {P : Entry → Prop}
    (hrow : ∀ e, P e → e ∈ s.entries.rows) (hP : ∀ m ∈ s.listed, m ∈ t.matching s ↔ P m.entry)
    (side : Side) (l : Listed) :
    t.timeline.LeadsTo side l.entry P ((t.nearestTo side l s).map Listed.sibling) := by
  have hmatch : ∀ e, P e → ∃ m ∈ t.matching s, m.entry = e := by
    intro e he
    obtain ⟨m, hm, rfl⟩ := hs.exists_listed (hrow e he)
    exact ⟨m, (hP m hm).2 he, rfl⟩
  cases h : t.nearestTo side l s with
  | none =>
      intro e he hside
      obtain ⟨m, hm, rfl⟩ := hmatch e he
      obtain ⟨n, -, hn, -⟩ := exists_nearestTo hm hside
      rw [h] at hn
      cases hn
  | some m =>
      obtain ⟨hm, hmin⟩ := of_nearest? h
      simp only [List.mem_filter, liesOn_iff] at hm hmin
      refine ⟨m.entry, (hP m (mem_matching.1 hm.1).1).1 hm.1, hm.2, rfl, fun e he hside => ?_⟩
      obtain ⟨n, hn, rfl⟩ := hmatch e he
      exact hmin n ⟨hn, hside⟩

/-- What a reader is led to along a trail with filters. -/
theorem leadsTo_neighbours {s : Session} (hs : Reachable s) {a : Entry}
    (ha : a ∈ s.store.entries.rows) (huser : a.userId = user)
    (ht : (filtered user a.id tl d fs).WithinLimits) :
    ∃ before after, (Action.neighbours (filtered user a.id tl d fs)).perform s
        = (.ok (d.arrange before after), s)
      ∧ ∀ side, tl.LeadsTo side a
        (fun e => e ∈ s.store.entries.rows ∧ e.userId = user ∧ e.status ≠ .known .removed
          ∧ ∀ f ∈ fs, f.Admits s.store e) (side.pick before after) := by
  obtain ⟨l, hl, rfl⟩ := hs.integrity.exists_listed ha
  have hdirection : (filtered user l.entry.id tl d fs).direction = d := by rw [filtered_eq]
  have htimeline : (filtered user l.entry.id tl d fs).timeline = tl := by rw [filtered_eq]
  have howner : l.entry.userId = (filtered user l.entry.id tl d fs).user := by
    rw [filtered_eq]
    exact huser
  have hanswer := Action.perform_neighbours_of_listed hs ht hl howner
  rw [anchoredAt_filtered, hdirection] at hanswer
  refine ⟨_, _, hanswer, fun side => ?_⟩
  have hleads := leadsTo_nearestTo (t := filtered user l.entry.id tl d fs) hs.integrity
    (P := fun e => e ∈ s.store.entries.rows ∧ e.userId = user ∧ e.status ≠ .known .removed
      ∧ ∀ f ∈ fs, f.Admits s.store e) (fun e he => he.1) (fun m hm => by
        rw [mem_matching_filtered hs.integrity]
        simp only [hm, (Store.of_mem_listed hm).1, true_and]) side l
  rw [htimeline] at hleads
  cases side with
  | before => exact hleads
  | after => exact hleads

end Trail

/-- A search for a text without wildcards holds of the entries that mention the text. In a reachable
session a query with the search is answered with those of them that its other additions admit, and
along a trail with the search a reader gets from any entry to the nearest of those that the other
filters admit. The search alone never exceeds the limits of the engine. -/
theorem Reachable.searches_text {s : Session} (hs : Reachable s) {q : String} (hq : PlainText q)
    (user : Id) :
    (∀ l : Listed, (Condition.search q).holds l = true ↔ l.entry.Mentions q)
      ∧ (Query.built user [.filter (.search q)]).WithinLimits
      ∧ (∀ as, (Query.built user (as ++ [.filter (.search q)])).WithinLimits →
          ∃ ls, Query.Answers user (as ++ [.filter (.search q)]) s ls
            ∧ (ls.map (·.entry.id)).Nodup
            ∧ ∀ e, (∃ l ∈ ls, l.entry = e) ↔ e ∈ s.store.entries.rows ∧ e.userId = user
              ∧ (∀ a ∈ as, a.Admits s.store e) ∧ e.Mentions q)
      ∧ (∀ anchor tl d, (Trail.filtered user anchor tl d [.search q]).WithinLimits)
      ∧ ∀ tl d fs, ∀ a ∈ s.store.entries.rows, a.userId = user →
          (Trail.filtered user a.id tl d (fs ++ [.search q])).WithinLimits →
            ∃ before after,
              (Action.neighbours (Trail.filtered user a.id tl d (fs ++ [.search q]))).perform s
                  = (.ok (d.arrange before after), s)
                ∧ ∀ side, tl.LeadsTo side a
                  (fun e => e ∈ s.store.entries.rows ∧ e.userId = user
                    ∧ e.status ≠ .known .removed ∧ (∀ f ∈ fs, f.Admits s.store e) ∧ e.Mentions q)
                  (side.pick before after) := by
  refine ⟨Condition.holds_search_iff hq, Query.withinLimits_search user hq.short,
    fun as has => ?_, fun anchor tl d => Trail.withinLimits_search user anchor tl d hq.short,
    fun tl d fs a ha huser ht => ?_⟩
  · have hdenotes := Query.denotes_sorted hs.integrity user (as ++ [.filter (.search q)])
    refine ⟨_, Query.answers_sorted hs has, hdenotes.once, fun e => ?_⟩
    rw [hdenotes.mem_iff, List.forall_mem_append, List.forall_mem_singleton]
    exact and_congr_right fun _ => and_congr_right fun _ => and_congr_right fun _ =>
      Filter.admits_search_iff hq s.store e
  · have hleads := Trail.leadsTo_neighbours hs ha huser ht
    simpa only [List.forall_mem_append, List.forall_mem_singleton, Filter.admits_search_iff hq]
      using hleads

/-- Of four entries one holds the text in its title, in other letters, and one in its content; in
the title of another it stands behind a `U+0000`. -/
theorem Reachable.searches_text_tokio :
    ∃ s ls, Reachable s ∧ Query.Answers 1 [.filter (.search "tokio")] s ls ∧ ls.length = 2
      ∧ (∀ e, (∃ l ∈ ls, l.entry = e)
          ↔ e ∈ s.store.entries.rows ∧ e.userId = 1 ∧ e.Mentions "tokio")
      ∧ ∃ a ∈ s.store.entries.rows, ∃ before after, a.title = "last"
        ∧ (Action.neighbours (Trail.filtered 1 a.id .publication .ascending
            [.search "tokio"])).perform s = (.ok (before, after), s)
        ∧ before.map (·.title) = some "news"
        ∧ Timeline.publication.LeadsTo .before a
          (fun e => e ∈ s.store.entries.rows ∧ e.userId = 1 ∧ e.status ≠ .known .removed
            ∧ e.Mentions "tokio") before := by
  let s := Session.subscribed.run
    [.refreshFeed 1 1 [{ Candidate.bare "a" 1 with title := "Tokio 1.0" },
      { Candidate.bare "b" 2 with title := "news", content := "on TOKIO" },
      { Candidate.bare "c" 3 with title := "a\x00tokio" },
      { Candidate.bare "d" 4 with title := "last" }] false]
  have hs : Reachable s := Reachable.subscribed.run _
  have hq : PlainText "tokio" := ⟨by decide, by decide, by decide, by decide⟩
  obtain ⟨-, hlimits, hquery, htrails, htrail⟩ := hs.searches_text hq 1
  obtain ⟨ls, hanswers, -, hmem⟩ := hquery [] hlimits
  have hcount : ((Action.countEntries (Query.built 1 [.filter (.search "tokio")])).perform s).1
      = .ok 2 := by decide +kernel
  rw [List.nil_append] at hanswers
  rw [hanswers.count] at hcount
  obtain ⟨a, ha, huser, htitle, hnews⟩ : ∃ a ∈ s.store.entries.rows, a.userId = 1
      ∧ a.title = "last" ∧ ((Action.neighbours (Trail.filtered 1 a.id .publication .ascending
          [.search "tokio"])).perform s).1 = .ok (some ⟨2, "news"⟩, none) := by decide +kernel
  obtain ⟨before, after, hperform, hleads⟩ :=
    htrail .publication .ascending [] a ha huser (htrails a.id _ _)
  refine ⟨s, ls, hs, hanswers, Except.ok.inj hcount, by simpa using hmem, a, ha, before, after,
    htitle, hperform, ?_, by simpa [Side.pick] using hleads .before⟩
  rw [List.nil_append] at hperform
  rw [hperform] at hnews
  rw [(Prod.mk.inj (Except.ok.inj hnews)).1]
  rfl

/-- What a search finds need not spell its text: no text but `U+FFFE` itself spells it, and yet it is
found in a title that holds `U+FFFF`. -/
theorem Reachable.not_forall_searches_text :
    ¬ ∀ (s : Session) (q : String), Reachable s → PlainText q → q ≠ "" → ∀ l ∈ s.store.listed,
      ((Condition.search q).holds l = true ↔ l.entry.Spells q) := by
  intro h
  let s := Session.subscribed.run
    [.refreshFeed 1 1 [{ Candidate.bare "a" 1 with title := "a\uffffb" }] false]
  have hs : Reachable s := Reachable.subscribed.run _
  have hq : PlainText "\ufffe" := ⟨by decide, by decide, by decide, by decide⟩
  obtain ⟨l, hl, htitle, hcontent, hholds⟩ : ∃ l ∈ s.store.listed, l.entry.title = "a\uffffb"
      ∧ l.entry.content = "" ∧ (Condition.search "\ufffe").holds l = true := by decide +kernel
  have hspells := (h s "\ufffe" hs hq (by decide) l hl).1 hholds
  unfold Entry.Spells at hspells
  rw [htitle, hcontent] at hspells
  have hnone : ∀ text : String, text = "a\uffffb" ∨ text = "" →
      ¬ foldChars "\ufffe".toList <:+: foldChars (beforeNul text.toList) := by
    rintro text (rfl | rfl) hrun
    · exact absurd (hrun.subset List.mem_cons_self) (by decide)
    · exact absurd (hrun.subset List.mem_cons_self) (by decide)
  exact hspells.elim (hnone _ (Or.inl rfl)) (hnone _ (Or.inr rfl))

end FeedStore

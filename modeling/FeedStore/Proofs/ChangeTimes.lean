import FeedStore.Proofs.Denotation
import FeedStore.Proofs.EntryChanges

/-!
# The time of the last change

Who follows a store asks for what has changed since the last look, and trusts that every change of
an entry shows in its time of change. Each kind of change sets that time or is one of the three that
are not meant to show: archiving, sharing, and ending that, which concern nothing but status and
share code (`Command.stamps_next`). As long as the clock is not set back, an entry is therefore
never changed before it was created, nor in the future (`Session.Timely.run`), and an entry that has
been changed after a moment is found by asking for what has changed since then, for as long as it is
there (`Session.ChangedSince.run`).
-/

namespace FeedStore

/-! ## Changes and their time -/

/-- A batch that changes an entry changes it now. -/
theorem Entry.foldl_seen_changedAt (feed : Id) (update : Bool) (now : Int) (e : Entry)
    (cs : List Candidate) :
    cs.foldl (seen feed update now) e = e
      ∨ (cs.foldl (seen feed update now) e).changedAt = now := by
  cases update with
  | false => exact Or.inl (foldl_seen_false cs)
  | true =>
      have hupdates : e.Updates feed cs now (cs.foldl (seen feed true now) e) :=
        updates_foldl_seen cs
      by_cases htold : e.feedId = feed ∧ e.hash ∈ cs.map (·.hash)
      · obtain ⟨c, -, hshows⟩ := hupdates.shows htold.1 htold.2
        exact Or.inr hshows.changedAt
      · exact Or.inl (hupdates.rest (not_and_or.1 htold))

namespace Command

variable {c : Command} {s : Session} {e e' : Entry}

/-- What the command changes of an entry is not meant to show in its time of change. -/
def keepsTime : Command → Bool
  | archive _ _ _ | share _ _ _ | unshare _ _ => true
  | _ => false

/-- The first entry may have become the second one: a change is made now, unless it archives the
entry or concerns its share code, and then nothing else is changed. -/
def Stamps (c : Command) (s : Session) (e e' : Entry) : Prop :=
  match c with
  | archive _ _ _ => e' = { e with status := e'.status }
  | share _ _ _ | unshare _ _ => e' = { e with shareCode := e'.shareCode }
  | _ => e' = e ∨ e'.changedAt = s.now

theorem stamps_self (c : Command) (s : Session) (e : Entry) : c.Stamps s e e := by
  cases c with
  | archive status days limit => rfl
  | share user entry drawn => rfl
  | unshare user entry => rfl
  | _ => exact Or.inl rfl

theorem stamps_iff (hc : c.keepsTime = false) :
    c.Stamps s e e' ↔ e' = e ∨ e'.changedAt = s.now := by
  cases c with
  | archive status days limit => cases hc
  | share user entry drawn => cases hc
  | unshare user entry => cases hc
  | _ => exact Iff.rfl

theorem Stamps.changedAt (h : c.Stamps s e e') :
    e'.changedAt = e.changedAt ∨ e'.changedAt = s.now := by
  cases hc : c.keepsTime with
  | false => exact ((stamps_iff hc).1 h).imp_left (congrArg Entry.changedAt)
  | true =>
      refine Or.inl ?_
      cases c with
      | archive status days limit => rw [show e' = { e with status := e'.status } from h]
      | share user entry drawn => rw [show e' = { e with shareCode := e'.shareCode } from h]
      | unshare user entry => rw [show e' = { e with shareCode := e'.shareCode } from h]
      | _ => cases hc

theorem Sets.keepsTime {status : Status} (h : c.Sets e status) : c.keepsTime = false := by
  cases c with
  | setStatus user ids given => rfl
  | setStatusCount user ids given => rfl
  | _ => exact h.elim

theorem Marks.keepsTime {t : Store} (h : c.Marks t e) : c.keepsTime = false := by
  cases c with
  | markAll user => rfl
  | markAllBefore user before => rfl
  | markFeed user feed before => rfl
  | markCategory user category before => rfl
  | markShown user => rfl
  | _ => exact h.elim

theorem Stars.keepsTime {starred : Bool} (h : c.Stars e starred) : c.keepsTime = false := by
  cases c with
  | setStar user ids given => rfl
  | toggleStar user entry => rfl
  | _ => exact h.elim

/-- Every kind of change is made now or is one of the three that do not show. -/
theorem Edits.stamps (h : c.Edits s e e') : c.Stamps s e e' := by
  cases h with
  | status h => exact (stamps_iff h.keepsTime).2 (Or.inr rfl)
  | mark h _ => exact (stamps_iff h.keepsTime).2 (Or.inr rfl)
  | flush h _ _ _ =>
      subst h
      exact Or.inr rfl
  | archive h _ _ _ =>
      subst h
      rfl
  | star h => exact (stamps_iff h.keepsTime).2 (Or.inr rfl)
  | text h =>
      subst h
      exact Or.inr rfl
  | @refresh user feed cs front update h _ =>
      subst h
      exact Entry.foldl_seen_changedAt feed update s.now e front
  | share h _ =>
      subst h
      rfl
  | unshare h =>
      subst h
      rfl

/-- A new entry has been created and changed now. -/
theorem Adds.times (h : c.Adds s e') : e'.createdAt = s.now ∧ e'.changedAt = s.now := by
  cases c with
  | refreshFeed user feed cs update =>
      obtain ⟨-, front, -, d, -, he'⟩ := h
      have hcreated := (Entry.persists_foldl_seen feed update s.now
        (d.toEntry user feed s.now e'.id) front).createdAt
      rw [← he'] at hcreated
      refine ⟨hcreated, ?_⟩
      rcases Entry.foldl_seen_changedAt feed update s.now
        (d.toEntry user feed s.now e'.id) front with hsame | hnow
      · rw [← he'] at hsame
        rw [hsame]
        rfl
      · rwa [← he'] at hnow
  | _ => exact h.elim

/-- Whatever the command is, what it has done to an entry that is there before and after it shows in
the time of change, or is not meant to. -/
theorem stamps_next (c : Command) (hs : Reachable s) (he : e ∈ s.store.entries.rows)
    (he' : e' ∈ (c.next s).store.entries.rows) (hid : e'.id = e.id) : c.Stamps s e e' := by
  rcases c.edits_next hs he he' hid with rfl | hedit
  · exact c.stamps_self s e'
  · exact hedit.stamps

/-- A row that was not there before the command has been written now. -/
theorem changedAt_of_not_mem (hs : Reachable s) (hc : c.keepsTime = false)
    (he' : e' ∈ (c.next s).store.entries.rows) (hnew : e' ∉ s.store.entries.rows) :
    e'.changedAt = s.now := by
  rcases c.origin_next hs he' with ⟨e, he, rfl | hedit⟩ | hadds
  · exact absurd he hnew
  · rcases (stamps_iff hc).1 hedit.stamps with rfl | hnow
    · exact absurd he hnew
    · exact hnow
  · exact hadds.times.2

/-! ## The clock -/

/-- The clock is set back. -/
def SetsBack : Command → Session → Prop
  | setClock now, s => now < s.now
  | _, _ => False

theorem now_le_next (hc : ¬ c.SetsBack s) : s.now ≤ (c.next s).now := by
  rw [(c.takes_next s).now]
  cases c with
  | setClock now => exact not_lt.1 hc
  | _ => exact le_rfl

end Command

namespace Session

variable {s : Session} {c : Command} {cs : List Command}

/-! ## Times of creation and change -/

/-- No entry has been changed before it was created, and none in the future. -/
def Timely (s : Session) : Prop :=
  ∀ e ∈ s.store.entries.rows, e.createdAt ≤ e.changedAt ∧ e.changedAt ≤ s.now

theorem Timely.next (h : s.Timely) (hs : Reachable s) (hc : ¬ c.SetsBack s) :
    (c.next s).Timely := by
  intro e' he'
  have hclock := Command.now_le_next hc
  rcases c.origin_next hs he' with ⟨e, he, rfl | hedit⟩ | hadds
  · exact ⟨(h e' he).1, (h e' he).2.trans hclock⟩
  · obtain ⟨hcreated, hchanged⟩ := h e he
    rw [hedit.endures.createdAt]
    rcases hedit.stamps.changedAt with hsame | hnow
    · rw [hsame]
      exact ⟨hcreated, hchanged.trans hclock⟩
    · rw [hnow]
      exact ⟨hcreated.trans hchanged, hclock⟩
  · rw [hadds.times.1, hadds.times.2]
    exact ⟨le_rfl, hclock⟩

theorem Timely.run (h : s.Timely) (hs : Reachable s) (hcs : s.RunsWithout Command.SetsBack cs) :
    (s.run cs).Timely := by
  induction cs generalizing s with
  | nil => exact h
  | cons c cs ih => exact ih (h.next hs hcs.head) (hs.step c) hcs.tail

/-! ## What has changed since -/

/-- The moment has passed, and what the entry with that identifier looks like was written after
it. -/
def ChangedSince (time : Int) (entry : Id) (s : Session) : Prop :=
  time < s.now ∧ ∀ e ∈ s.store.entries.rows, e.id = entry → time < e.changedAt

variable {time : Int} {entry : Id}

theorem ChangedSince.next (h : s.ChangedSince time entry) (hs : Reachable s)
    (hc : ¬ c.SetsBack s) : (c.next s).ChangedSince time entry := by
  obtain ⟨hpassed, hchanged⟩ := h
  refine ⟨hpassed.trans_le (Command.now_le_next hc), fun e' he' hid => ?_⟩
  rcases c.origin_next hs he' with ⟨e, he, rfl | hedit⟩ | hadds
  · exact hchanged e' he hid
  · rcases hedit.stamps.changedAt with hsame | hnow
    · rw [hsame]
      exact hchanged e he (hedit.endures.id.symm.trans hid)
    · rwa [hnow]
  · rwa [hadds.times.2]

theorem ChangedSince.run (h : s.ChangedSince time entry) (hs : Reachable s)
    (hcs : s.RunsWithout Command.SetsBack cs) : (s.run cs).ChangedSince time entry := by
  induction cs generalizing s with
  | nil => exact h
  | cons c cs ih => exact ih (h.next hs hcs.head) (hs.step c) hcs.tail

/-- A command that writes an entry after the moment leaves it changed since. -/
theorem changedSince_next (hs : Reachable s) (hc : c.keepsTime = false) (hclock : ¬ c.SetsBack s)
    (hpassed : time < s.now) {e' : Entry} (he' : e' ∈ (c.next s).store.entries.rows)
    (hnew : e' ∉ s.store.entries.rows) : (c.next s).ChangedSince time e'.id := by
  refine ⟨hpassed.trans_le (Command.now_le_next hclock), fun a ha hid => ?_⟩
  obtain rfl := (hs.step c).integrity.entries.distinct.eq_of_eq ha he' hid
  rwa [Command.changedAt_of_not_mem hs hc ha hnew]

end Session

/-- The query of a user for what has changed after a moment. -/
def Query.changedSince (user : Id) (time : Int) : Query := ({ user } : Query).changedAfter time

theorem Query.withinLimits_changedSince (user : Id) (time : Int) :
    (changedSince user time).WithinLimits := by
  have hcs : (changedSince user time).conditions = [.changedAfter time] := rfl
  exact ⟨conditionsFit_of_isPlain hcs rfl (by simp), Nat.zero_le _⟩

/-- Without limit and offset the whole listing is left. -/
theorem Query.window_changedAfter (time : Int) (ls : List Listed) :
    window [.changedAfter time] ls = ls := List.take_length

namespace Session

/-- Asked by its user for what has changed after the moment, the session answers with the entry
among others. -/
structure ListsChanged (time : Int) (e : Entry) (s : Session) : Prop where
  ids : ∃ ids, (Action.entryIds (.changedSince e.userId time)).perform s = (.ok ids, s)
    ∧ e.id ∈ ids
  entries : ∃ vs, (Action.entries (.changedSince e.userId time)).perform s = (.ok vs, s)
    ∧ ∃ v ∈ vs, ∃ l : Listed, l.entry = e ∧ l.ShownAs s.store v

theorem ChangedSince.listsChanged {s : Session} {time : Int} {e : Entry}
    (h : s.ChangedSince time e.id) (hs : Reachable s) (he : e ∈ s.store.entries.rows) :
    s.ListsChanged time e := by
  have hanswers : Query.Answers e.userId [.changedAfter time] s _ :=
    Query.answers_sorted hs (Query.withinLimits_changedSince e.userId time)
  have hdenotes := Query.denotes_sorted hs.integrity e.userId [.changedAfter time]
  have hadmits : ∀ a ∈ [Addition.changedAfter time], a.Admits s.store e := by
    intro a ha
    rw [List.mem_singleton.1 ha]
    exact h.2 e he rfl
  obtain ⟨l, hl, rfl⟩ := (hdenotes.mem_iff e).2 ⟨he, rfl, hadmits⟩
  obtain ⟨vs, hvs, hshown, -⟩ := hanswers.entries
  have hids := hanswers.ids
  rw [Query.window_changedAfter] at hshown hids
  refine ⟨⟨_, hids, List.mem_map_of_mem hl⟩, vs, hvs, ?_⟩
  obtain ⟨i, hi⟩ := List.mem_iff_get.1 hl
  have hlt : i < vs.length := hshown.length_eq ▸ i.isLt
  have hrow := hshown.get i.isLt hlt
  rw [hi] at hrow
  exact ⟨_, List.get_mem vs ⟨i, hlt⟩, l, rfl, hrow⟩

end Session

/-- Whatever a command does to an entry is done now or is not meant to show, and an entry keeps its
times of creation and publication. Over a run on which the clock is not set back, no entry was
changed before it was created nor in the future, and an entry that a command has written after a
moment, other than by archiving or sharing it, is among those that its user gets by asking for
what has changed since, until it is gone. -/
theorem Reachable.stamps_changes {s : Session} (hs : Reachable s) :
    (∀ c : Command, ∀ e ∈ s.store.entries.rows, ∀ e' ∈ (c.next s).store.entries.rows,
        e'.id = e.id → c.Stamps s e e')
      ∧ (∀ cs, ∀ e ∈ s.store.entries.rows, ∀ e' ∈ (s.run cs).store.entries.rows, e'.id = e.id →
          e'.createdAt = e.createdAt ∧ e'.publishedAt = e.publishedAt)
      ∧ (∀ now cs, ({ now } : Session).RunsWithout Command.SetsBack cs →
          (({ now } : Session).run cs).Timely)
      ∧ ∀ time c cs, c.keepsTime = false → time < s.now →
          s.RunsWithout Command.SetsBack (c :: cs) →
            ∀ e' ∈ (c.next s).store.entries.rows, e' ∉ s.store.entries.rows →
              ∀ a ∈ (s.run (c :: cs)).store.entries.rows, a.id = e'.id →
                (s.run (c :: cs)).ListsChanged time a := by
  refine ⟨fun c e he e' he' hid => c.stamps_next hs he he' hid, fun cs e he e' he' hid => ?_,
    fun now cs hcs => ?_, fun time c cs hc hpassed hcs e' he' hnew a ha hid => ?_⟩
  · by_contra hother
    obtain ⟨front, c, back, -, b, hb, -, hsame, b', hb', hbid, hchanged⟩ :=
      Session.exists_change
        (Q := fun a => a.createdAt = e.createdAt ∧ a.publishedAt = e.publishedAt) hs he he' hid
        ⟨rfl, rfl⟩ hother
    rcases c.edits_next (hs.run front) hb hb' hbid with rfl | hedit
    · exact hchanged hsame
    · exact hchanged ⟨hedit.endures.createdAt.trans hsame.1,
        hedit.endures.publishedAt.trans hsame.2⟩
  · refine Session.Timely.run (fun e he => ?_) (.fresh now) hcs
    cases he
  · have hsince : (c.next s).ChangedSince time e'.id :=
      Session.changedSince_next hs hc hcs.head hpassed he' hnew
    have hend := hsince.run (hs.step c) hcs.tail
    rw [← hid] at hend
    exact hend.listsChanged (hs.run (c :: cs)) ha

/-- An entry that is starred at ten, and shared and archived later on, has changed since five. -/
theorem Reachable.stamps_changes_starred :
    ∃ s a, Reachable s ∧ s.now = 10
      ∧ a ∈ (s.run [.toggleStar 1 1, .setClock 20, .share 1 1 "k"]).store.entries.rows
      ∧ a.shareCode = "k"
      ∧ (s.run [.toggleStar 1 1, .setClock 20, .share 1 1 "k"]).ListsChanged 5 a := by
  let s := Session.subscribed.run [.refreshFeed 1 1 [.bare "a" 1, .bare "b" 2] false, .setClock 10]
  have hs : Reachable s := Reachable.subscribed.run _
  have hclock : ¬ (20 : Int) < ((Command.toggleStar 1 1).next s).now := by decide +kernel
  have hcs : s.RunsWithout Command.SetsBack [.toggleStar 1 1, .setClock 20, .share 1 1 "k"] :=
    .cons id (.cons hclock (.cons id (Session.runsWithout_of_forall (by simp))))
  obtain ⟨e', he', hid, hnew⟩ :
      ∃ e' ∈ ((Command.toggleStar 1 1).next s).store.entries.rows,
        e'.id = 1 ∧ e' ∉ s.store.entries.rows := by decide +kernel
  obtain ⟨a, ha, haid, hcode⟩ :
      ∃ a ∈ (s.run [.toggleStar 1 1, .setClock 20, .share 1 1 "k"]).store.entries.rows,
        a.id = 1 ∧ a.shareCode = "k" := by decide +kernel
  obtain ⟨-, -, -, hlists⟩ := hs.stamps_changes
  exact ⟨s, a, hs, rfl, ha, hcode, hlists 5 (.toggleStar 1 1) [.setClock 20, .share 1 1 "k"] rfl
    (by decide +kernel) hcs e' he' hnew a ha (haid.trans hid.symm)⟩

end FeedStore

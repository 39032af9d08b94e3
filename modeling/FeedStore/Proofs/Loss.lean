import FeedStore.Proofs.Ownership
import FeedStore.Proofs.StatusMoves

/-!
# Which entries are lost

Sweeps and the removal of feeds, categories and users are all that takes entries away, and each
of them takes away exactly the entries that it is about (`Command.Drops`, `Work.Drops`), with
their enclosures and no other ones. That the enclosures of a user who is removed are those of
the entries that go rests on their entries' being the user's own (`Store.EnclosuresOwned`).
-/

namespace FeedStore

/-! ## Stores with and without some entries -/

namespace Store

open Table

variable {s t u : Store} {P : Entry → Prop} {p : Entry → Bool}

/-- The entries that are gone afterwards are exactly these. -/
def Loses (s t : Store) (P : Entry → Prop) : Prop :=
  ∀ e ∈ s.entries.rows, t.hasEntry e.id = false ↔ P e

/-- The enclosures are the same afterwards but for exactly those of these entries. -/
def LosesAttached (s t : Store) (P : Entry → Prop) : Prop :=
  ∀ x, x ∈ t.enclosures.rows
    ↔ x ∈ s.enclosures.rows ∧ ¬ ∃ e ∈ s.entries.rows, e.id = x.entryId ∧ P e

theorem Without.loses (h : s.Without t p) (hd : s.entries.Distinct (·.id))
    (hp : ∀ e ∈ s.entries.rows, p e = true ↔ P e) : s.Loses t P ∧ s.LosesAttached t P := by
  refine ⟨fun e he => ?_, fun x => ?_⟩
  · rw [← hp e he, hasEntry, h.entries, Bool.eq_false_iff, Ne, holds_id_iff]
    constructor
    · intro hgone
      by_contra hkept
      exact hgone ⟨e, mem_rows_erase.2 ⟨he, by simpa using hkept⟩, rfl⟩
    · -- no other row has the identifier of one that goes
      rintro hpe ⟨e', he', hid⟩
      obtain ⟨he', hkept⟩ := mem_rows_erase.1 he'
      obtain rfl := hd.eq_of_eq he' he hid
      rw [hpe] at hkept
      cases hkept
  · rw [h.enclosures, mem_rows_erase, Bool.eq_false_iff, Ne, List.contains_iff_mem, mem_entryIds]
    refine and_congr_right fun _ => not_congr ⟨?_, ?_⟩
    · rintro ⟨e, he, hpe, hid⟩
      exact ⟨e, he, hid, (hp e he).1 hpe⟩
    · rintro ⟨e, he, hid, hpe⟩
      exact ⟨e, he, (hp e he).2 hpe, hid⟩

/-- A store that keeps every entry loses none. -/
theorem Keeps.loses {R : Entry → Entry → Prop} (h : s.Keeps R t) (hP : ∀ e, ¬ P e) :
    s.Loses t P := by
  intro e he
  obtain ⟨e', he', hid, -⟩ := h e he
  have hthere : t.hasEntry e.id = true := holds_id_iff.2 ⟨e', he', hid⟩
  rw [hthere]
  refine ⟨fun hfalse => ?_, fun hdrops => absurd hdrops (hP e)⟩
  cases hfalse

/-! ## What goes along -/

theorem without_eraseFeeds (s : Store) (p : Feed → Bool) :
    s.Without (s.eraseFeeds p) fun e => (s.feedIds p).contains e.feedId := ⟨rfl, rfl⟩

theorem without_eraseCategories (s : Store) (p : Category → Bool) :
    s.Without (s.eraseCategories p) fun e =>
      (s.feedIds fun f => (s.categoryIds p).contains f.categoryId).contains e.feedId := ⟨rfl, rfl⟩

theorem without_withoutFeed (s : Store) (user feed : Id) :
    s.Without (s.withoutFeed user feed) fun e =>
      e.isOf user feed || (s.feedIds (ownFeed user feed)).contains e.feedId := by
  have hentries : s.Without (s.eraseEntries (Entry.isOf user feed)) (Entry.isOf user feed) :=
    ⟨rfl, rfl⟩
  exact hentries.trans (without_eraseFeeds _ _) fun e _ => Bool.or_eq_true_iff

/-- The enclosures of a user are attached to entries that go with the user. -/
theorem without_eraseUser (ho : s.EnclosuresOwned) (user : Id) :
    s.Without (s.eraseUser user) (entryGoesWith user
      (s.feedIds (feedGoesWith user (s.categoryIds (categoryGoesWith user))))) := by
  refine ⟨rfl, erase_congr fun x hx => ?_⟩
  rw [enclosureGoesWith, Bool.or_eq_right_iff_imp, List.contains_iff_mem, mem_entryIds]
  -- an enclosure that goes as the user's own would also go with its entry
  intro huser
  obtain ⟨e, he, hown⟩ := ho x hx
  obtain ⟨huser', hid⟩ := Bool.and_eq_true_iff.1 hown
  refine ⟨e, he, ?_, beq_iff_eq.1 hid⟩
  simp only [beq_iff_eq] at huser huser'
  simp [entryGoesWith, huser', huser]

/-- The entry, its feed or the category of its feed is the user's. -/
def BelongsTo (s : Store) (user : Id) (e : Entry) : Prop :=
  e.userId = user
    ∨ ∃ f ∈ s.feeds.rows, f.id = e.feedId
      ∧ (f.userId = user ∨ ∃ c ∈ s.categories.rows, c.id = f.categoryId ∧ c.userId = user)

theorem entryGoesWith_iff {user : Id} {e : Entry} :
    entryGoesWith user (s.feedIds (feedGoesWith user (s.categoryIds (categoryGoesWith user)))) e
      = true ↔ s.BelongsTo user e := by
  simp only [entryGoesWith, feedGoesWith, categoryGoesWith, Bool.or_eq_true, beq_iff_eq,
    List.contains_iff_mem, mem_feedIds, mem_categoryIds]
  refine or_congr_right (exists_congr fun f => and_congr_right fun _ => ?_)
  rw [and_comm]
  refine and_congr_right fun _ => or_congr_right (exists_congr fun c => ?_)
  exact and_congr_right fun _ => and_comm

/-- A user to whom some entry belongs is there. -/
theorem BelongsTo.hasUser {user : Id} {e : Entry} (hs : s.Integrity) (he : e ∈ s.entries.rows)
    (h : s.BelongsTo user e) : s.hasUser user = true := by
  rcases h with huser | ⟨f, hf, -, huser | ⟨c, hc, -, huser⟩⟩
  · exact huser ▸ hs.entryUser e he
  · exact huser ▸ hs.feedUser f hf
  · exact huser ▸ hs.categoryUser c hc

end Store

/-! ## What work and commands are about -/

/-- The work is to take the entry away. -/
def Work.Drops (w : Work) (s : Store) (e : Entry) : Prop :=
  match w with
  | .sweep feed hashes =>
    hashes ≠ [] ∧ e.feedId = feed ∧ e.status = .known .removed ∧ e.hash ∉ hashes
  | .removeUser user => s.BelongsTo user e

/-- The command is to take the entry away. -/
def Command.Drops (c : Command) (s : Store) (e : Entry) : Prop :=
  match c with
  | sweep feed hashes => (Work.sweep feed hashes).Drops s e
  | removeFeed user feed => e.feedId = feed
      ∧ (e.userId = user ∨ ∃ f ∈ s.feeds.rows, f.id = feed ∧ f.userId = user)
  | removeCategory user category => ∃ c ∈ s.categories.rows, c.id = category ∧ c.userId = user
      ∧ ∃ f ∈ s.feeds.rows, f.id = e.feedId ∧ f.categoryId = category
  | removeUser user => (Work.removeUser user).Drops s e
  | _ => False

namespace Work

open Store

variable {w : Work} {s : Store}

theorem exists_without (w : Work) (ho : s.EnclosuresOwned) :
    ∃ p, s.Without (w.leaves s) p ∧ ∀ e ∈ s.entries.rows, p e = true ↔ w.Drops s e := by
  cases w with
  | sweep feed hashes =>
      unfold leaves Drops
      dsimp only
      by_cases hnil : hashes = []
      · have hnone : s.Without s fun _ => false :=
          ⟨(Table.erase_eq_self fun _ _ => rfl).symm, (Table.erase_eq_self fun _ _ => by
            simp [entryIds, Table.select]).symm⟩
        refine ⟨_, by rw [if_pos hnil]; exact hnone, fun e _ => ?_⟩
        simp [hnil]
      · refine ⟨_, by rw [if_neg hnil]; exact ⟨rfl, rfl⟩, fun e _ => ?_⟩
        simp [Entry.isSweepable, Entry.hasStatus, hnil, and_assoc]
  | removeUser user => exact ⟨_, without_eraseUser ho user, fun e _ => entryGoesWith_iff⟩

theorem not_misses_of_drops (hs : s.Integrity) {e : Entry} (he : e ∈ s.entries.rows)
    (h : w.Drops s e) : ¬ w.misses s := by
  cases w with
  | sweep feed hashes => exact fun hmisses => hmisses
  | removeUser user =>
      intro hmisses
      obtain ⟨u, hu, hid⟩ := Table.holds_iff.1 (h.hasUser hs he)
      exact List.countP_eq_zero.1 hmisses u hu hid

end Work

namespace Command

open Store

variable {c : Command} {s : Session}

theorem exists_without (hr : s.Ready) (hs : s.store.Integrity) (ho : s.store.EnclosuresOwned)
    (hc : c.erases = true) (hne : c ≠ .runPending) :
    ∃ p, s.store.Without (c.next s).store p
      ∧ ∀ e ∈ s.store.entries.rows, p e = true ↔ c.Drops s.store e := by
  have hw := writes_of_erases hr hs hc
  generalize (c.next s).store = t at hw ⊢
  cases c with
  | sweep feed hashes =>
      subst hw
      exact (Work.sweep feed hashes).exists_without ho
  | removeUser user =>
      subst hw
      exact (Work.removeUser user).exists_without ho
  | removeFeed user feed =>
      subst hw
      refine ⟨_, without_withoutFeed s.store user feed, fun e _ => ?_⟩
      simp only [Entry.isOf, ownFeed, Drops, Bool.or_eq_true, Bool.and_eq_true, beq_iff_eq,
        List.contains_iff_mem, mem_feedIds]
      constructor
      · rintro (⟨huser, hfeed⟩ | ⟨f, hf, ⟨huser, hid⟩, hfeed⟩)
        · exact ⟨hfeed, Or.inl huser⟩
        · exact ⟨hfeed.symm.trans hid, Or.inr ⟨f, hf, hid, huser⟩⟩
      · rintro ⟨hfeed, huser | ⟨f, hf, hid, huser⟩⟩
        · exact Or.inl ⟨huser, hfeed⟩
        · exact Or.inr ⟨f, hf, ⟨huser, hid⟩, hid.trans hfeed.symm⟩
  | removeCategory user category =>
      subst hw
      refine ⟨_, without_eraseCategories s.store (ownCategory user category), fun e _ => ?_⟩
      simp only [ownCategory, Drops, Bool.and_eq_true, beq_iff_eq, List.contains_iff_mem,
        mem_feedIds, mem_categoryIds]
      constructor
      · rintro ⟨f, hf, ⟨c, hc, ⟨huser, hid⟩, hfc⟩, hfe⟩
        exact ⟨c, hc, hid, huser, f, hf, hfe, hfc.symm.trans hid⟩
      · rintro ⟨c, hc, hid, huser, f, hf, hfe, hfc⟩
        exact ⟨f, hf, ⟨c, hc, ⟨huser, hid⟩, hid.trans hfc.symm⟩, hfe⟩
  | runPending => exact absurd rfl hne
  | _ => cases hc

theorem not_drops (hc : c.erases = false) (e : Entry) : ¬ c.Drops s.store e := by
  cases c with
  | removeUser user => cases hc
  | removeCategory user category => cases hc
  | removeFeed user feed => cases hc
  | sweep feed hashes => cases hc
  | _ => exact fun hdrops => hdrops

end Command

/-! ## Reachable sessions -/

namespace Session

variable {s : Session} {front : List Job} {job : Job}

theorem behind_append_singleton (s : Session) (front : List Job) (job : Job) :
    s.behind (front ++ [job]) = (runJob job (s.behind front)).2 :=
  congrArg Prod.snd (Background.runAll_append _ _ front [job] _)

/-- A waiting job that is run takes away exactly what it is about, and says that it is done if
there is any such entry. -/
theorem loses_behind (hs : Reachable s) (hj : job ∈ s.jobs) :
    (s.behind front).store.Loses (s.behind (front ++ [job])).store
        (job.work.Drops (s.behind front).store)
      ∧ (s.behind front).store.LosesAttached (s.behind (front ++ [job])).store
        (job.work.Drops (s.behind front).store)
      ∧ ((∃ e ∈ (s.behind front).store.entries.rows, job.work.Drops (s.behind front).store e) →
          (runJob job (s.behind front)).1 = .done) := by
  have hsteps : s.store.Steps s.now (s.behind front).store :=
    (evolves_runAll front { s with jobs := [] }).store
  have hint : (s.behind front).store.Integrity := hs.integrity.steps hsteps
  have howned : (s.behind front).store.EnclosuresOwned := hs.enclosuresOwned.steps hsteps
  obtain ⟨hrun, hdone⟩ := runJob_of_ready (ready_behind hs.ready front) hint (hs.current job hj)
  obtain ⟨p, hwithout, hp⟩ := job.work.exists_without howned
  have hloses := hwithout.loses hint.entries.distinct hp
  rw [behind_append_singleton, hrun]
  refine ⟨hloses.1, hloses.2, ?_⟩
  rintro ⟨e, he, hdrops⟩
  exact hdone (Work.not_misses_of_drops hint he hdrops)

end Session

theorem Command.loses_next {s : Session} (hs : Reachable s) {c : Command} (hne : c ≠ .runPending) :
    s.store.Loses (c.next s).store (c.Drops s.store)
      ∧ (c.erases = true → s.store.LosesAttached (c.next s).store (c.Drops s.store)) := by
  cases hc : c.erases with
  | true =>
      obtain ⟨p, hwithout, hp⟩ := exists_without hs.ready hs.integrity hs.enclosuresOwned hc hne
      have hloses := hwithout.loses hs.integrity.entries.distinct hp
      exact ⟨hloses.1, fun _ => hloses.2⟩
  | false =>
      refine ⟨(c.keeps_next hs.ready hs.integrity hc).loses (not_drops hc), fun hfalse => ?_⟩
      cases hfalse

/-- In every reachable session a command takes away exactly the entries that it is about, with
exactly their enclosures, and running what waits takes away, job by job, exactly the entries
that each job is about when its turn comes. -/
theorem Reachable.loses_exactly {s : Session} (hs : Reachable s) :
    (∀ c : Command, c ≠ .runPending →
        s.store.Loses (c.next s).store (c.Drops s.store)
          ∧ (c.erases = true → s.store.LosesAttached (c.next s).store (c.Drops s.store)))
      ∧ Command.runPending.next s = s.behind s.jobs
      ∧ (s.behind []).store = s.store
      ∧ ∀ front job back, s.jobs = front ++ job :: back →
          s.behind (front ++ [job]) = (Session.runJob job (s.behind front)).2
            ∧ (s.behind front).store.Loses (s.behind (front ++ [job])).store
                (job.work.Drops (s.behind front).store)
            ∧ (s.behind front).store.LosesAttached (s.behind (front ++ [job])).store
                (job.work.Drops (s.behind front).store)
            ∧ ((∃ e ∈ (s.behind front).store.entries.rows,
                job.work.Drops (s.behind front).store e) →
                  (Session.runJob job (s.behind front)).1 = .done) := by
  refine ⟨fun c hne => Command.loses_next hs hne, rfl, rfl, fun front job back hj => ?_⟩
  have hmem : job ∈ s.jobs := by
    rw [hj]
    exact List.mem_append_right _ List.mem_cons_self
  exact ⟨s.behind_append_singleton front job, Session.loses_behind hs hmem⟩

/-- An entry that a sweep takes away, and the removal of its user behind a waiting sweep. -/
theorem Reachable.loses_exactly_removed_entry :
    ∃ s e job, Reachable s ∧ e ∈ s.store.entries.rows
      ∧ ((Command.sweep 1 ["b"]).next s).store.hasEntry e.id = false
      ∧ job.work = .removeUser 1 ∧ s.jobs = [{ work := .sweep 1 ["a"] }] ++ job :: []
      ∧ (s.behind [{ work := .sweep 1 ["a"] }]).store.Loses
          (s.behind ([{ work := .sweep 1 ["a"] }] ++ [job])).store
          (job.work.Drops (s.behind [{ work := .sweep 1 ["a"] }]).store) := by
  let s := Session.subscribed.run
    [.refreshFeed 1 1 [.bare "a" 1] false, .setStatus 1 [1] .removed, .removeUserLater 1]
  have hs : Reachable s := Reachable.subscribed.run _
  have hjobs : s.jobs = [{ work := .sweep 1 ["a"] }] ++ { work := .removeUser 1 } :: [] := by rfl
  obtain ⟨e, he, hfeed, hhash, hstatus⟩ : ∃ e ∈ s.store.entries.rows,
      e.feedId = 1 ∧ e.hash = "a" ∧ e.status = .known .removed :=
    ⟨_, List.mem_cons_self, rfl, rfl, rfl⟩
  have hdrops : (Command.sweep 1 ["b"]).Drops s.store e :=
    ⟨by decide, hfeed, hstatus, by rw [hhash]; decide⟩
  obtain ⟨hcommands, -, -, hwaiting⟩ := hs.loses_exactly
  have hsweep := (hcommands (.sweep 1 ["b"]) fun h => by cases h).1
  exact ⟨s, e, _, hs, he, (hsweep e he).2 hdrops, rfl, hjobs, (hwaiting _ _ _ hjobs).2.1⟩

end FeedStore

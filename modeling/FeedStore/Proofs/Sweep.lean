import FeedStore.Proofs.Statement

/-!
# What a waiting sweep takes away

A sweep takes its list along when it is put off, and a later refresh of the feed does not
change that list. A history of a session is kept beside it (`Observed`): which hashes the
latest refresh of each feed has listed. The newest sweep of a feed that waits carries that
very list (`Observed.queued`), so it spares what the feed lists. An older one may not: it
spares what the feed lists just if its own list covers the removed ones among it.
-/

namespace FeedStore

/-! ## Histories -/

/-- What feeds have listed once the command is done, when they had listed this before: a
refresh that goes through and is not empty lists the hashes of its candidates. -/
def Command.observe (c : Command) (s : Session) (latest : Id → List String) : Id → List String :=
  match c with
  | .refreshFeed user feed cs update =>
    match ((Action.refreshFeed user feed cs update).perform s).1 with
    | .ok _ =>
      if cs = [] then latest else fun f => if f = feed then cs.map (·.hash) else latest f
    | .error _ => latest
  | _ => latest

/-- A run leads to the session, and these are the hashes that feeds have listed latest in it. -/
inductive Observed : Session → (Id → List String) → Prop
  | fresh (now : Int) : Observed { now } fun _ => []
  | step {s : Session} {latest : Id → List String} (c : Command) :
      Observed s latest → Observed (c.next s) (c.observe s latest)

theorem Observed.reachable {s : Session} {latest : Id → List String} (h : Observed s latest) :
    Reachable s := by
  induction h with
  | fresh now => exact .fresh now
  | step c _ ih => exact .step c ih

/-- What feeds have listed once some commands are done. -/
def Session.observe (s : Session) (latest : Id → List String) : List Command → Id → List String
  | [] => latest
  | c :: cs => (c.next s).observe (c.observe s latest) cs

theorem Observed.run {s : Session} {latest : Id → List String} (h : Observed s latest)
    (cs : List Command) : Observed (s.run cs) (s.observe latest cs) := by
  induction cs generalizing s latest with
  | nil => exact h
  | cons c cs ih => exact ih (.step c h)

/-! ## What waits -/

/-- The list of a sweep of the feed, unless it is empty. -/
def Work.list? (feed : Id) : Work → Option (List String)
  | .sweep f hashes => if f = feed ∧ hashes ≠ [] then some hashes else none
  | .removeUser _ => none

/-- The list of the newest sweep of the feed that waits. -/
def newestList? (feed : Id) (jobs : List Job) : Option (List String) :=
  (jobs.filterMap fun job => job.work.list? feed).getLast?

theorem newestList?_append_singleton (feed : Id) (jobs : List Job) (job : Job) :
    newestList? feed (jobs ++ [job]) = (job.work.list? feed).or (newestList? feed jobs) := by
  unfold newestList?
  cases h : job.work.list? feed with
  | none => simp [h]
  | some hashes => simp [h]

theorem newestList?_of_back {feed : Id} {front back : List Job} {job : Job} {hashes : List String}
    (hjob : job.work.list? feed = some hashes) (hback : ∀ j ∈ back, j.work.list? feed = none) :
    newestList? feed (front ++ job :: back) = some hashes := by
  have hnone : back.filterMap (fun job => job.work.list? feed) = [] :=
    List.filterMap_eq_nil_iff.2 hback
  unfold newestList?
  rw [List.filterMap_append, List.filterMap_cons, hjob, hnone]
  simp

/-- Nothing that waits is stale, and the newest list that waits is what the feed has listed
latest. -/
structure Queued (s : Session) (latest : Id → List String) : Prop where
  current : ∀ job ∈ s.jobs, job.stale = false
  newest : ∀ feed hashes, newestList? feed s.jobs = some hashes → latest feed = hashes

namespace Queued

variable {s t : Session} {latest : Id → List String}

theorem of_jobs_eq (h : Queued s latest) (hj : t.jobs = s.jobs) : Queued t latest :=
  ⟨fun job hjob => h.current job (hj ▸ hjob), fun feed hashes hn => h.newest feed hashes (hj ▸ hn)⟩

theorem of_jobs_eq_nil (hj : t.jobs = []) : Queued t latest := by
  refine ⟨fun job hjob => ?_, fun feed hashes hn => ?_⟩
  · rw [hj] at hjob
    cases hjob
  · rw [hj] at hn
    cases hn

/-- A refresh that goes through lists and puts off the same hashes. -/
theorem refreshed (h : Queued s latest) {feed : Id} {cs : List Candidate}
    (hj : t.jobs = s.jobs ++ [{ work := .sweep feed (cs.map (·.hash)) }]) :
    Queued t
      (if cs = [] then latest else fun f => if f = feed then cs.map (·.hash) else latest f) := by
  refine ⟨fun job hjob => ?_, fun f hashes hn => ?_⟩
  · rw [hj, List.mem_append, List.mem_singleton] at hjob
    rcases hjob with hjob | rfl
    · exact h.current job hjob
    · rfl
  · rw [hj, newestList?_append_singleton] at hn
    by_cases hcs : cs = []
    · rw [if_pos hcs]
      refine h.newest f hashes ?_
      simpa [Work.list?, hcs] using hn
    · rw [if_neg hcs]
      have hne : cs.map (·.hash) ≠ [] := fun hnil => hcs (List.map_eq_nil_iff.1 hnil)
      by_cases hf : feed = f
      · subst hf
        simp only [Work.list?, hne, ne_eq, not_false_eq_true, and_self, if_true, Option.some_or,
          Option.some.injEq] at hn
        rw [if_pos rfl, hn]
      · rw [if_neg (Ne.symm hf)]
        refine h.newest f hashes ?_
        simpa [Work.list?, hf] using hn

theorem removal (h : Queued s latest) {user : Id}
    (hj : t.jobs = s.jobs ++ [{ work := .removeUser user }]) : Queued t latest := by
  refine ⟨fun job hjob => ?_, fun f hashes hn => ?_⟩
  · rw [hj, List.mem_append, List.mem_singleton] at hjob
    rcases hjob with hjob | rfl
    · exact h.current job hjob
    · rfl
  · rw [hj, newestList?_append_singleton] at hn
    exact h.newest f hashes hn

theorem next (h : Queued s latest) (c : Command) : Queued (c.next s) (c.observe s latest) := by
  have hjobs := (c.takes_next s).jobs
  cases c with
  | refreshFeed user feed cs update =>
      unfold Command.putsOff at hjobs
      unfold Command.observe
      dsimp only at hjobs ⊢
      cases hr : ((Action.refreshFeed user feed cs update).perform s).1 with
      | ok created =>
          rw [hr] at hjobs
          exact h.refreshed hjobs
      | error e =>
          rw [hr] at hjobs
          exact h.of_jobs_eq (by simpa using hjobs)
  | removeUserLater user => exact h.removal hjobs
  | runPending => exact of_jobs_eq_nil hjobs
  | _ => exact h.of_jobs_eq (by simpa [Command.putsOff] using hjobs)

end Queued

theorem Observed.queued {s : Session} {latest : Id → List String} (h : Observed s latest) :
    Queued s latest := by
  induction h with
  | fresh now => exact .of_jobs_eq_nil rfl
  | step c _ ih => exact ih.next c

/-! ## Running what waits -/

namespace Session

/-- The session in which the job behind these is run. -/
def behind (s : Session) (front : List Job) : Session :=
  (Background.runAll (·.work.name) runJob front { s with jobs := [] }).2

/-- Every job that waits is run, in the session that those before it leave. -/
theorem runPending_behind {s : Session} {front back : List Job} {job : Job}
    (h : s.jobs = front ++ job :: back) :
    s.runPending.2
      = (Background.runAll (·.work.name) runJob back (runJob job (s.behind front)).2).2 := by
  unfold runPending
  rw [h, Background.runAll_append]
  rfl

theorem ready_behind {s : Session} (h : s.Ready) (front : List Job) : (s.behind front).Ready :=
  ((evolves_runAll front { s with jobs := [] }).access).trans h

/-- Running the job takes no entry of the feed away that carries one of the hashes. -/
def Spares (feed : Id) (hashes : List String) (job : Job) (s : Session) : Prop :=
  ∀ e ∈ s.store.entries.rows, e.feedId = feed → e.hash ∈ hashes →
    e ∈ (runJob job s).2.store.entries.rows

theorem mem_rows_runJob_sweep {s : Session} (hs : s.Ready) (feed : Id) (hashes : List String)
    (e : Entry) :
    e ∈ (runJob { work := .sweep feed hashes } s).2.store.entries.rows
      ↔ e ∈ s.store.entries.rows ∧ (hashes ≠ [] → e.isSweepable feed hashes = false) := by
  have hrun : (runJob { work := .sweep feed hashes } s).2
      = ((Action.sweep feed hashes).perform s).2 := by
    show ((Action.sweep feed hashes >>= fun _ => pure ()).perform s).2 = _
    rw [Action.perform_bind]
    cases (Action.sweep feed hashes).perform s with
    | mk r t =>
        cases r with
        | error err => rfl
        | ok n => rfl
  rw [hrun, Action.sweep]
  by_cases hnil : hashes = []
  · simp [hnil]
  · rw [if_neg hnil, Action.change, Action.write, Action.perform_writeWithin,
      hs.refusal? _ .empty]
    show e ∈ (s.store.entries.erase (Entry.isSweepable feed hashes)).rows ↔ _
    rw [Table.mem_rows_erase]
    simp [hnil]

end Session

/-! ## What a sweep spares -/

/-- Running what waits runs a waiting sweep in the session that the jobs before it leave.
There it takes away nothing that its feed has listed latest just if its list, when it is not
empty, has the hash of every entry among that which is removed. The newest list of a feed that
waits is the latest one and therefore such a list. -/
theorem sweep_spares_latest_iff {s : Session} {latest : Id → List String} (h : Observed s latest)
    {front back : List Job} {feed : Id} {hashes : List String} {stale : Bool}
    (hj : s.jobs = front ++ { work := .sweep feed hashes, stale } :: back) :
    s.runPending.2 = (Background.runAll (·.work.name) Session.runJob back
        (Session.runJob { work := .sweep feed hashes, stale } (s.behind front)).2).2
      ∧ (Session.Spares feed (latest feed) { work := .sweep feed hashes, stale } (s.behind front)
          ↔ (hashes ≠ [] → ∀ e ∈ (s.behind front).store.entries.rows, e.feedId = feed →
              e.status = .known .removed → e.hash ∈ latest feed → e.hash ∈ hashes))
      ∧ (hashes ≠ [] → (∀ job ∈ back, job.work.list? feed = none) → latest feed = hashes) := by
  obtain rfl : stale = false :=
    h.queued.current { work := .sweep feed hashes, stale } (by simp [hj])
  have hmem := Session.mem_rows_runJob_sweep (Session.ready_behind h.reachable.ready front)
    feed hashes
  refine ⟨Session.runPending_behind hj,
    ⟨fun hspares hne e he hfeed hremoved hlisted => ?_, fun hcover e he hfeed hlisted => ?_⟩, ?_⟩
  · have hkept := ((hmem e).1 (hspares e he hfeed hlisted)).2 hne
    simpa [Entry.isSweepable, Entry.hasStatus, hfeed, hremoved] using hkept
  · refine (hmem e).2 ⟨he, fun hne => ?_⟩
    rw [Bool.eq_false_iff]
    intro hsweep
    simp only [Entry.isSweepable, Entry.hasStatus, Bool.and_eq_true, beq_iff_eq, Bool.not_eq_true',
      List.contains_eq_mem, decide_eq_false_iff_not] at hsweep
    exact hsweep.2 (hcover hne e he hfeed hsweep.1.2 hlisted)
  · intro hne hback
    refine h.queued.newest feed hashes ?_
    rw [hj]
    exact newestList?_of_back (by simp [Work.list?, hne]) hback

/-- A feed lists a second hash before the sweep of its first list has run, and the reader has
removed the entry that it brought. -/
def Session.listedTwice : Session :=
  Session.subscribed.run
    [.refreshFeed 1 1 [.bare "a" 1] false, .refreshFeed 1 1 [.bare "a" 1, .bare "b" 1] false,
      .setStatus 1 [2] .removed]

theorem Observed.listedTwice :
    ∃ latest, Observed .listedTwice latest ∧ latest 1 = ["a", "b"] := by
  have h : Observed .subscribed _ := (Observed.fresh 0).run _
  exact ⟨_, h.run _, by rfl⟩

theorem sweep_spares_latest_iff_listedTwice :
    ∃ latest back, Observed .listedTwice latest
      ∧ Session.listedTwice.jobs = [] ++ { work := .sweep 1 ["a"], stale := false } :: back
      ∧ (Session.Spares 1 (latest 1) { work := .sweep 1 ["a"], stale := false }
            (Session.listedTwice.behind [])
          ↔ (["a"] ≠ [] → ∀ e ∈ (Session.listedTwice.behind []).store.entries.rows, e.feedId = 1 →
              e.status = .known .removed → e.hash ∈ latest 1 → e.hash ∈ ["a"])) := by
  obtain ⟨latest, hobs, -⟩ := Observed.listedTwice
  exact ⟨latest, _, hobs, by rfl, (sweep_spares_latest_iff hobs (by rfl)).2.1⟩

/-- A sweep can take away an entry whose hash the latest refresh of its feed has listed. -/
theorem sweep_takes_listed_entry :
    ¬ ∀ (s : Session) (latest : Id → List String), Observed s latest →
        ∀ (front back : List Job) (feed : Id) (hashes : List String) (stale : Bool),
          s.jobs = front ++ { work := .sweep feed hashes, stale } :: back →
          Session.Spares feed (latest feed) { work := .sweep feed hashes, stale }
            (s.behind front) := by
  intro hall
  obtain ⟨latest, hobs, hlatest⟩ := Observed.listedTwice
  have hspares := hall _ latest hobs [] _ 1 ["a"] false rfl
  rw [Session.Spares, hlatest] at hspares
  have hlost : ¬ ∀ e ∈ (Session.listedTwice.behind []).store.entries.rows, e.feedId = 1 →
      e.hash ∈ ["a", "b"] → e ∈ (Session.runJob { work := .sweep 1 ["a"], stale := false }
        (Session.listedTwice.behind [])).2.store.entries.rows := by
    decide +kernel
  exact hlost hspares

end FeedStore

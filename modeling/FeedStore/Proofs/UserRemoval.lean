import FeedStore.Proofs.FeedRemoval

/-!
# Removing a user in the background

A user who is removed in the background loses one feed after the other, each in batches, before the
user goes. When what waits is run nobody comes in between, and then that comes to removing the user
at once, for the tables and for the answer (`Reachable.runs_removal`).
-/

namespace FeedStore

/-- A report says that a task has failed just if its operation has ended in an error. -/
theorem Background.Ending.failed_iff {α : Type} {r : Except StoreError α} :
    (∃ message, (ofExcept r).outcome = .failed message) ↔ ∃ e, r = .error e := by
  cases r with
  | ok a =>
      refine ⟨fun h => ?_, fun h => ?_⟩
      · obtain ⟨message, h⟩ := h
        cases h
      · obtain ⟨e, h⟩ := h
        cases h
  | error e => exact ⟨fun _ => ⟨e, rfl⟩, fun _ => ⟨e.message, rfl⟩⟩

theorem Store.count_users_eq_zero_iff {s : Store} {user : Id} :
    s.users.count (·.id == user) = 0 ↔ s.hasUser user = false := by
  unfold hasUser Table.count Table.holds
  rw [List.countP_eq_zero, List.any_eq_false]

/-! ## A store that refuses -/

namespace Action

variable {a : Access}

theorem perform_removeUser_of_refused (hmissing : a.missing = []) (hne : a ≠ {}) (user : Id)
    (s : Session) :
    ∃ e, (removeUser user).perform { s with access := a } = (.error e, { s with access := a }) := by
  obtain ⟨fault, hfault⟩ := exists_refusal hmissing hne (.delete .users []) rfl s
  refine ⟨.ofFault ("unable to remove user #" ++ toString user) fault, ?_⟩
  show (change _ _ _ >>= orNothing).perform _ = _
  rw [perform_bind, perform_change_of_refused _ _ hfault]

/-- A user without feeds is refused with the user, any other with the first feed, unless the feeds
cannot even be listed. -/
theorem perform_removeUserByFeeds_of_refused (hmissing : a.missing = []) (hne : a ≠ {}) (user : Id)
    (s : Session) :
    ∃ e, (removeUserByFeeds user).perform { s with access := a }
      = (.error e, { s with access := a }) := by
  let t : Session := { s with access := a }
  show ∃ e, (feedIds user >>= fun feeds =>
    removeFeeds user feeds >>= fun _ => removeUser user).perform t = (.error e, t)
  rw [perform_bind]
  unfold feedIds read
  rw [perform_readWithin]
  cases t.refusal? (.select [.feeds]) {} with
  | some fault => exact ⟨_, rfl⟩
  | none =>
      show ∃ e, (removeFeeds user (s.store.feedIds (·.userId == user)) >>= fun _ =>
        removeUser user).perform t = (.error e, t)
      cases s.store.feedIds (·.userId == user) with
      | nil => exact perform_removeUser_of_refused hmissing hne user s
      | cons feed feeds =>
          obtain ⟨e, hfirst⟩ := perform_removeFeed_of_refused hmissing hne user feed s
          refine ⟨e, ?_⟩
          show ((removeFeed user feed >>= fun _ => removeFeeds user feeds) >>= _).perform t = _
          rw [perform_bind, perform_bind, hfirst]

end Action

/-! ## Alike -/

namespace Session

/-- Running the job comes to the action: it leaves the same session behind, and its report says that
it has failed just if the action ends in an error. -/
def RunsAs {α : Type} (s : Session) (job : Job) (a : Action α) : Prop :=
  (runJob job s).2 = (a.perform s).2
    ∧ ((∃ message, (runJob job s).1.outcome = .failed message) ↔ ∃ e, (a.perform s).1 = .error e)

variable {s : Session} {user : Id}

/-- Work that is not stale ends as its operation does. -/
theorem runJob_eq (work : Work) (s : Session) :
    runJob { work } s
      = (.ofExcept ((Action.doWork work).perform s).1, ((Action.doWork work).perform s).2) := rfl

theorem runsAs_removeUser (hr : s.Ready) (hs : s.store.Integrity) (user : Id) :
    s.RunsAs { work := .removeUser user } (Action.removeUser user) := by
  have hsame : (Action.doWork (.removeUser user)).perform s = (Action.removeUser user).perform s :=
    Action.perform_removeUserByFeeds hr hs
  unfold RunsAs
  rw [runJob_eq, hsame]
  exact ⟨rfl, Background.Ending.failed_iff⟩

/-- Where the store refuses, both fail and leave everything as it is. -/
theorem runsAs_removeUser_of_refused {a : Access} (hmissing : a.missing = []) (hne : a ≠ {})
    (user : Id) (s : Session) :
    ({ s with access := a } : Session).RunsAs { work := .removeUser user }
      (Action.removeUser user) := by
  obtain ⟨e, hdirect⟩ := Action.perform_removeUser_of_refused hmissing hne user s
  obtain ⟨e', hfeeds⟩ := Action.perform_removeUserByFeeds_of_refused hmissing hne user s
  have hwork : (Action.doWork (.removeUser user)).perform { s with access := a }
      = (.error e', { s with access := a }) := hfeeds
  unfold RunsAs
  rw [runJob_eq, hwork, hdirect]
  exact ⟨rfl, iff_of_true ⟨e'.message, rfl⟩ ⟨e, rfl⟩⟩

/-- What is put off now is run after everything that waits, and reported after it. -/
theorem runPending_putOff (s : Session) (work : Work) :
    (Command.after (Action.putOff work) s).runPending
      = (s.runPending.1 ++ [⟨work.name, (runJob { work } s.runPending.2).1.outcome⟩],
          (runJob { work } s.runPending.2).2) := by
  show Background.runAll _ runJob (s.jobs ++ [({ work } : Job)]) { s with jobs := [] } = _
  rw [Background.runAll_append]
  rfl

end Session

open FeedStore.Action in
/-- Removing a user in the background comes to removing the user at once: it leaves the same tables,
and it is reported as failed just if the direct removal ends in an error, which is if there is no
such user. So it does at every place in the queue, and when it is put off and run behind whatever
waits. Where the store refuses to write, both fail and nothing changes. -/
theorem Reachable.runs_removal {s : Session} (hs : Reachable s) (user : Id) :
    s.RunsAs { work := .removeUser user } (removeUser user)
      ∧ ((∃ e, ((removeUser user).perform s).1 = .error e) ↔ s.store.hasUser user = false)
      ∧ (∀ front back : List Job, s.jobs = front ++ { work := .removeUser user } :: back →
          (s.behind front).RunsAs { work := .removeUser user } (removeUser user)
            ∧ s.runPending.2 = (Background.runAll (·.work.name) Session.runJob back
                ((removeUser user).perform (s.behind front)).2).2)
      ∧ (Command.after (removeUserLater user) s).runPending
        = (s.runPending.1 ++ [⟨"remove_user",
              (Background.Ending.ofExcept ((removeUser user).perform s.runPending.2).1).outcome⟩],
            ((removeUser user).perform s.runPending.2).2)
      ∧ ∀ a : Access, a.missing = [] → a ≠ {} →
          ({ s with access := a } : Session).RunsAs { work := .removeUser user } (removeUser user)
            ∧ ∃ e, (removeUser user).perform { s with access := a }
              = (.error e, { s with access := a }) := by
  have hr := hs.ready
  have hint := hs.integrity
  refine ⟨Session.runsAs_removeUser hr hint user, ?_, fun front back hjobs => ?_, ?_,
    fun a hmissing hne => ⟨Session.runsAs_removeUser_of_refused hmissing hne user s,
      perform_removeUser_of_refused hmissing hne user s⟩⟩
  · rw [perform_removeUser hr, ← Store.count_users_eq_zero_iff]
    split
    · exact iff_of_true ⟨_, rfl⟩ ‹_›
    · refine iff_of_false (fun h => ?_) ‹_›
      obtain ⟨e, h⟩ := h
      cases h
  · have hbehind : (s.behind front).store.Integrity :=
      hint.steps (Session.evolves_runAll front { s with jobs := [] }).store
    have halike := Session.runsAs_removeUser (Session.ready_behind hr front) hbehind user
    refine ⟨halike, ?_⟩
    rw [Session.runPending_behind hjobs, halike.1]
  · have hpending : Reachable s.runPending.2 := hs.step .runPending
    have hsame : (doWork (.removeUser user)).perform s.runPending.2
        = (removeUser user).perform s.runPending.2 :=
      perform_removeUserByFeeds hpending.ready hpending.integrity
    show (Command.after (putOff (.removeUser user)) s).runPending = _
    rw [Session.runPending_putOff, Session.runJob_eq, hsame]
    rfl

/-- Two users have an entry each in the feed of the first one, whose removal is put off: the first
user goes with both entries. -/
theorem Reachable.runs_removal_shared :
    Reachable .shared
      ∧ Session.shared.RunsAs { work := .removeUser 1 } (Action.removeUser 1)
      ∧ (Command.after (Action.removeUserLater 1) .shared).runPending.2.store.entries.rows = []
      ∧ ∃ e, ((Action.removeUser 3).perform .shared).1 = .error e := by
  obtain ⟨halike, -, -, hlater, -⟩ := Reachable.shared.runs_removal 1
  obtain ⟨-, hmissing, -⟩ := Reachable.shared.runs_removal 3
  refine ⟨.shared, halike, ?_, hmissing.2 (by decide +kernel)⟩
  rw [hlater]
  decide +kernel

end FeedStore

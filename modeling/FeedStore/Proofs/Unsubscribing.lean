import FeedStore.Proofs.UserRemoval
import FeedStore.Proofs.Writes

/-!
# Removing a user while others unsubscribe

A removal of a user in the background is a task of many steps: it lists the feeds of the user,
removes one of them after the other, and removes the user (`Leaving.turn`). Taking its steps
alone it is the removal feed by feed (`Departure.run_alone`). Between two steps another client
may have removed a feed or a category. The list is read once, so a feed on it may be gone when
its turn comes, and a feed that is not found is an error, which ends the task before the user
goes. The user survives exactly if that happens (`Reachable.removesUser_iff`).
-/

namespace FeedStore

/-! ## The task -/

/-- A removal of a user on its way: it has not begun, has so many of the listed feeds left, or has
ended. -/
inductive Leaving where
  | waiting
  | removing (left : List Id)
  | ended (answer : Except StoreError Unit)

namespace Leaving

/-- One step of the task. A step that fails is its last one. -/
def turn (user : Id) (k : Leaving) (s : Session) : Leaving × Session :=
  match k with
  | waiting =>
    match (Action.feedIds user).perform s with
    | (.ok feeds, t) => (removing feeds, t)
    | (.error e, t) => (ended (.error e), t)
  | removing (feed :: feeds) =>
    match (Action.removeFeed user feed).perform s with
    | (.ok (), t) => (removing feeds, t)
    | (.error e, t) => (ended (.error e), t)
  | removing [] =>
    match (Action.removeUser user).perform s with
    | (answer, t) => (ended answer, t)
  | ended answer => (ended answer, s)

end Leaving

/-! ## The task and other clients -/

/-- The command removes a feed or a category. -/
def Command.Unsubscribes : Command → Prop
  | removeFeed _ _ | removeCategory _ _ => True
  | _ => False

/-- A session in which a removal of a user is on its way. -/
structure Departure where
  session : Session
  task : Leaving

namespace Departure

/-- Before the first step. -/
def start (s : Session) : Departure := { session := s, task := .waiting }

/-- A step of the task, or a command of another client. -/
def move (user : Id) (d : Departure) : Option Command → Departure
  | none => { session := (d.task.turn user d.session).2, task := (d.task.turn user d.session).1 }
  | some c => { d with session := c.next d.session }

/-- Steps of the task and commands of other clients in the given order. -/
def run (user : Id) (d : Departure) (schedule : List (Option Command)) : Departure :=
  schedule.foldl (move user) d

/-- The command takes away a feed that the task has listed and not come to yet. -/
def Overtakes (c : Command) (user : Id) (d : Departure) : Prop :=
  ∃ left, d.task = .removing left
    ∧ ∃ feed ∈ left, d.session.store.HasFeedOf user feed
      ∧ ¬ (c.next d.session).store.HasFeedOf user feed

/-- At some point of the schedule another client takes away a feed that the task has listed and not
come to yet. -/
def Overtaken (user : Id) (d : Departure) (schedule : List (Option Command)) : Prop :=
  ∃ front c back, schedule = front ++ some c :: back ∧ Overtakes c user (d.run user front)

variable {user : Id} {d : Departure} {schedule : List (Option Command)}

/-- A task that has ended takes no more steps. -/
theorem run_ended (n : Nat) (answer : Except StoreError Unit) (s : Session) :
    run user { session := s, task := .ended answer } (List.replicate n none)
      = { session := s, task := .ended answer } := by
  induction n with
  | zero => rfl
  | succ n ih => exact ih

/-- A step for every feed that is left and one for the user. -/
theorem run_removing (left : List Id) (s : Session) :
    run user { session := s, task := .removing left } (List.replicate (left.length + 1) none)
      = { session :=
            ((Action.removeFeeds user left >>= fun _ => Action.removeUser user).perform s).2
          task := .ended
            ((Action.removeFeeds user left >>= fun _ => Action.removeUser user).perform s).1 } := by
  induction left generalizing s with
  | nil => rfl
  | cons feed feeds ih =>
      have hsplit : (Action.removeFeeds user (feed :: feeds) >>= fun _ => Action.removeUser user)
          = Action.removeFeed user feed >>= fun _ =>
            Action.removeFeeds user feeds >>= fun _ => Action.removeUser user :=
        bind_assoc ..
      rw [hsplit, Action.perform_bind]
      show run user (move user _ none) (List.replicate (feeds.length + 1) none) = _
      unfold move Leaving.turn
      dsimp only
      cases (Action.removeFeed user feed).perform s with
      | mk r t =>
          cases r with
          | error e => exact run_ended _ _ _
          | ok u => exact ih t

/-- A task that takes its steps alone is the removal of the user feed by feed. -/
theorem run_alone (user : Id) (s : Session) :
    (start s).run user (List.replicate ((s.store.feedIds (·.userId == user)).length + 2) none)
      = { session := ((Action.removeUserByFeeds user).perform s).2
          task := .ended ((Action.removeUserByFeeds user).perform s).1 } := by
  have hsplit : Action.removeUserByFeeds user = Action.feedIds user >>= fun feeds =>
      Action.removeFeeds user feeds >>= fun _ => Action.removeUser user := rfl
  rw [hsplit, Action.perform_bind]
  show run user (move user _ none) (List.replicate (_ + 1) none) = _
  unfold move start Leaving.turn
  dsimp only
  cases hlist : (Action.feedIds user).perform s with
  | mk r t =>
      cases r with
      | error e => exact run_ended _ _ _
      | ok feeds =>
          obtain ⟨rfl, rfl⟩ := Action.of_perform_read hlist
          exact run_removing _ _

theorem overtaken_nil : ¬ d.Overtaken user [] := by
  rintro ⟨front, c, back, h, -⟩
  cases front <;> cases h

theorem overtaken_cons {m : Option Command} :
    d.Overtaken user (m :: schedule)
      ↔ (∃ c, m = some c ∧ Overtakes c user d) ∨ (d.move user m).Overtaken user schedule := by
  constructor
  · rintro ⟨front, c, back, h, hover⟩
    cases front with
    | nil =>
        obtain ⟨rfl, rfl⟩ := List.cons.inj h
        exact Or.inl ⟨c, rfl, hover⟩
    | cons m' front =>
        obtain ⟨rfl, rfl⟩ := List.cons.inj h
        exact Or.inr ⟨front, c, back, rfl, hover⟩
  · rintro (⟨c, rfl, hover⟩ | ⟨front, c, back, rfl, hover⟩)
    · exact ⟨[], c, schedule, rfl, hover⟩
    · exact ⟨m :: front, c, back, rfl, hover⟩

end Departure

/-! ## What the steps do to users and feeds -/

namespace Command

variable {s : Session} {c : Command}

/-- Who removes a feed or a category takes no user away and brings no feed. -/
theorem Unsubscribes.next (hc : c.Unsubscribes) (hs : Reachable s) :
    (c.next s).store.users = s.store.users
      ∧ ∀ f ∈ (c.next s).store.feeds.rows, f ∈ s.store.feeds.rows := by
  cases c with
  | removeFeed user feed =>
      have hw : ((removeFeed user feed).next s).store = s.store.withoutFeed user feed :=
        writes_of_erases (c := removeFeed user feed) hs.ready hs.integrity rfl
      rw [hw]
      exact ⟨rfl, fun f hf => (Table.mem_rows_erase.1 hf).1⟩
  | removeCategory user category =>
      have hw : ((removeCategory user category).next s).store
          = (s.store.removeCategory user category).2 :=
        writes_of_erases (c := removeCategory user category) hs.ready hs.integrity rfl
      rw [hw]
      exact ⟨rfl, fun f hf => (Table.mem_rows_erase.1 hf).1⟩
  | _ => exact hc.elim

theorem Unsubscribes.hasUser (hc : c.Unsubscribes) (hs : Reachable s) (user : Id) :
    (c.next s).store.hasUser user = s.store.hasUser user := by
  unfold Store.hasUser
  rw [(hc.next hs).1]

/-- A feed that is gone stays gone. -/
theorem Unsubscribes.of_hasFeedOf (hc : c.Unsubscribes) (hs : Reachable s) {user feed : Id}
    (h : (c.next s).store.HasFeedOf user feed) : s.store.HasFeedOf user feed := by
  obtain ⟨f, hf, hown⟩ := h
  exact ⟨f, (hc.next hs).2 f hf, hown⟩

end Command

theorem Action.perform_removeUser_of_hasUser {s : Session} {user : Id} (hr : s.Ready)
    (h : s.store.hasUser user = true) :
    (removeUser user).perform s = (.ok (), { s with store := s.store.eraseUser user }) := by
  have hcount : s.store.users.count (·.id == user) ≠ 0 := fun hzero =>
    Bool.false_ne_true ((Store.count_users_eq_zero_iff.1 hzero).symm.trans h)
  rw [perform_removeUser hr, if_neg hcount]

theorem Store.hasUser_eraseUser (s : Store) (user : Id) :
    (s.eraseUser user).hasUser user = false := by
  refine List.any_eq_false.2 fun u hu hid => ?_
  exact Bool.false_ne_true ((Table.mem_rows_erase.1 hu).2.symm.trans hid)

/-- Removing a feed of a user leaves the other feeds of the user. -/
theorem Store.HasFeedOf.removeFeed {s : Session} {user feed i : Id} (hs : Reachable s)
    (h : s.store.HasFeedOf user i) (hne : i ≠ feed) :
    ((Command.removeFeed user feed).next s).store.HasFeedOf user i := by
  have hw : ((Command.removeFeed user feed).next s).store = s.store.withoutFeed user feed :=
    Command.writes_of_erases (c := .removeFeed user feed) hs.ready hs.integrity rfl
  obtain ⟨f, hf, hown⟩ := h
  rw [hw]
  refine ⟨f, Table.mem_rows_erase.2 ⟨hf, Bool.eq_false_iff.2 fun hfeed => hne ?_⟩, hown⟩
  rw [← (ownFeed_iff.1 hown).2, (ownFeed_iff.1 hfeed).2]

namespace Leaving

variable {user : Id} {k k' : Leaving} {s t : Session}

/-- What a step of the task can do in a reachable session. -/
inductive Turns (user : Id) (s : Session) : Leaving → Leaving → Session → Prop
  | list : Turns user s waiting (removing (s.store.feedIds (·.userId == user))) s
  | remove {feed : Id} {feeds : List Id} (found : s.store.HasFeedOf user feed) :
      Turns user s (removing (feed :: feeds)) (removing feeds)
        ((Command.removeFeed user feed).next s)
  | miss {feed : Id} {feeds : List Id} (gone : ¬ s.store.HasFeedOf user feed) :
      Turns user s (removing (feed :: feeds)) (ended (.error .nothingUpdated))
        ((Command.removeFeed user feed).next s)
  | last {answer : Except StoreError Unit}
      (run : (Action.removeUser user).perform s = (answer, (Command.removeUser user).next s)) :
      Turns user s (removing []) (ended answer) ((Command.removeUser user).next s)
  | idle {answer : Except StoreError Unit} : Turns user s (ended answer) (ended answer) s

theorem turns_turn (hs : Reachable s) (user : Id) (k : Leaving) :
    Turns user s k (k.turn user s).1 (k.turn user s).2 := by
  cases k with
  | waiting =>
      have hlist : (Action.feedIds user).perform s
          = (.ok (s.store.feedIds (·.userId == user)), s) := Action.perform_read_of_ready hs.ready
      unfold turn
      rw [hlist]
      exact .list
  | removing left =>
      cases left with
      | nil => exact .last rfl
      | cons feed feeds =>
          have hnext : (Command.removeFeed user feed).next s
              = ((Action.removeFeed user feed).perform s).2 := rfl
          unfold turn
          dsimp only
          by_cases hfeed : s.store.HasFeedOf user feed
          · have hrun := Action.perform_removeFeed_of_hasFeedOf hs.ready hs.integrity hfeed
            have hturns : Turns user s (removing (feed :: feeds)) (removing feeds) _ :=
              .remove hfeed
            rw [hnext, hrun] at hturns
            rw [hrun]
            exact hturns
          · have hrun := Action.perform_removeFeed_of_not_hasFeedOf hs.ready hs.integrity hfeed
            have hturns : Turns user s (removing (feed :: feeds)) _ _ := .miss hfeed
            rw [hnext, hrun] at hturns
            rw [hrun]
            exact hturns
  | ended answer => exact .idle

/-- A step of the task is a command, or leaves the session as it is. -/
theorem Turns.reachable (h : Turns user s k k' t) (hs : Reachable s) : Reachable t := by
  cases h with
  | list => exact hs
  | remove _ => exact hs.step _
  | miss _ => exact hs.step _
  | last _ => exact hs.step _
  | idle => exact hs

/-! ## On time and too late -/

/-- The task has not been overtaken: the feeds that are left are all there, and when it has ended
the user is gone. -/
def OnTime (user : Id) (k : Leaving) (s : Store) : Prop :=
  match k with
  | waiting => s.hasUser user = true
  | removing left => s.hasUser user = true ∧ left.Nodup ∧ ∀ feed ∈ left, s.HasFeedOf user feed
  | ended answer => s.hasUser user = false ∧ answer = .ok ()

/-- The task has been overtaken: it will come to a feed that is gone, or has done so and ended
before the user went. -/
def TooLate (user : Id) (k : Leaving) (s : Store) : Prop :=
  match k with
  | waiting => False
  | removing left => s.hasUser user = true ∧ ∃ feed ∈ left, ¬ s.HasFeedOf user feed
  | ended answer => s.hasUser user = true ∧ answer = .error .nothingUpdated

theorem OnTime.turn (h : k.OnTime user s.store) (hs : Reachable s) (ht : Turns user s k k' t) :
    k'.OnTime user t.store := by
  cases ht with
  | list =>
      exact ⟨h, Store.nodup_feedIds hs.integrity _, fun feed => Store.exists_ownFeed_iff.2⟩
  | @remove feed feeds found =>
      obtain ⟨huser, hnodup, hthere⟩ := h
      obtain ⟨hnot, hnodup⟩ := List.nodup_cons.1 hnodup
      have hc : (Command.removeFeed user feed).Unsubscribes := trivial
      refine ⟨(hc.hasUser hs user).trans huser, hnodup, fun i hi => ?_⟩
      refine (hthere i (List.mem_cons_of_mem _ hi)).removeFeed hs ?_
      rintro rfl
      exact hnot hi
  | miss gone => exact absurd (h.2.2 _ List.mem_cons_self) gone
  | @last answer run =>
      obtain ⟨rfl, hnext⟩ :=
        Prod.mk.inj (run.symm.trans (Action.perform_removeUser_of_hasUser hs.ready h.1))
      rw [hnext]
      exact ⟨Store.hasUser_eraseUser s.store user, rfl⟩
  | idle => exact h

theorem TooLate.turn (h : k.TooLate user s.store) (hs : Reachable s) (ht : Turns user s k k' t) :
    k'.TooLate user t.store := by
  cases ht with
  | list => exact h.elim
  | @remove feed feeds found =>
      obtain ⟨huser, i, hi, hgone⟩ := h
      have hc : (Command.removeFeed user feed).Unsubscribes := trivial
      refine ⟨(hc.hasUser hs user).trans huser, i, ?_, fun hback => ?_⟩
      · refine (List.mem_cons.1 hi).resolve_left ?_
        rintro rfl
        exact hgone found
      · exact hgone (hc.of_hasFeedOf hs hback)
  | @miss feed feeds gone =>
      have hc : (Command.removeFeed user feed).Unsubscribes := trivial
      exact ⟨(hc.hasUser hs user).trans h.1, rfl⟩
  | last run =>
      obtain ⟨-, feed, hmem, -⟩ := h
      cases hmem
  | idle => exact h

/-- Another client overtakes the task, or does not. -/
theorem OnTime.next {c : Command} (h : k.OnTime user s.store) (hc : c.Unsubscribes)
    (hs : Reachable s) :
    k.OnTime user (c.next s).store ∧ ¬ Departure.Overtakes c user ⟨s, k⟩
      ∨ k.TooLate user (c.next s).store ∧ Departure.Overtakes c user ⟨s, k⟩ := by
  cases k with
  | waiting =>
      refine Or.inl ⟨(hc.hasUser hs user).trans h, ?_⟩
      rintro ⟨left, htask, -⟩
      cases htask
  | ended answer =>
      refine Or.inl ⟨⟨(hc.hasUser hs user).trans h.1, h.2⟩, ?_⟩
      rintro ⟨left, htask, -⟩
      cases htask
  | removing left =>
      obtain ⟨huser, hnodup, hthere⟩ := h
      have huser : (c.next s).store.hasUser user = true := (hc.hasUser hs user).trans huser
      by_cases hleft : ∀ feed ∈ left, (c.next s).store.HasFeedOf user feed
      · refine Or.inl ⟨⟨huser, hnodup, hleft⟩, ?_⟩
        rintro ⟨_, ⟨⟩, feed, hmem, -, hgone⟩
        exact hgone (hleft feed hmem)
      · simp only [not_forall] at hleft
        obtain ⟨feed, hmem, hgone⟩ := hleft
        exact Or.inr ⟨⟨huser, feed, hmem, hgone⟩, left, rfl, feed, hmem, hthere feed hmem, hgone⟩

theorem TooLate.next {c : Command} (h : k.TooLate user s.store) (hc : c.Unsubscribes)
    (hs : Reachable s) : k.TooLate user (c.next s).store := by
  cases k with
  | waiting => exact h
  | ended answer => exact ⟨(hc.hasUser hs user).trans h.1, h.2⟩
  | removing left =>
      obtain ⟨huser, feed, hmem, hgone⟩ := h
      exact ⟨(hc.hasUser hs user).trans huser, feed, hmem,
        fun hback => hgone (hc.of_hasFeedOf hs hback)⟩

end Leaving

namespace Departure

variable {user : Id} {d : Departure} {schedule : List (Option Command)}

theorem tooLate_run (hs : Reachable d.session) (h : d.task.TooLate user d.session.store)
    (hcalls : ∀ c, some c ∈ schedule → c.Unsubscribes) :
    (d.run user schedule).task.TooLate user (d.run user schedule).session.store := by
  induction schedule generalizing d with
  | nil => exact h
  | cons m schedule ih =>
      have hrest : ∀ c, some c ∈ schedule → c.Unsubscribes :=
        fun c hc => hcalls c (List.mem_cons_of_mem _ hc)
      cases m with
      | none =>
          have hturn := Leaving.turns_turn hs user d.task
          exact ih (d := d.move user none) (hturn.reachable hs) (h.turn hs hturn) hrest
      | some c =>
          have hc := hcalls c List.mem_cons_self
          exact ih (d := d.move user (some c)) (hs.step c) (h.next hc hs) hrest

/-- A task that is on time stays so until another client overtakes it, and is too late from then
on. -/
theorem onTime_run (hs : Reachable d.session) (h : d.task.OnTime user d.session.store)
    (hcalls : ∀ c, some c ∈ schedule → c.Unsubscribes) :
    (d.run user schedule).task.OnTime user (d.run user schedule).session.store
        ∧ ¬ d.Overtaken user schedule
      ∨ (d.run user schedule).task.TooLate user (d.run user schedule).session.store
        ∧ d.Overtaken user schedule := by
  induction schedule generalizing d with
  | nil => exact Or.inl ⟨h, overtaken_nil⟩
  | cons m schedule ih =>
      have hrest : ∀ c, some c ∈ schedule → c.Unsubscribes :=
        fun c hc => hcalls c (List.mem_cons_of_mem _ hc)
      rw [overtaken_cons]
      cases m with
      | none =>
          have hturn := Leaving.turns_turn hs user d.task
          have hnone : ¬ ∃ c, none = some c ∧ Overtakes c user d := by simp
          rw [or_iff_right hnone]
          exact ih (d := d.move user none) (hturn.reachable hs) (h.turn hs hturn) hrest
      | some c =>
          have hc := hcalls c List.mem_cons_self
          rcases h.next hc hs with ⟨honTime, hnot⟩ | ⟨hlate, hover⟩
          · have hnone : ¬ ∃ c', some c = some c' ∧ Overtakes c' user d := by
              rintro ⟨_, ⟨⟩, hover⟩
              exact hnot hover
            rw [or_iff_right hnone]
            exact ih (d := d.move user (some c)) (hs.step c) honTime hrest
          · exact Or.inr ⟨tooLate_run (d := d.move user (some c)) (hs.step c) hlate hrest,
              Or.inl ⟨c, rfl, hover⟩⟩

end Departure

open FeedStore.Action Departure in
/-- A removal of a user that has ended has removed the user exactly if no other client has taken
away a feed that it had listed and not come to yet. Then it has ended well, and otherwise with the
answer that nothing has been updated. If nobody else does anything it ends, and comes to removing
the user at once. -/
theorem Reachable.removesUser_iff {s : Session} (hs : Reachable s) {user : Id}
    (huser : s.store.hasUser user = true) {schedule : List (Option Command)}
    (hcalls : ∀ c, some c ∈ schedule → c.Unsubscribes) {answer : Except StoreError Unit}
    (hended : ((start s).run user schedule).task = .ended answer) :
    (((start s).run user schedule).session.store.hasUser user = false
        ↔ ¬ (start s).Overtaken user schedule)
      ∧ (¬ (start s).Overtaken user schedule → answer = .ok ())
      ∧ ((start s).Overtaken user schedule → answer = .error .nothingUpdated)
      ∧ (start s).run user (List.replicate ((s.store.feedIds (·.userId == user)).length + 2) none)
        = { session := ((removeUser user).perform s).2, task := .ended (.ok ()) } := by
  have halone := run_alone user s
  rw [perform_removeUserByFeeds hs.ready hs.integrity, perform_removeUser_of_hasUser hs.ready huser]
    at halone
  rw [perform_removeUser_of_hasUser hs.ready huser]
  have honTime : (start s).task.OnTime user (start s).session.store := huser
  rcases onTime_run (d := start s) hs honTime hcalls with ⟨h, hnot⟩ | ⟨h, hover⟩
  · rw [hended] at h
    exact ⟨iff_of_true h.1 hnot, fun _ => h.2, fun hover => absurd hover hnot, halone⟩
  · rw [hended] at h
    have hstays : ((start s).run user schedule).session.store.hasUser user ≠ false :=
      fun hgone => Bool.false_ne_true (hgone.symm.trans h.1)
    exact ⟨iff_of_false hstays (not_not_intro hover), fun hnot => absurd hover hnot, fun _ => h.2,
      halone⟩

/-- The task lists the one feed of the user, another client removes that feed, and the task finds
nothing to remove. -/
theorem Reachable.removesUser_iff_subscribed :
    Session.subscribed.store.hasUser 1 = true
      ∧ ((Departure.start .subscribed).run 1 [none, some (.removeFeed 1 1), none]).task
        = .ended (.error .nothingUpdated)
      ∧ (Departure.start .subscribed).Overtaken 1 [none, some (.removeFeed 1 1), none] := by
  have huser : Session.subscribed.store.hasUser 1 = true := by decide +kernel
  have hcalls : ∀ c, some c ∈ [none, some (Command.removeFeed 1 1), none] → c.Unsubscribes := by
    intro c hc
    obtain rfl : c = Command.removeFeed 1 1 := by simpa using hc
    trivial
  have hended : ((Departure.start .subscribed).run 1 [none, some (.removeFeed 1 1), none]).task
      = .ended (.error .nothingUpdated) := by rfl
  have hstays : ((Departure.start .subscribed).run 1
      [none, some (.removeFeed 1 1), none]).session.store.hasUser 1 = true := by decide +kernel
  obtain ⟨hgone, -⟩ := Reachable.subscribed.removesUser_iff huser hcalls hended
  refine ⟨huser, hended, ?_⟩
  by_contra hnot
  exact Bool.false_ne_true ((hgone.2 hnot).symm.trans hstays)

/-- A user can survive the removal that was put off. -/
theorem Reachable.not_forall_removesUser :
    ¬ ∀ (s : Session) (user : Id) (schedule : List (Option Command))
          (answer : Except StoreError Unit),
        Reachable s → s.store.hasUser user = true →
        (∀ c, some c ∈ schedule → c.Unsubscribes) →
        ((Departure.start s).run user schedule).task = .ended answer →
        ((Departure.start s).run user schedule).session.store.hasUser user = false := by
  intro h
  have hgone := h .subscribed 1 [none, some (.removeFeed 1 1), none] (.error .nothingUpdated)
    .subscribed (by decide +kernel) ?_ (by rfl)
  · exact absurd hgone (by decide +kernel)
  · intro c hc
    obtain rfl : c = Command.removeFeed 1 1 := by simpa using hc
    trivial

end FeedStore

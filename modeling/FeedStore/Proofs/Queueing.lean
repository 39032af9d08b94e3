import FeedStore.Background.Script
import FeedStore.Proofs.Statement
import Mathlib.Data.List.Forall2

/-!
# The order of the queue

Work that is put off is done in the order in which it was put off, each piece once, whatever the
tasks do: they may succeed, fail, panic, and put further tasks into the queue while they run. To say
so, a diary is kept of the tasks that were put into the queue and of those that were run; keeping it
changes nothing (`Queue.history_eq`). Those that were run and those that wait are together, in this
order, those that were put into the queue (`Queue.Balanced.calls`). What a running task puts into
the queue waits for the next time, and how a task ends shows in its own report and nowhere else
(`Queue.keepsOrder`).
-/

namespace FeedStore.Background

/-! ## Reports -/

/-- How the ending of a task is reported: with the text of its error, or with the message that it
panicked with if that was a text. -/
inductive Ending.ReportedAs : Ending → Outcome → Prop
  | done : ReportedAs .done .completed
  | error (cause : StoreError) : ReportedAs (.error cause) (.failed cause.message)
  | panic (message : String) : ReportedAs (.panic (.text message)) (.panicked message)
  | panicOther : ReportedAs (.panic .other) (.panicked "Unknown panic")

theorem Ending.reportedAs_outcome (ending : Ending) : ending.ReportedAs ending.outcome := by
  cases ending with
  | done => exact .done
  | error cause => exact .error cause
  | panic payload =>
      cases payload with
      | text message => exact .panic message
      | other => exact .panicOther

/-! ## Queues -/

/-- A queue that is part of a state. A task that runs may change the state in any way, but it leaves
the tasks that wait where they are and can only put others behind them. -/
structure Queue (τ σ : Type) where
  name : τ → String
  run : τ → σ → Ending × σ
  put : τ → σ → σ
  waiting : σ → List τ
  clear : σ → σ
  grows : ∀ task s, waiting s <+: waiting (run task s).2
  waiting_put : ∀ task s, waiting (put task s) = waiting s ++ [task]
  waiting_clear : ∀ s, waiting (clear s) = []

/-- What is done with a queue: a task is put into it, the tasks that wait are run, or something else
is done to the state, which can put tasks into the queue as well. -/
inductive Call {τ σ : Type} (waiting : σ → List τ) where
  | spawn (task : τ)
  | act (f : σ → σ) (grows : ∀ s, waiting s <+: waiting (f s))
  | runPending

/-- The tasks that were ever put into a queue, and those that were run, with their endings. -/
structure Diary (τ : Type) where
  spawned : List τ
  ran : List (τ × Ending) := []

namespace Queue

variable {τ σ : Type}

/-- Runs the tasks that wait now. -/
def runPending (q : Queue τ σ) (s : σ) : List Report × σ :=
  runAll q.name q.run (q.waiting s) (q.clear s)

def perform (q : Queue τ σ) (c : Call q.waiting) (s : σ) : List Report × σ :=
  match c with
  | .spawn task => ([], q.put task s)
  | .act f _ => ([], f s)
  | .runPending => q.runPending s

/-- Some calls, one after the other. -/
def calls (q : Queue τ σ) : List (Call q.waiting) → σ → List Report × σ
  | [], s => ([], s)
  | c :: cs, s =>
    let (reports, s) := q.perform c s
    let (more, s) := q.calls cs s
    (reports ++ more, s)

/-- The tasks that came into the queue between two states. -/
def added (q : Queue τ σ) (s t : σ) : List τ := (q.waiting t).drop (q.waiting s).length

/-- The queue with a diary that is kept beside the state. -/
def logged (q : Queue τ σ) : Queue τ (σ × Diary τ) where
  name := q.name
  run task x :=
    ((q.run task x.1).1, (q.run task x.1).2,
      { spawned := x.2.spawned ++ q.added x.1 (q.run task x.1).2
        ran := x.2.ran ++ [(task, (q.run task x.1).1)] })
  put task x := (q.put task x.1, { x.2 with spawned := x.2.spawned ++ [task] })
  waiting x := q.waiting x.1
  clear x := (q.clear x.1, x.2)
  grows task x := q.grows task x.1
  waiting_put task x := q.waiting_put task x.1
  waiting_clear x := q.waiting_clear x.1

/-- The call, with an entry in the diary for what it puts into the queue. -/
def loggedCall (q : Queue τ σ) : Call q.waiting → Call q.logged.waiting
  | .spawn task => .spawn task
  | .act f grows =>
    .act (fun x => (f x.1, { x.2 with spawned := x.2.spawned ++ q.added x.1 (f x.1) }))
      fun x => grows x.1
  | .runPending => .runPending

/-- The calls with a diary that begins with what waits. -/
def history (q : Queue τ σ) (cs : List (Call q.waiting)) (s : σ) : List Report × σ × Diary τ :=
  q.logged.calls (cs.map q.loggedCall) (s, { spawned := q.waiting s })

/-- The queue in which the tasks do the same, but end as prescribed. -/
def withEndings (q : Queue τ σ) (endings : τ → σ → Ending) : Queue τ σ :=
  { q with run := fun task s => (endings task s, (q.run task s).2) }

/-- The report is about that task and its ending. -/
def Tells (q : Queue τ σ) (report : Report) (task : τ × Ending) : Prop :=
  report.name = q.name task.1 ∧ task.2.ReportedAs report.outcome

/-- In the diary, the tasks that were run are those that were put into the queue, in the same order
and up to those that are left to run and those that wait. -/
def Balanced (q : Queue τ σ) (left : List τ) (x : σ × Diary τ) : Prop :=
  x.2.ran.map Prod.fst ++ (left ++ q.waiting x.1) = x.2.spawned

/-- The calls keep the queue in order. Keeping a diary changes nothing; there is a report about
every task that was run, in the same order; the tasks that were run and those that wait are those
that were put into the queue, in the same order; whoever runs what waits next runs exactly that, and
what comes into the queue meanwhile is what waits afterwards; and if tasks ended in another way, the
same tasks would be run in the same order, and do the same. -/
structure KeepsOrder (q : Queue τ σ) (cs : List (Call q.waiting)) (s : σ) : Prop where
  faithful : (q.history cs s).1 = (q.calls cs s).1 ∧ (q.history cs s).2.1 = (q.calls cs s).2
  reports : List.Forall₂ q.Tells (q.calls cs s).1 (q.history cs s).2.2.ran
  complete : (q.history cs s).2.2.ran.map Prod.fst ++ q.waiting (q.calls cs s).2
    = (q.history cs s).2.2.spawned
  drains : ∃ more,
    (q.history (cs ++ [.runPending]) s).2.2.ran = (q.history cs s).2.2.ran ++ more
    ∧ more.map Prod.fst = q.waiting (q.calls cs s).2
    ∧ (q.history (cs ++ [.runPending]) s).2.2.spawned
      = (q.history cs s).2.2.spawned ++ q.waiting (q.calls (cs ++ [.runPending]) s).2
  contained : ∀ endings : τ → σ → Ending,
    ((q.withEndings endings).calls cs s).2 = (q.calls cs s).2
    ∧ ((q.withEndings endings).history cs s).2.2.spawned = (q.history cs s).2.2.spawned
    ∧ ((q.withEndings endings).history cs s).2.2.ran.map Prod.fst
      = (q.history cs s).2.2.ran.map Prod.fst

variable {q : Queue τ σ} {s t : σ} {x : σ × Diary τ} {front back : List τ}

theorem waiting_append_added (h : q.waiting s <+: q.waiting t) :
    q.waiting s ++ q.added s t = q.waiting t := by
  obtain ⟨more, hmore⟩ := h
  unfold added
  rw [← hmore, List.drop_left]

/-! ## The diary changes nothing -/

theorem runAll_logged (tasks : List τ) (x : σ × Diary τ) :
    (runAll q.logged.name q.logged.run tasks x).1 = (runAll q.name q.run tasks x.1).1
      ∧ (runAll q.logged.name q.logged.run tasks x).2.1 = (runAll q.name q.run tasks x.1).2 := by
  induction tasks generalizing x with
  | nil => exact ⟨rfl, rfl⟩
  | cons task tasks ih =>
      obtain ⟨hreports, hstate⟩ := ih (q.logged.run task x).2
      exact ⟨congrArg (_ :: ·) hreports, hstate⟩

theorem perform_logged (c : Call q.waiting) (x : σ × Diary τ) :
    (q.logged.perform (q.loggedCall c) x).1 = (q.perform c x.1).1
      ∧ (q.logged.perform (q.loggedCall c) x).2.1 = (q.perform c x.1).2 := by
  cases c with
  | spawn task => exact ⟨rfl, rfl⟩
  | act f grows => exact ⟨rfl, rfl⟩
  | runPending => exact runAll_logged (q.waiting x.1) (q.logged.clear x)

theorem calls_logged (cs : List (Call q.waiting)) (x : σ × Diary τ) :
    (q.logged.calls (cs.map q.loggedCall) x).1 = (q.calls cs x.1).1
      ∧ (q.logged.calls (cs.map q.loggedCall) x).2.1 = (q.calls cs x.1).2 := by
  induction cs generalizing x with
  | nil => exact ⟨rfl, rfl⟩
  | cons c cs ih =>
      obtain ⟨hreports, hstate⟩ := q.perform_logged c x
      obtain ⟨hmore, hend⟩ := ih (q.logged.perform (q.loggedCall c) x).2
      rw [hstate] at hmore hend
      exact ⟨congrArg₂ (· ++ ·) hreports hmore, hend⟩

theorem calls_append (cs ds : List (Call q.waiting)) (s : σ) :
    q.calls (cs ++ ds) s
      = ((q.calls cs s).1 ++ (q.calls ds (q.calls cs s).2).1, (q.calls ds (q.calls cs s).2).2) := by
  induction cs generalizing s with
  | nil => rfl
  | cons c cs ih =>
      show ((q.perform c s).1 ++ (q.calls (cs ++ ds) (q.perform c s).2).1,
        (q.calls (cs ++ ds) (q.perform c s).2).2) = _
      rw [ih, ← List.append_assoc]
      rfl

/-! ## Nothing is lost -/

theorem Balanced.run {task : τ} {left : List τ} (h : q.Balanced (task :: left) x) :
    q.Balanced left (q.logged.run task x).2 := by
  have hwaiting := waiting_append_added (q.grows task x.1)
  unfold Balanced at h ⊢
  show (x.2.ran ++ [(task, (q.run task x.1).1)]).map Prod.fst
      ++ (left ++ q.waiting (q.run task x.1).2)
    = x.2.spawned ++ q.added x.1 (q.run task x.1).2
  rw [← h, ← hwaiting]
  simp

/-- Some of the tasks that were drained have been run, and the others are still to come. -/
theorem Balanced.runAll (h : q.Balanced (front ++ back) x) :
    q.Balanced back (runAll q.logged.name q.logged.run front x).2 := by
  induction front generalizing x with
  | nil => exact h
  | cons task front ih => exact ih h.run

theorem Balanced.perform (h : q.Balanced [] x) (c : Call q.waiting) :
    q.Balanced [] (q.logged.perform (q.loggedCall c) x).2 := by
  cases c with
  | spawn task =>
      unfold Balanced at h ⊢
      show x.2.ran.map Prod.fst ++ ([] ++ q.waiting (q.put task x.1)) = x.2.spawned ++ [task]
      rw [q.waiting_put, ← h]
      simp
  | act f grows =>
      have hwaiting := waiting_append_added (grows x.1)
      unfold Balanced at h ⊢
      show x.2.ran.map Prod.fst ++ ([] ++ q.waiting (f x.1)) = x.2.spawned ++ q.added x.1 (f x.1)
      rw [← h, ← hwaiting]
      simp
  | runPending =>
      have hdrained : q.Balanced (q.waiting x.1 ++ []) (q.logged.clear x) := by
        unfold Balanced at h ⊢
        show x.2.ran.map Prod.fst ++ (q.waiting x.1 ++ [] ++ q.waiting (q.clear x.1)) = x.2.spawned
        rw [q.waiting_clear, ← h]
        simp
      exact hdrained.runAll

theorem Balanced.calls (h : q.Balanced [] x) (cs : List (Call q.waiting)) :
    q.Balanced [] (q.logged.calls (cs.map q.loggedCall) x).2 := by
  induction cs generalizing x with
  | nil => exact h
  | cons c cs ih => exact ih (h.perform c)

/-! ## Every task that is run is reported -/

theorem exists_ran_runAll (tasks : List τ) (x : σ × Diary τ) :
    ∃ more, (runAll q.logged.name q.logged.run tasks x).2.2.ran = x.2.ran ++ more
      ∧ more.map Prod.fst = tasks
      ∧ List.Forall₂ q.Tells (runAll q.logged.name q.logged.run tasks x).1 more := by
  induction tasks generalizing x with
  | nil => exact ⟨[], (List.append_nil _).symm, rfl, .nil⟩
  | cons task tasks ih =>
      obtain ⟨more, hran, htasks, hreports⟩ := ih (q.logged.run task x).2
      refine ⟨(task, (q.run task x.1).1) :: more, ?_, congrArg (task :: ·) htasks,
        .cons ⟨rfl, Ending.reportedAs_outcome _⟩ hreports⟩
      exact hran.trans (List.append_assoc _ _ _)

theorem exists_ran_calls (cs : List (Call q.waiting)) (x : σ × Diary τ) :
    ∃ more, (q.logged.calls (cs.map q.loggedCall) x).2.2.ran = x.2.ran ++ more
      ∧ List.Forall₂ q.Tells (q.logged.calls (cs.map q.loggedCall) x).1 more := by
  induction cs generalizing x with
  | nil => exact ⟨[], (List.append_nil _).symm, .nil⟩
  | cons c cs ih =>
      obtain ⟨first, hfirst, hreports⟩ : ∃ first,
          (q.logged.perform (q.loggedCall c) x).2.2.ran = x.2.ran ++ first
            ∧ List.Forall₂ q.Tells (q.logged.perform (q.loggedCall c) x).1 first := by
        cases c with
        | spawn task => exact ⟨[], (List.append_nil _).symm, .nil⟩
        | act f grows => exact ⟨[], (List.append_nil _).symm, .nil⟩
        | runPending =>
            obtain ⟨first, hran, -, hreports⟩ :=
              exists_ran_runAll (q := q) (q.waiting x.1) (q.logged.clear x)
            exact ⟨first, hran, hreports⟩
      obtain ⟨more, hran, hmore⟩ := ih (q.logged.perform (q.loggedCall c) x).2
      refine ⟨first ++ more, ?_, List.rel_append hreports hmore⟩
      exact (hran.trans (congrArg (· ++ more) hfirst)).trans (List.append_assoc _ _ _)

/-! ## Other endings -/

/-- The states are the same, and so are the diaries but for the endings. -/
structure Alike (x y : σ × Diary τ) : Prop where
  state : x.1 = y.1
  spawned : x.2.spawned = y.2.spawned
  ran : x.2.ran.map Prod.fst = y.2.ran.map Prod.fst

variable {y : σ × Diary τ}

theorem Alike.runAll (h : Alike x y) (endings : τ → σ → Ending) (tasks : List τ) :
    Alike (runAll (q.withEndings endings).logged.name (q.withEndings endings).logged.run tasks x).2
      (runAll q.logged.name q.logged.run tasks y).2 := by
  induction tasks generalizing x y with
  | nil => exact h
  | cons task tasks ih =>
      refine ih ⟨?_, ?_, ?_⟩
      · exact congrArg (fun s => (q.run task s).2) h.state
      · show x.2.spawned ++ q.added x.1 (q.run task x.1).2 = _
        rw [h.state, h.spawned]
      · show (x.2.ran ++ [(task, _)]).map Prod.fst = (y.2.ran ++ [(task, _)]).map Prod.fst
        rw [List.map_append, List.map_append, h.ran]
        rfl

theorem Alike.perform (h : Alike x y) (endings : τ → σ → Ending) (c : Call q.waiting) :
    Alike ((q.withEndings endings).logged.perform ((q.withEndings endings).loggedCall c) x).2
      (q.logged.perform (q.loggedCall c) y).2 := by
  cases c with
  | spawn task =>
      exact ⟨congrArg (q.put task) h.state, congrArg (· ++ [task]) h.spawned, h.ran⟩
  | act f grows =>
      refine ⟨congrArg f h.state, ?_, h.ran⟩
      show x.2.spawned ++ q.added x.1 (f x.1) = y.2.spawned ++ q.added y.1 (f y.1)
      rw [h.state, h.spawned]
  | runPending =>
      have hcleared : Alike (q.logged.clear x) (q.logged.clear y) :=
        ⟨congrArg q.clear h.state, h.spawned, h.ran⟩
      have hwaiting : q.waiting x.1 = q.waiting y.1 := congrArg q.waiting h.state
      show Alike (Background.runAll _ _ (q.waiting x.1) _).2 (Background.runAll _ _ _ _).2
      rw [hwaiting]
      exact hcleared.runAll endings (q.waiting y.1)

theorem Alike.calls (h : Alike x y) (endings : τ → σ → Ending) (cs : List (Call q.waiting)) :
    Alike ((q.withEndings endings).logged.calls
        (cs.map (q.withEndings endings).loggedCall) x).2
      (q.logged.calls (cs.map q.loggedCall) y).2 := by
  induction cs generalizing x y with
  | nil => exact h
  | cons c cs ih => exact ih (h.perform endings c)

/-! ## Order -/

theorem history_eq (q : Queue τ σ) (cs : List (Call q.waiting)) (s : σ) :
    (q.history cs s).1 = (q.calls cs s).1 ∧ (q.history cs s).2.1 = (q.calls cs s).2 :=
  calls_logged cs (s, { spawned := q.waiting s })

/-- The tasks that were run and those that wait are those that were put into the queue. -/
theorem history_complete (q : Queue τ σ) (cs : List (Call q.waiting)) (s : σ) :
    (q.history cs s).2.2.ran.map Prod.fst ++ q.waiting (q.calls cs s).2
      = (q.history cs s).2.2.spawned := by
  have hstart : q.Balanced [] (s, { spawned := q.waiting s }) := rfl
  rw [← (q.history_eq cs s).2]
  exact hstart.calls cs

/-- Running what waits after some calls runs exactly that. -/
theorem history_runPending (q : Queue τ σ) (cs : List (Call q.waiting)) (s : σ) :
    ∃ more, (q.history (cs ++ [.runPending]) s).2.2.ran = (q.history cs s).2.2.ran ++ more
      ∧ more.map Prod.fst = q.waiting (q.calls cs s).2 := by
  have hlast : (q.history (cs ++ [.runPending]) s).2
      = (q.logged.runPending (q.history cs s).2).2 := by
    unfold history
    rw [List.map_append, calls_append]
    rfl
  obtain ⟨more, hran, htasks, -⟩ := exists_ran_runAll (q := q)
    (q.waiting (q.history cs s).2.1) (q.logged.clear (q.history cs s).2)
  rw [(q.history_eq cs s).2] at htasks
  exact ⟨more, (congrArg (·.2.ran) hlast).trans hran, htasks⟩

theorem keepsOrder (q : Queue τ σ) (cs : List (Call q.waiting)) (s : σ) : q.KeepsOrder cs s := by
  refine ⟨q.history_eq cs s, ?_, q.history_complete cs s, ?_, fun endings => ?_⟩
  · obtain ⟨more, hran, hreports⟩ := exists_ran_calls cs (s, { spawned := q.waiting s })
    rw [(q.history_eq cs s).1.symm]
    exact (hran.trans (List.nil_append _)).symm ▸ hreports
  · obtain ⟨more, hran, htasks⟩ := q.history_runPending cs s
    have hafter := q.history_complete (cs ++ [.runPending]) s
    refine ⟨more, hran, htasks, ?_⟩
    rw [hran, List.map_append, htasks, q.history_complete cs s] at hafter
    exact hafter.symm
  · have halike : Alike (s, { spawned := q.waiting s }) (s, { spawned := q.waiting s }) :=
      ⟨rfl, rfl, rfl⟩
    obtain ⟨hstate, hspawned, hran⟩ := halike.calls endings cs
    refine ⟨?_, hspawned, hran⟩
    exact ((q.withEndings endings).history_eq cs s).2.symm.trans
      (hstate.trans (q.history_eq cs s).2)

end Queue

/-! ## The queues -/

/-- The queue of scripted tasks on a desk. -/
def Desk.queue : Queue NamedScript Desk where
  name := (·.name)
  run task := Desk.perform task.script
  put task d := d.enqueue task
  waiting := (·.waiting)
  clear d := { d with waiting := [] }
  grows task d := by
    cases task.script with
    | finish mark ending => exact List.prefix_rfl
    | enqueue mark name next => exact List.prefix_append _ _
  waiting_put _ _ := rfl
  waiting_clear _ := rfl

end FeedStore.Background

namespace FeedStore

open Background

/-- The queue of the work that is put off in a session. -/
def Session.queue : Queue Job Session where
  name := (·.work.name)
  run := Session.runJob
  put job s := { s with jobs := s.jobs ++ [job] }
  waiting := (·.jobs)
  clear s := { s with jobs := [] }
  grows _ _ := ⟨[], (List.append_nil _).trans Session.evolves_runJob.jobs.symm⟩
  waiting_put _ _ := rfl
  waiting_clear _ := rfl

/-- To the queue of a session, a command is a call. -/
theorem Command.exists_queueCall (c : Command) :
    ∃ call : Call Session.queue.waiting, ∀ s, (Session.queue.perform call s).2 = c.next s := by
  by_cases hc : c = .runPending
  · exact ⟨.runPending, fun _ => hc ▸ rfl⟩
  · refine ⟨.act c.next fun s => ?_, fun _ => rfl⟩
    show s.jobs <+: (c.next s).jobs
    rw [(c.takes_next s).jobs]
    split
    · exact absurd rfl hc
    · exact List.prefix_append _ _

theorem Session.exists_queueCalls (cs : List Command) :
    ∃ calls : List (Call Session.queue.waiting),
      ∀ s : Session, (Session.queue.calls calls s).2 = s.run cs := by
  induction cs with
  | nil => exact ⟨[], fun _ => rfl⟩
  | cons c cs ih =>
      obtain ⟨call, hcall⟩ := c.exists_queueCall
      obtain ⟨calls, hcalls⟩ := ih
      refine ⟨call :: calls, fun s => ?_⟩
      show (Session.queue.calls calls (Session.queue.perform call s).2).2 = (c.next s).run cs
      rw [hcall, hcalls]

/-- However tasks are put into a queue and run, and whatever they do, the queue is kept in order.
The queue of scripted tasks is such a queue, and so is the work that is put off in a session,
whatever commands are given to it. -/
theorem queues_keep_order :
    (∀ {τ σ : Type} (q : Queue τ σ) (cs : List (Call q.waiting)) (s : σ), q.KeepsOrder cs s)
      ∧ (∀ d, Desk.queue.runPending d = d.runPending)
      ∧ (∀ s, Session.queue.runPending s = s.runPending)
      ∧ ∀ cs : List Command, ∃ calls : List (Call Session.queue.waiting),
          ∀ s : Session, (Session.queue.calls calls s).2 = s.run cs :=
  ⟨fun q cs s => q.keepsOrder cs s, fun _ => rfl, fun _ => rfl, Session.exists_queueCalls⟩

end FeedStore

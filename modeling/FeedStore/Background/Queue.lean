import FeedStore.Error

/-!
# Work put off for later

Work that nobody waits for is put into a queue under a name and run when somebody asks for it. Asking
runs the tasks that are waiting at that moment, oldest first, and reports how each one ended; what a
running task puts into the queue waits for the next time. A task that fails or panics says so in its
own report and has no influence on the others.
-/

namespace FeedStore.Background

/-- What a panicking task leaves behind. -/
inductive Payload where
  | text (message : String)
  | other
  deriving DecidableEq, Repr

def Payload.message : Payload → String
  | text message => message
  | other => "Unknown panic"

/-- How a task ends. -/
inductive Ending where
  | done
  | error (cause : StoreError)
  | panic (payload : Payload)
  deriving DecidableEq, Repr

/-- What is reported about a task that has been run. -/
inductive Outcome where
  | completed
  | failed (message : String)
  | panicked (message : String)
  deriving DecidableEq, Repr

def Ending.outcome : Ending → Outcome
  | done => .completed
  | error cause => .failed cause.message
  | panic payload => .panicked payload.message

/-- The ending of a task that is an operation on a store. -/
def Ending.ofExcept {α : Type} : Except StoreError α → Ending
  | .ok _ => done
  | .error cause => error cause

/-- The name of a task and how it ended. -/
structure Report where
  name : String
  outcome : Outcome
  deriving DecidableEq, Repr

/-- Runs tasks in the given order and passes the state from each to the next. -/
def runAll {τ σ : Type} (name : τ → String) (run : τ → σ → Ending × σ) :
    List τ → σ → List Report × σ
  | [], s => ([], s)
  | task :: tasks, s =>
    let (ending, s) := run task s
    let (reports, s) := runAll name run tasks s
    (⟨name task, ending.outcome⟩ :: reports, s)

/-- Tasks behind others run in the state that those leave. -/
theorem runAll_append {τ σ : Type} (name : τ → String) (run : τ → σ → Ending × σ)
    (front back : List τ) (s : σ) :
    runAll name run (front ++ back) s
      = ((runAll name run front s).1 ++ (runAll name run back (runAll name run front s).2).1,
          (runAll name run back (runAll name run front s).2).2) := by
  induction front generalizing s with
  | nil => rfl
  | cons task front ih => simp [runAll, ih]

end FeedStore.Background

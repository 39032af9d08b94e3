import FeedStore.Background.Queue

/-!
# Scripted tasks

A scripted task writes its mark into a log and then ends in a prescribed way, or puts another task
into the queue. Scripts show the rules of the queue without a store behind it.
-/

namespace FeedStore.Background

/-- What a scripted task does after it has written its mark. -/
inductive Script where
  | finish (mark : Int) (ending : Ending)
  | enqueue (mark : Int) (name : String) (next : Script)
  deriving Repr

/-- A scripted task and the name that it waits under. -/
structure NamedScript where
  name : String
  script : Script
  deriving Repr

/-- The marks written so far and the tasks that wait, both oldest first. -/
structure Desk where
  log : List Int := []
  waiting : List NamedScript := []
  deriving Repr

namespace Desk

/-- Puts a task behind those that wait. -/
def enqueue (d : Desk) (task : NamedScript) : Desk :=
  { d with waiting := d.waiting ++ [task] }

def perform (s : Script) (d : Desk) : Ending × Desk :=
  match s with
  | .finish mark ending => (ending, { d with log := d.log ++ [mark] })
  | .enqueue mark name next =>
    (.done, { d with log := d.log ++ [mark] }.enqueue ⟨name, next⟩)

/-- Runs the tasks that wait now. -/
def runPending (d : Desk) : List Report × Desk :=
  runAll (·.name) (fun task => perform task.script) d.waiting { d with waiting := [] }

def pending (d : Desk) : Nat := d.waiting.length

end Desk

end FeedStore.Background

import ForkJoin.Name

/-!
# Names of threads and cells

A task is named by the path of spawns that leads to it, and the cell of a task by the task. So the
names that a program gives out do not depend on the order in which its threads take their steps.
-/

namespace ForkJoin

/-- Who evaluates: the main thread, a helper started from outside, or the task that a thread
spawned as its `index`-th, counted from one. The name of a task is thus the path of spawns that
leads to it, and does not depend on when the spawn happened. -/
inductive ThreadId where
  | main
  | helper (n : Nat)
  | child (parent : ThreadId) (index : Nat)
  deriving DecidableEq, Inhabited, Repr

/-- The name under which a thread is reported. -/
def ThreadId.label : ThreadId → String
  | .main => "main"
  | .helper n => s!"helper{n}"
  | .child .main index => s!"t{index}"
  | .child parent index => s!"{parent.label}.{index}"

/-- Where a result lands: in the cell of a task, or in a cell made outside, which has a name and
counts how many cells had that name before it. -/
inductive CellId where
  | task (thread : ThreadId)
  | external (name : Name) (generation : Nat)
  deriving DecidableEq, Inhabited, Repr

end ForkJoin

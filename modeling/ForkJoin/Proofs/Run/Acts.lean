import ForkJoin.Proofs.Run

/-!
# Spawns and claims

What the threads spawn and claim in a run, in the order of the steps.
-/

namespace ForkJoin

/-- What a thread does in a step that hands out a name or uses one: it spawns a task, or it claims a
cell, whether or not it gets it. -/
inductive Act where
  | spawn (task : ThreadId) (work : Work)
  | claim (cell : CellId)

namespace Thread

def act? (id : ThreadId) (t : Thread) : Option Act :=
  match t.rest with
  | .spawn work _ => some (.spawn (.child id (t.spawned + 1)) work)
  | .claim x _ => some (.claim x)
  | _ => none

end Thread

namespace System

def act? (s : System) (id : ThreadId) : Option Act :=
  (s.thread id).bind (·.act? id)

/-- What the threads spawn and claim in a run, in order. -/
def acts (stack : Stack) : System → List ThreadId → List (ThreadId × Act)
  | _, [] => []
  | s, id :: ids =>
    ((s.act? id).map (id, ·)).toList ++ ((s.step stack id).map (·.acts stack ids)).getD []

variable {stack : Stack} {s next : System} {id : ThreadId}

theorem acts_cons (hstep : s.step stack id = some next) (ids : List ThreadId) :
    s.acts stack (id :: ids) = ((s.act? id).map (id, ·)).toList ++ next.acts stack ids := by
  simp [acts, hstep]

theorem mem_acts_head {act : Act} (hstep : s.step stack id = some next)
    (hact : s.act? id = some act) (ids : List ThreadId) :
    (id, act) ∈ s.acts stack (id :: ids) := by
  simp [acts_cons hstep, hact]

theorem mem_acts_tail {ids : List ThreadId} {act : ThreadId × Act}
    (hstep : s.step stack id = some next) (hact : act ∈ next.acts stack ids) :
    act ∈ s.acts stack (id :: ids) := by
  rw [acts_cons hstep]
  exact List.mem_append_right _ hact

def actsBy (stack : Stack) (id : ThreadId) (s : System) (ids : List ThreadId) : List Act :=
  ((s.acts stack ids).filter (·.1 = id)).map (·.2)

theorem actsBy_cons (hstep : s.step stack id = some next) (u : ThreadId) (ids : List ThreadId) :
    s.actsBy stack u (id :: ids) =
      (if id = u then (s.act? u).toList else []) ++ next.actsBy stack u ids := by
  rw [actsBy, acts_cons hstep, List.filter_append, List.map_append, actsBy]
  congr 1
  by_cases hid : id = u
  · subst hid
    cases s.act? id <;> simp
  · cases s.act? id <;> simp [hid]

end System

end ForkJoin

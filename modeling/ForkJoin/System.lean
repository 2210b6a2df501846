import ForkJoin.Eval

/-!
# Threads and cells

A system is a set of threads, each with the program that it still has to run, and the cells through
which they pass results. Threads share nothing else. One thread at a time makes one step: it prints
a line, spawns a task, claims a cell, receives what was written to a cell, or delivers its own
result. A thread that waits for a cell that is not written has no step, and neither has a thread
that is over.

Threads and cells are found by name. What a step does depends only on the thread that makes it and
the one cell that it touches; it is first found out as an `Effect` and then brought about.
-/

namespace ForkJoin

/-! ### Threads -/

structure Delivery where
  cell : CellId
  /-- The name under which the end of the thread is announced. -/
  label : Datum
  /-- Whether it is announced at all. -/
  announce : Bool
  deriving Inhabited

/-- A thread: what it still has to do, how many tasks it has spawned, where its result goes, and
what it has printed, the latest line first. -/
structure Thread where
  rest : Prog Work Result
  spawned : Nat := 0
  delivery : Option Delivery := none
  /-- How the delivery went, once it has happened. -/
  delivered : Option (Except Fault Unit) := none
  printed : List String := []
  deriving Inhabited

namespace Thread

/-- The thread of a spawned task. -/
def task (stack : Stack) (id : ThreadId) (work : Work) : Thread where
  rest := stack.eval (work.context.child id.label) work.env work.expr
  delivery := some ⟨.task id, id.label, work.context.debug⟩

def idle : Thread where
  rest := .done (.ofValue (.vec []))

/-- Whether nothing is left for a thread to do. -/
def isOver (t : Thread) : Bool :=
  t.rest.ended?.isSome && (t.delivery.isNone || t.delivered.isSome)

def print (t : Thread) (line : String) : Thread :=
  { t with printed := line :: t.printed }

/-- The cell that a thread has to touch before it can go on. -/
def wanted? (t : Thread) : Option CellId :=
  match t.rest with
  | .claim cell _ | .await cell _ => some cell
  | _ => none

end Thread

/-- The line that announces the end of a task. -/
def announcement (label : Datum) : Outcome → String
  | .ok _ => s!"[task {label.display}] committed"
  | .error e => s!"[task {label.display}] failed: " ++ e.text

/-! ### Effects of steps -/

/-- What a step does: what becomes of its thread, the cells that it changes or makes and the threads
that it starts. -/
structure Effect where
  thread : Thread
  cells : List (CellId × Cell) := []
  starts : List (ThreadId × Thread) := []
  deriving Inhabited

namespace Thread

/-- Delivers the result of a thread: announces it, then writes it to the cell. -/
def deliver (cell : CellId → Option Cell) (t : Thread) (d : Delivery) (o : Outcome) : Effect :=
  let t := if d.announce then t.print (announcement d.label o) else t
  match cell d.cell with
  | none => { thread := { t with delivered := some (.error .outOfRange) } }
  | some c =>
    match c.write o with
    | .ok c => { thread := { t with delivered := some (.ok ()) }, cells := [(d.cell, c)] }
    | .error f => { thread := { t with delivered := some (.error f) } }

/-- What a thread does when its program has ended. -/
def finish (cell : CellId → Option Cell) (t : Thread) (o : Outcome) : Option Effect :=
  match t.delivery, t.delivered with
  | some d, none => some (t.deliver cell d o)
  | _, _ => none

/-- What the next step of a thread does, if it has one. -/
def act (stack : Stack) (cell : CellId → Option Cell) (id : ThreadId) (t : Thread) :
    Option Effect :=
  match t.rest with
  | .done r => t.finish cell (.ok r.value)
  | .fail e => t.finish cell (.error e)
  | .emit line rest => some { thread := { t with rest }.print line }
  | .spawn work rest =>
    let new := ThreadId.child id (t.spawned + 1)
    some
      { thread := { t with rest := rest new, spawned := t.spawned + 1 },
        cells := [(.task new, { label := new.label })],
        starts := [(new, .task stack new work)] }
  | .claim wanted rest =>
    match cell wanted with
    | none => none
    | some c =>
      match c.claim with
      | .ok c => some { thread := { t with rest }, cells := [(wanted, c)] }
      | .error e => some { thread := { t with rest := .raise e } }
  | .await wanted rest =>
    match (cell wanted).bind (·.outcome) with
    | none => none
    | some (.ok v) => some { thread := { t with rest := rest v } }
    | some (.error e) => some { thread := { t with rest := .fail e } }

end Thread

/-! ### Systems -/

structure System where
  thread : ThreadId → Option Thread
  cell : CellId → Option Cell

namespace System

/-- The cells that are there from the start: those made outside, empty and labelled with their
names. -/
def firstCell : CellId → Option Cell
  | .external name 0 => some { label := name.toDatum }
  | _ => none

def initial : System where
  thread id := if id = .main then some .idle else none
  cell := firstCell

instance : Inhabited System := ⟨initial⟩

def setThread (s : System) (id : ThreadId) (t : Thread) : System :=
  { s with thread := fun other => if other = id then some t else s.thread other }

def setCell (s : System) (id : CellId) (c : Cell) : System :=
  { s with cell := fun other => if other = id then some c else s.cell other }

@[simp] theorem thread_setThread (s : System) (id other : ThreadId) (t : Thread) :
    (s.setThread id t).thread other = if other = id then some t else s.thread other := rfl

@[simp] theorem cell_setThread (s : System) (id : ThreadId) (t : Thread) :
    (s.setThread id t).cell = s.cell := rfl

@[simp] theorem cell_setCell (s : System) (id other : CellId) (c : Cell) :
    (s.setCell id c).cell other = if other = id then some c else s.cell other := rfl

@[simp] theorem thread_setCell (s : System) (id : CellId) (c : Cell) :
    (s.setCell id c).thread = s.thread := rfl

def bring (s : System) (id : ThreadId) (e : Effect) : System :=
  let s := e.cells.foldl (fun s (cell, c) => s.setCell cell c) s
  let s := e.starts.foldl (fun s (new, t) => s.setThread new t) s
  s.setThread id e.thread

theorem thread_foldl_setCell (cells : List (CellId × Cell)) (s : System) :
    (cells.foldl (fun s (cell, c) => s.setCell cell c) s).thread = s.thread := by
  induction cells generalizing s with
  | nil => rfl
  | cons entry cells ih => exact ih _

theorem cell_foldl_setThread (starts : List (ThreadId × Thread)) (s : System) :
    (starts.foldl (fun s (new, t) => s.setThread new t) s).cell = s.cell := by
  induction starts generalizing s with
  | nil => rfl
  | cons start starts ih => exact ih _

theorem foldl_write {S K V : Type} [DecidableEq K] {read : S → K → Option V}
    {write : S → K → V → S} (hread : ∀ s key other v,
      read (write s key v) other = if other = key then some v else read s other)
    (entries : List (K × V)) (s : S) (key : K) :
    (∃ v, (key, v) ∈ entries ∧
        read (entries.foldl (fun s (key, v) => write s key v) s) key = some v) ∨
      read (entries.foldl (fun s (key, v) => write s key v) s) key = read s key := by
  induction entries generalizing s with
  | nil => exact .inr rfl
  | cons entry entries ih =>
    rcases ih (write s entry.1 entry.2) with ⟨v, hmem, hv⟩ | hsame
    · exact .inl ⟨v, List.mem_cons_of_mem _ hmem, hv⟩
    · by_cases hkey : key = entry.1
      · rw [hread, if_pos hkey] at hsame
        exact .inl ⟨entry.2, List.mem_cons.2 (.inl (Prod.ext hkey rfl)), hsame⟩
      · rw [hread, if_neg hkey] at hsame
        exact .inr hsame

/-- A thread after a step: the one that made it, one that was started, or one as it was. -/
theorem thread_bring (s : System) (id : ThreadId) (e : Effect) (other : ThreadId) :
    (other = id ∧ (s.bring id e).thread other = some e.thread) ∨
      other ≠ id ∧ ((∃ t, (other, t) ∈ e.starts ∧ (s.bring id e).thread other = some t) ∨
        (s.bring id e).thread other = s.thread other) := by
  by_cases hid : other = id
  · exact .inl ⟨hid, by rw [bring, thread_setThread, if_pos hid]⟩
  · refine .inr ⟨hid, ?_⟩
    rw [bring, thread_setThread, if_neg hid, ← congrFun (thread_foldl_setCell e.cells s) other]
    exact foldl_write thread_setThread e.starts _ other

/-- A cell after a step: one that was changed, or as it was. -/
theorem cell_bring (s : System) (id : ThreadId) (e : Effect) (x : CellId) :
    (∃ c, (x, c) ∈ e.cells ∧ (s.bring id e).cell x = some c) ∨
      (s.bring id e).cell x = s.cell x := by
  rw [bring, cell_setThread, cell_foldl_setThread]
  exact foldl_write cell_setCell e.cells s x

/-- One step of a thread, if it has one. -/
def step (stack : Stack) (s : System) (id : ThreadId) : Option System := do
  let t ← s.thread id
  let e ← t.act stack s.cell id
  return s.bring id e

/-- What an observer sees of a cell; one that does not exist is empty. -/
def view (s : System) (id : CellId) : CellState :=
  match s.cell id with
  | some c => c.state
  | none => .empty

/-- Whether a thread is over; one that does not exist is. -/
def isOver (s : System) (id : ThreadId) : Bool :=
  match s.thread id with
  | some t => t.isOver
  | none => true

end System

end ForkJoin

import ForkJoin.System
import ForkJoin.Table

/-!
# Scheduling

A pool keeps the threads and cells of a system in tables and decides whose turn it is. The schedule
is fixed: whenever a step is to be made, the oldest thread that has one makes it. The main thread is
the oldest, so tasks run while it waits and after it has ended; the tasks follow in the order in
which they were started. A thread that has to wait for a cell is put aside until the cell is
written.

A pool settles when no thread has a step any more: each is over, or waits for a cell that is not
written. What a pool does to its system is what steps of threads do; `bring_system` says so for
one step.
-/

namespace ForkJoin

/-! ### Stores -/

/-- The threads and cells of a system in tables. -/
structure Store where
  threads : Table ThreadId Thread := {}
  cells : Table CellId Cell := {}
  deriving Inhabited

namespace Store

/-- The thread of a name; the main thread is idle to start with. -/
def thread (s : Store) (id : ThreadId) : Option Thread :=
  match s.threads.get? id with
  | some t => some t
  | none => System.initial.thread id

def cell (s : Store) (id : CellId) : Option Cell :=
  match s.cells.get? id with
  | some c => some c
  | none => System.firstCell id

/-- The system that a store holds. -/
def system (s : Store) : System where
  thread := s.thread
  cell := s.cell

def setThread (s : Store) (id : ThreadId) (t : Thread) : Store :=
  { s with threads := s.threads.set id t }

def setCell (s : Store) (id : CellId) (c : Cell) : Store :=
  { s with cells := s.cells.set id c }

def bring (s : Store) (id : ThreadId) (e : Effect) : Store :=
  let s := e.cells.foldl (fun s (cell, c) => s.setCell cell c) s
  let s := e.starts.foldl (fun s (new, t) => s.setThread new t) s
  s.setThread id e.thread

@[simp] theorem system_setThread (s : Store) (id : ThreadId) (t : Thread) :
    (s.setThread id t).system = s.system.setThread id t := by
  simp only [system, System.setThread, System.mk.injEq]
  refine ⟨funext fun other => ?_, rfl⟩
  by_cases h : other = id <;> simp [thread, setThread, Table.get?_set, h]

@[simp] theorem system_setCell (s : Store) (id : CellId) (c : Cell) :
    (s.setCell id c).system = s.system.setCell id c := by
  simp only [system, System.setCell, System.mk.injEq]
  refine ⟨rfl, funext fun other => ?_⟩
  by_cases h : other = id <;> simp [cell, setCell, Table.get?_set, h]

theorem system_foldl_setCell (cells : List (CellId × Cell)) (s : Store) :
    (cells.foldl (fun s (cell, c) => s.setCell cell c) s).system =
      cells.foldl (fun s (cell, c) => s.setCell cell c) s.system := by
  induction cells generalizing s with
  | nil => rfl
  | cons entry rest ih => simp [ih]

theorem system_foldl_setThread (threads : List (ThreadId × Thread)) (s : Store) :
    (threads.foldl (fun s (id, t) => s.setThread id t) s).system =
      threads.foldl (fun s (id, t) => s.setThread id t) s.system := by
  induction threads generalizing s with
  | nil => rfl
  | cons entry rest ih => simp [ih]

/-- A step does to a store what it does to the system in it. -/
theorem bring_system (s : Store) (id : ThreadId) (e : Effect) :
    (s.bring id e).system = s.system.bring id e := by
  simp [bring, System.bring, system_foldl_setCell, system_foldl_setThread]

end Store

/-! ### Pools -/

/-- A place in the order in which threads are served. -/
structure Turn where
  rank : Nat
  thread : ThreadId
  deriving DecidableEq, Inhabited, Repr

def Turn.insert (turn : Turn) : List Turn → List Turn
  | [] => [turn]
  | first :: rest => if turn.rank < first.rank then turn :: first :: rest
    else first :: Turn.insert turn rest

/-- A store, all threads that were ever in it in the order in which they were started, the turns of
those that can be served, by rank, and those that wait, each with its cell. -/
structure Pool where
  store : Store := {}
  known : List ThreadId := [.main]
  started : Nat := 1
  ready : List Turn := []
  waiting : List (CellId × Turn) := []
  deriving Inhabited

namespace Pool

def system (p : Pool) : System :=
  p.store.system

def add (p : Pool) (id : ThreadId) (t : Thread) : Pool :=
  { p with
    store := p.store.setThread id t
    known := p.known ++ [id]
    started := p.started + 1
    ready := p.ready ++ [⟨p.started, id⟩] }

/-- Lets the threads that wait for a cell be served again. -/
def wake (p : Pool) (cell : CellId) : Pool :=
  let (woken, waiting) := p.waiting.partition (·.1 = cell)
  { p with waiting, ready := woken.foldl (fun ready (_, turn) => turn.insert ready) p.ready }

/-- Sets a cell; if something is written to it, whoever waits for it goes on. -/
def setCell (p : Pool) (id : CellId) (c : Cell) : Pool :=
  let p := { p with store := p.store.setCell id c }
  if c.outcome.isSome then p.wake id else p

/-- Takes note of a step of the thread whose turn it was. -/
def noteStep (p : Pool) (turn : Turn) (rest : List Turn) (e : Effect) : Pool :=
  let ready := if e.thread.isOver then rest else turn :: rest
  let p := { p with store := p.store.bring turn.thread e, ready }
  let p := e.starts.foldl (fun p (id, _) =>
    { p with
      known := p.known ++ [id]
      started := p.started + 1
      ready := p.ready ++ [⟨p.started, id⟩] }) p
  e.cells.foldl (fun p (id, c) => if c.outcome.isSome then p.wake id else p) p

/-- Puts aside the thread whose turn it was. -/
def setAside (p : Pool) (turn : Turn) (rest : List Turn) : Pool :=
  match (p.store.thread turn.thread).bind Thread.wanted? with
  | some cell => { p with ready := rest, waiting := (cell, turn) :: p.waiting }
  | none => { p with ready := rest }

/-- One step of the first thread that has a turn; without a step it loses the turn. -/
def advance (stack : Stack) (p : Pool) : Option Pool :=
  match p.ready with
  | [] => none
  | turn :: rest =>
    match (p.store.thread turn.thread).bind (·.act stack p.store.cell turn.thread) with
    | some e => some (p.noteStep turn rest e)
    | none => some (p.setAside turn rest)

/-- Goes on until no thread has a turn, or the number of turns is used up. -/
def settle (stack : Stack) (steps : Nat) (p : Pool) : Pool :=
  match steps with
  | 0 => p
  | steps + 1 =>
    match p.advance stack with
    | none => p
    | some p => p.settle stack steps

/-- Goes on until a thread is over, no thread has a turn, or the number of turns is used up. -/
def runUntilOver (stack : Stack) (steps : Nat) (id : ThreadId) (p : Pool) : Pool :=
  match steps with
  | 0 => p
  | steps + 1 =>
    if p.system.isOver id then p
    else
      match p.advance stack with
      | none => p
      | some p => p.runUntilOver stack steps id

/-! ### The main thread -/

def main (p : Pool) : Thread :=
  (p.store.thread .main).getD .idle

def setMain (p : Pool) (t : Thread) : Pool :=
  { p with store := p.store.setThread .main t }

/-- Gives the main thread a program, which is served before all others. -/
def startMain (p : Pool) (rest : Prog Work Result) : Pool :=
  let p := p.setMain { p.main with rest }
  { p with
    ready := ⟨0, .main⟩ :: p.ready.filter (·.thread != .main)
    waiting := p.waiting.filter (·.2.thread != .main) }

/-- Runs a program on the main thread. Without an outcome it waits for a cell that nobody will
write. -/
def runMain (stack : Stack) (steps : Nat) (p : Pool) (rest : Prog Work Result) :
    Pool × Option (Except Failure Result) :=
  let p := (p.startMain rest).runUntilOver stack steps .main
  (p, p.main.rest.ended?)

/-! ### What was printed -/

def printed (p : Pool) (id : ThreadId) : List String :=
  match p.store.thread id with
  | some t => t.printed.reverse
  | none => []

def clearPrinted (p : Pool) (id : ThreadId) : Pool :=
  match p.store.thread id with
  | some t => { p with store := p.store.setThread id { t with printed := [] } }
  | none => p

/-- Everything printed since the last time, thread by thread; it is then forgotten. -/
def takePrinted (p : Pool) : Pool × List (ThreadId × List String) :=
  let said := (p.known.map fun id => (id, p.printed id)).filter fun (_, lines) => !lines.isEmpty
  (said.foldl (fun p (id, _) => p.clearPrinted id) p, said)

end Pool

end ForkJoin

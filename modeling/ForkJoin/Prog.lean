import ForkJoin.Value

/-!
# Programs of a thread

What a thread still has to do, as a tree of the acts that others can see: printing a line, spawning
a task, claiming a cell, waiting for what is written to a cell. Between two acts a thread computes
on its own, so that part leaves no trace in the tree. Waiting and spawning hand something back, and
the tree branches over it.

The type `ω` is what a spawned task is told to do. A task is data and no tree, since a program may
spawn tasks that spawn tasks without end although each of them is finite.
-/

namespace ForkJoin

/-- A program that ends with an `α` or a failure. -/
inductive Prog (ω α : Type) : Type where
  | done (a : α)
  | fail (e : Failure)
  | emit (line : String) (rest : Prog ω α)
  /-- Starts a task and goes on with its name. -/
  | spawn (work : ω) (rest : ThreadId → Prog ω α)
  /-- Takes a cell; a cell that is taken already ends the program. -/
  | claim (cell : CellId) (rest : Prog ω α)
  /-- Waits until a cell is written and goes on with the value; a failure ends the program. -/
  | await (cell : CellId) (rest : Value → Prog ω α)

namespace Prog

variable {ω α β : Type}

def bind (p : Prog ω α) (f : α → Prog ω β) : Prog ω β :=
  match p with
  | .done a => f a
  | .fail e => .fail e
  | .emit line rest => .emit line (rest.bind f)
  | .spawn work rest => .spawn work fun id => (rest id).bind f
  | .claim cell rest => .claim cell (rest.bind f)
  | .await cell rest => .await cell fun v => (rest v).bind f

instance : Monad (Prog ω) where
  pure := .done
  bind := .bind

instance [Inhabited α] : Inhabited (Prog ω α) where
  default := .done default

/-- A computed result as a program. -/
def ofExcept : Except Failure α → Prog ω α
  | .ok a => .done a
  | .error e => .fail e

/-- A part as a program; the fault in the place of a part ends it. -/
def ofPart : Except Fault α → Prog ω α
  | .ok a => .done a
  | .error f => .fail (.fault f)

def raise (e : LanguageError) : Prog ω α :=
  .fail (.language e)

def abort (f : Fault) : Prog ω α :=
  .fail (.fault f)

/-- What a program that has ended ended with. -/
def ended? : Prog ω α → Option (Except Failure α)
  | .done a => some (.ok a)
  | .fail e => some (.error e)
  | _ => none

/-- The lines that a program prints before it does anything else. -/
def lines : Prog ω α → List String
  | .emit line rest => line :: rest.lines
  | _ => []

/-! ### Laws -/

@[simp] theorem pure_eq (a : α) : (pure a : Prog ω α) = .done a := rfl

@[simp] theorem bind_eq (p : Prog ω α) (f : α → Prog ω β) : p >>= f = p.bind f := rfl

theorem bind_done (p : Prog ω α) : p.bind .done = p := by
  induction p with
  | done a => rfl
  | fail e => rfl
  | emit line rest ih => simp [bind, ih]
  | spawn work rest ih => simp [bind, ih]
  | claim cell rest ih => simp [bind, ih]
  | await cell rest ih => simp [bind, ih]

theorem bind_assoc {γ : Type} (p : Prog ω α) (f : α → Prog ω β) (g : β → Prog ω γ) :
    (p.bind f).bind g = p.bind fun a => (f a).bind g := by
  induction p with
  | done a => rfl
  | fail e => rfl
  | emit line rest ih => simp [bind, ih]
  | spawn work rest ih => simp [bind, ih]
  | claim cell rest ih => simp [bind, ih]
  | await cell rest ih => simp [bind, ih]

instance : LawfulMonad (Prog ω) :=
  LawfulMonad.mk' (Prog ω) bind_done (fun _ _ => rfl) bind_assoc

end Prog

end ForkJoin

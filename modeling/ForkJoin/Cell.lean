import ForkJoin.Value

/-!
# Result cells

The slot between a task and whoever waits for it. It is written once, with a value or a failure,
and claimed once. A claim takes the cell at once, whether or not it has been written, and its owner
then waits for what is written. So the two marks are independent, and what an observer sees is the
claim first, then the write.
-/

namespace ForkJoin

/-- What a task ends with. -/
abbrev Outcome := Except Failure Value

inductive CellState where
  | empty
  | populated
  | consumed
  deriving DecidableEq, Inhabited, Repr

def CellState.name : CellState → String
  | .empty => "empty"
  | .populated => "populated"
  | .consumed => "consumed"

/-- A cell: the label of the task it belongs to, or null, what was written to it and whether it was
claimed. -/
structure Cell where
  label : Datum
  outcome : Option Outcome := none
  claimed : Bool := false
  deriving Inhabited

namespace Cell

/-- What an observer sees: a claimed cell is consumed even before it is written. -/
def state (c : Cell) : CellState :=
  if c.claimed then .consumed else if c.outcome.isSome then .populated else .empty

/-- Writes to a cell; a second write is refused. -/
def write (c : Cell) (o : Outcome) : Except Fault Cell :=
  match c.outcome with
  | none => .ok { c with outcome := some o }
  | some _ => .error (.alreadyPopulated c.label)

/-- Takes a cell; a second claim is refused. -/
def claim (c : Cell) : Except LanguageError Cell :=
  if c.claimed then .error (.alreadyConsumed c.label) else .ok { c with claimed := true }

def describe (c : Cell) : String :=
  let owner := c.label.literal
  let state := Text.quoted c.state.name
  s!"FutureCell(task_id={owner}, state={state})"

end Cell

end ForkJoin

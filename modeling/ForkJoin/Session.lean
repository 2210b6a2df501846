import ForkJoin.Interpreter
import ForkJoin.Schedule

/-!
# Sessions

A session is a sequence of commands from outside. Its interpreters and cells are known by name and
made when they are first named, a cell under its name as it was first written; its threads go on
from one command to the next. A command is run on
the main thread, and before it is answered all other threads run until each is over or waits.

Besides evaluating, a command can act on a cell directly: write to it, claim it now or in a thread
of its own, or hand it to a job, which is work other than an expression.
-/

namespace ForkJoin

/-! ### The state of a session -/

structure Session where
  /-- What interpreters are made with. -/
  context : Context := {}
  demos : List Demo := Demo.all
  pool : Pool := {}
  interpreters : List (Name × Interpreter) := []
  /-- The cells that were mentioned, by the keys of their names. -/
  cells : List (Name × CellId) := []
  waiters : List (Name × ThreadId) := []
  /-- How many cells and threads were made from outside. -/
  made : Nat := 0

instance : Inhabited Session := ⟨{}⟩

namespace Session

def interpreter (s : Session) (name : Name) : Interpreter :=
  (s.interpreters.lookup name).getD { context := s.context }

def setInterpreter (s : Session) (name : Name) (i : Interpreter) : Session :=
  { s with interpreters := (name, i) :: s.interpreters.filter (·.1 != name) }

/-- The cell of a name. One that was not mentioned before is there from the start. -/
def cellId (s : Session) (name : Name) : CellId :=
  (s.cells.lookup name.key).getD (.external name 0)

def nameCell (s : Session) (name : Name) (id : CellId) : Session :=
  { s with cells := (name.key, id) :: s.cells.filter (·.1 != name.key) }

/-- A session in which a cell is mentioned. If it is new it keeps the name as it is written here. -/
def mention (s : Session) (name : Name) : Session :=
  s.nameCell name (s.cellId name)

/-- However a mentioned name is written, it means the same cell. -/
theorem cellId_mention (s : Session) {name other : Name} (h : other.key = name.key) :
    (s.mention name).cellId other = s.cellId name := by
  simp [mention, nameCell, cellId, h]

def state (s : Session) (name : Name) : CellState :=
  s.pool.system.view (s.cellId name)

/-- The cell that has a name, which may be new. -/
def cell (s : Session) (name : Name) : Cell :=
  (s.pool.system.cell (s.cellId name)).getD { label := name.toDatum }

def setCell (s : Session) (id : CellId) (c : Cell) : Session :=
  { s with pool := s.pool.setCell id c }

/-- A session with a new cell under a name. -/
def makeCell (s : Session) (name : Name) (label : Datum) : Session × CellId :=
  let id := CellId.external name (s.made + 1)
  ({ s with made := s.made + 1 }.nameCell name id |>.setCell id { label }, id)

/-- A session with one more thread that was started from outside. -/
def addHelper (s : Session) (t : Thread) : Session × ThreadId :=
  let id := ThreadId.helper (s.made + 1)
  ({ s with made := s.made + 1, pool := s.pool.add id t }, id)

/-- Lets all threads run until each is over or waits. -/
def settle (policy : Policy) (s : Session) : Session :=
  { s with pool := s.pool.settle policy.stack policy.steps }

end Session

/-! ### Jobs -/

/-- Work that a task can do without evaluating an expression. -/
inductive Job where
  | yield (v : Value)
  | raise (e : Failure)
  | claim (cell : CellId)
  deriving Inhabited

def Prog.take (cell : CellId) : Prog Work Result :=
  .claim cell (.await cell fun v => .done (.ofValue v))

def Job.program : Job → Prog Work Result
  | .yield v => .done (.ofValue v)
  | .raise e => .fail e
  | .claim cell => .take cell

/-- A job as it is handed in. It is read when it is begun: the cells that it mentions are those that
have the names then. -/
abbrev Assignment := StateM Session Job

/-! ### Commands and replies -/

/-- What can be asked of a session. Cells and threads are given by their names in it. -/
inductive Command where
  | eval (e : Expr)
  | define (name : Datum) (value : Value)
  | defineFunction (name : Datum) (params : List Datum) (body : Expr)
  | lookup (name : Datum)
  | bindings
  /-- Whether two names mean equal values. -/
  | compare (x y : Datum)
  | unwrap (name : Datum)
  | sync (name : Datum)
  | installDemos
  | runDemo (demo : Datum) (numbers : List Datum)
  /-- Puts an empty cell in the place of the one that had the name. -/
  | newCell (cell : Name) (label : Datum)
  | write (cell : Name) (o : Outcome)
  | claim (cell : Name)
  /-- Claims a cell in a thread of its own, which is known by the second name. -/
  | claimLater (cell waiter : Name)
  /-- What the claim of a thread ended with, if it has ended. The thread must have been named. -/
  | join (waiter : Name)
  | state (cell : Name)
  | describe (cell : Name)
  /-- Starts a task on a job; its cell is then known by the name. -/
  | spawnTask (cell : Name) (job : Assignment) (label : Datum) (debug : Bool)
  /-- Hands a cell to a job and waits for the job, which is only done if the message asks for it. -/
  | message (cell : Name) (job : Assignment) (message : Datum) (debug : Bool)
  /-- Runs a program of the main thread and changes no interpreter. -/
  | run (p : Prog Work Result)

/-- The name of the cell that a command is about. -/
def Command.cell? : Command → Option Name
  | .newCell cell _ | .write cell _ | .claim cell | .claimLater cell _ | .state cell
  | .describe cell | .spawnTask cell _ _ _ | .message cell _ _ _ => some cell
  | _ => none

/-- Whether a message asks for its job to be done: a record does whose command is to run. -/
def asksToRun (message : Datum) : Except Fault Bool :=
  match message with
  | .record fields => .ok (((fields.lookup "command").getD .null).same "run")
  | d => .error (.noProperty d.kindName "get")

inductive Reply where
  | nothing
  | value (v : Value)
  | result (r : Result)
  | bindings (f : Frame) (isRoot : Bool)
  | truth (b : Bool)
  | plain (p : Plain)
  | state (s : CellState)
  | text (s : String)
  | started (s : CellState) (label : Datum)
  | answered (s : CellState)
  /-- The answer waits for a cell that is not written. -/
  | blocked
  deriving Inhabited

/-! ### Running -/

namespace Session

def runMain (policy : Policy) (s : Session) (p : Prog Work Result)
    (reply : Session → Except Failure Result → Session × Except Failure Reply) :
    Session × Except Failure Reply :=
  let (pool, outcome) := s.pool.runMain policy.stack policy.steps p
  let s := { s with pool }
  match outcome with
  | none => (s, .ok .blocked)
  | some o => reply s o

def replyValue (s : Session) : Except Failure Result → Session × Except Failure Reply
  | .ok r => (s, .ok (.value r.value))
  | .error e => (s, .error e)

def eval (policy : Policy) (s : Session) (on : Name) (e : Expr) :
    Session × Except Failure Reply :=
  let i := s.interpreter on
  s.runMain policy (i.program policy e) fun s o =>
    let (i, answer) := i.conclude policy o
    (s.setInterpreter on i, answer.map .value)

/-- Starts a task on a job, under a label. Without a label, or with an empty one, it counts among
the tasks that the main thread spawns and is named like them. The name of the cell means the cell of
the task before the job is begun. -/
def spawnTask (s : Session) (name : Name) (job : Assignment) (label : Datum) (debug : Bool) :
    Session × Datum :=
  if label.isTruthy then
    let (s, id) := s.makeCell name label
    let (job, s) := job.run s
    let (s, _) := s.addHelper { rest := job.program, delivery := some ⟨id, label, debug⟩ }
    (s, label)
  else
    let main := s.pool.main
    let id := ThreadId.child .main (main.spawned + 1)
    let s := { s with pool := s.pool.setMain { main with spawned := main.spawned + 1 } }
    let s := (s.nameCell name (.task id)).setCell (.task id) { label := id.label }
    let (job, s) := job.run s
    let t : Thread := { rest := job.program, delivery := some ⟨.task id, id.label, debug⟩ }
    ({ s with pool := s.pool.add id t }, id.label)

def printMain (s : Session) (line : String) : Session :=
  { s with pool := s.pool.setMain (s.pool.main.print line) }

/-- Lets all threads run and replies with the state of a cell after that. -/
def settleState (policy : Policy) (s : Session) (name : Name) (reply : CellState → Reply) :
    Session × Except Failure Reply :=
  let s := s.settle policy
  (s, .ok (reply (s.state name)))

def defineFunction (policy : Policy) (s : Session) (on : Name) (name : Datum)
    (params : List Datum) (body : Expr) : Session × Except Failure Reply :=
  match Name.ofDatum name with
  | .ok key =>
    let f := Value.function name params body
    (s.setInterpreter on ((s.interpreter on).define policy key f), .ok (.value f))
  | .error f => (s, .error (.fault f))

/-- Hands a cell to a job and waits for the job. -/
def handOver (policy : Policy) (s : Session) (name : Name) (job : Assignment) (debug : Bool) :
    Session × Except Failure Reply :=
  let delivery : Delivery := ⟨s.cellId name, (s.cell name).label, debug⟩
  let (job, s) := job.run s
  let (s, helper) := s.addHelper { rest := job.program, delivery := some delivery }
  let s := s.settle policy
  match (s.pool.system.thread helper).bind (·.delivered) with
  | none => (s, .ok .blocked)
  | some (.ok ()) => (s, .ok (.answered (s.state name)))
  | some (.error f) => (s, .error (.fault f))

/-- Runs one command, with the interpreter of a name where it needs one. -/
def perform (policy : Policy) (s : Session) (on : Name) : Command → Session × Except Failure Reply
  | .eval e => s.eval policy on e
  | .define name value =>
    match Name.ofDatum name with
    | .ok name => (s.setInterpreter on ((s.interpreter on).define policy name value), .ok .nothing)
    | .error f => (s, .error (.fault f))
  | .defineFunction name params body => s.defineFunction policy on name params body
  | .lookup name => (s, ((s.interpreter on).lookup name).map .value)
  | .bindings =>
    let i := s.interpreter on
    (s, .ok (.bindings i.bindings i.env.isRoot))
  | .compare x y =>
    (s, do
      let v ← (s.interpreter on).lookup x
      let w ← (s.interpreter on).lookup y
      return .truth (← Failure.ofFault (v.equal policy.stack.room w)))
  | .unwrap name =>
    (s, do
      let v ← (s.interpreter on).lookup name
      return .plain (← Failure.ofFault (v.plain s.pool.system.view policy.stack.room)))
  | .sync name =>
    match (s.interpreter on).lookup name with
    | .error e => (s, .error e)
    | .ok v => s.runMain policy (do return .ofValue (← syncValue v)) replyValue
  | .installDemos =>
    (s.setInterpreter on ((s.interpreter on).installDemos policy), .ok .nothing)
  | .runDemo demo numbers =>
    let (i, program) := (s.interpreter on).prepareDemo policy s.demos demo numbers
    let s := s.setInterpreter on i
    match program with
    | .error e => (s, .error e)
    | .ok e => s.eval policy on e
  | .newCell name label =>
    (s.makeCell name label).1.settleState policy name .state
  | .write name o =>
    match (s.cell name).write o with
    | .ok c => (s.setCell (s.cellId name) c).settleState policy name .state
    | .error f => (s, .error (.fault f))
  | .claim name => s.runMain policy (.take (s.cellId name)) replyValue
  | .claimLater name waiter =>
    let (s, id) := s.addHelper { rest := .take (s.cellId name) }
    { s with waiters := (waiter.key, id) :: s.waiters }.settleState policy name .state
  | .join waiter =>
    match s.waiters.lookup waiter.key with
    | none => (s, .error (.fault (.missingKey waiter.toDatum)))
    | some id =>
      match (s.pool.system.thread id).bind (·.rest.ended?) with
      | none => (s, .ok .blocked)
      | some o => s.replyValue o
  | .state name => s.settleState policy name .state
  | .describe name => (s, .ok (.text (s.cell name).describe))
  | .spawnTask name job label debug =>
    let (s, label) := s.spawnTask name job label debug
    let s := if debug then s.printMain ("Spawned task " ++ label.display) else s
    s.settleState policy name (.started · label)
  | .message name job message debug =>
    match asksToRun message with
    | .error f => (s, .error (.fault f))
    | .ok true => s.handOver policy name job debug
    | .ok false => s.settleState policy name .answered
  | .run p =>
    s.runMain policy p fun s o => (s, o.map .result)

/-- Runs one command and lets all threads run until each is over or waits. -/
def step (policy : Policy) (s : Session) (on : Name) (c : Command) :
    Session × Except Failure Reply :=
  let s := c.cell?.elim s s.mention
  let (s, reply) := s.perform policy on c
  (s.settle policy, reply)

end Session

end ForkJoin

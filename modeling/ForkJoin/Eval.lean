import ForkJoin.Builtin
import ForkJoin.Datum.Arithmetic
import ForkJoin.Prog
import ForkJoin.Value.Display
import ForkJoin.Value.Equal

/-!
# Evaluation

An evaluation takes an expression and an environment and ends with a value and an environment. The
environment is threaded through the parts of an expression from left to right, so a binding made in
one part is seen in the parts after it; with scoped bindings a `let` takes its binding back.

Names have dynamic scope. The body of a function sees the environment of the application as it was
before the arguments were evaluated, with the parameters layered over it, and what it binds is lost
when it ends. A spawned expression sees the environment of its spawn.

`eval limit` lets evaluations nest `limit` deep. The rules for one node, `evalNode`, are stated over
any evaluator of the parts, so that they can be read apart from the limit. Besides the limit there
is the room on the stack, if it is counted. Each of the functions below is given the room that it
finds and takes one entry of it, so a function that it calls finds one entry less. An evaluation
first looks at its node and leaves the rest to a function for its type, so the parts of a node are
evaluated with two entries less, as a rule.
-/

namespace ForkJoin

/-! ### Settings and results -/

/-- What an evaluation is told: whether to trace, whether bindings are scoped, and the name of the
task it works for, or null. -/
structure Context where
  debug : Bool := false
  scopedLet : Bool := false
  task : Datum := .null
  deriving Inhabited, Repr

/-- The context of a spawned task: the same settings under the task's name. -/
def Context.child (ctx : Context) (task : Datum) : Context :=
  { ctx with task }

/-- A line as it is traced: a task puts its name in front, unless the name is empty. -/
def Context.line (ctx : Context) (message : String) : String :=
  if ctx.task.isTruthy then s!"[task {ctx.task.display}] {message}" else message

structure Result where
  value : Value
  env : Env
  deriving Inhabited

def Result.ofValue (v : Value) : Result :=
  ⟨v, ⟨[]⟩⟩

/-- What a spawned task has to do. -/
structure Work where
  expr : Expr
  env : Env
  context : Context
  deriving Inhabited

abbrev Evaluator := Room → Context → Env → Expr → Prog Work Result

/-- Prints a line if tracing is on. -/
def Context.trace {ω : Type} (ctx : Context) (message : String) : Prog ω Unit :=
  if ctx.debug then .emit (ctx.line message) (.done ()) else .done ()

def evalPart (ev : Evaluator) (room : Room) (ctx : Context) (env : Env) (e : Except Fault Expr) :
    Prog Work Result := do
  ev room ctx env (← Prog.ofPart e)

/-! ### Checks -/

def checkArity (function expected : Datum) (got : Nat) : Except LanguageError Unit :=
  if (Datum.int got).same expected then .ok ()
  else .error (.arityMismatch function expected (.int got))

theorem checkArity_int (function : Datum) (expected got : Nat) :
    checkArity function (.int expected) got =
      if got = expected then .ok ()
      else .error (.arityMismatch function (.int expected) (.int got)) := by
  simp only [checkArity, Datum.same_int, beq_iff_eq, Int.natCast_inj]

def operandMismatch (function parameter expected : Datum) (v : Value) : LanguageError :=
  let reason := function.display ++ " requires " ++ expected.display ++ " for " ++
    parameter.display ++ ", got " ++ v.typeName.display
  .typeMismatch reason function expected v.typeName

def expectType (function parameter expected : Datum) (v : Value) : Except LanguageError Value :=
  if v.hasType expected then .ok v else .error (operandMismatch function parameter expected v)

def expectVector (function : String) (position : Nat) (v : Value) : Except Failure Value :=
  Failure.ofError (expectType function s!"argument {position}" "Vector" v)

/-- An operation on two integers; the first operand is checked first. -/
def arithmetic (op : Operation) (name : Datum) (x y : Value) : Except Failure Value := do
  let x ← Failure.ofError (expectType name "argument 1" "Integer" x)
  let y ← Failure.ofError (expectType name "argument 2" "Integer" y)
  Failure.ofFault do
    let m ← x.payload
    let n ← y.payload
    return .make "Integer" (← m.combine op n)

def expectCondition (function : Datum) (v : Value) : Except Failure Bool :=
  match v with
  | .bool b => .ok b
  | v =>
    if v.hasType "Boolean" then Failure.ofFault (return (← v.payload).isTruthy)
    else .error (.language
      (.typeMismatch "condition must be boolean" function "Boolean" v.typeName))

/-- Takes what a future holds; a value that is no future is refused. -/
def syncValue {ω : Type} (v : Value) : Prog ω Value :=
  match v with
  | .future cell => .claim cell (.await cell .done)
  | v =>
    if v.hasType "Future" then do
      let cell ← Prog.ofPart (v.cell "claim")
      .claim cell (.await cell .done)
    else .raise (.typeMismatch "cannot sync non-future value" "sync" "Future" v.typeName)

/-! ### Applications -/

/-- Evaluates arguments from left to right and threads the environment through them. -/
def evalArgs (ev : Evaluator) (room : Room) (ctx : Context) (env : Env) :
    List Expr → Prog Work (List Value × Env)
  | [] => .done ([], env)
  | arg :: args => do
    let first ← ev (room.less 1) ctx env arg
    let (values, env) ← evalArgs ev room ctx first.env args
    return (first.value :: values, env)

/-- A call that is ready to be made: the name that it is traced under, the environment of the body
and the environment that the caller goes on with. -/
structure Call where
  name : Datum
  env : Env
  callerEnv : Env

/-- Makes ready to call a function that is no builtin. The number of arguments is checked before any
of them is evaluated. -/
def prepareCall (ev : Evaluator) (room : Room) (ctx : Context) (env : Env) (f : Procedure)
    (args : Args) : Prog Work Call := do
  let name ← Prog.ofPart f.name
  let arity ← Prog.ofPart f.arity
  let got ← Prog.ofPart args.count
  match checkArity (nameOr "<anonymous>" name) (.int arity) got with
  | .error e => .raise e
  | .ok _ =>
    let (values, callerEnv) ← evalArgs ev (room.less 1) ctx env args.items
    let params ← Prog.ofPart f.params
    return ⟨name, env.extend (.ofList (params.zip values)), callerEnv⟩

def applyFunction (ev : Evaluator) (room : Room) (ctx : Context) (env : Env) (f : Procedure)
    (args : Args) : Prog Work Result := do
  let call ← prepareCall ev room ctx env f args
  ctx.trace ("Calling: " ++ call.name.display)
  let result ← evalPart ev (room.less 1) ctx call.env f.body
  return ⟨result.value, call.callerEnv⟩

/-- Applies a builtin to a list of arguments, which it evaluates itself. -/
def applyBuiltin (ev : Evaluator) (room : Room) (ctx : Context) (env : Env) (b : Builtin)
    (args : List Expr) : Prog Work Result :=
  match b, args with
  | .add, [x, y] => binary x y (arithmetic .add "+")
  | .sub, [x, y] => binary x y (arithmetic .sub "-")
  | .eq, [x, y] => binary x y fun v w =>
    Failure.ofFault (return .bool (← v.equal (room.less 1) w))
  | .cons, [x, y] => binary x y fun v w => do
    let vector ← expectVector "cons" 2 w
    Failure.ofFault (vector.pushFront v)
  | .choose, [test, yes, no] => do
    let r ← ev (room.less 1) ctx env test
    let b ← Prog.ofExcept (expectCondition "if" r.value)
    ev (room.less 1) ctx r.env (if b then yes else no)
  | .head, [x] => unary x (nonEmpty "head" Value.head)
  | .tail, [x] => unary x (nonEmpty "tail" Value.tail)
  | b, args => .raise (.arityMismatch b.name (.int b.arity) (.int args.length))
where
  unary (x : Expr) (f : Value → Except Failure Value) : Prog Work Result := do
    let r ← ev (room.less 1) ctx env x
    let v ← Prog.ofExcept (f r.value)
    return ⟨v, r.env⟩
  binary (x y : Expr) (f : Value → Value → Except Failure Value) : Prog Work Result := do
    let r ← ev (room.less 2) ctx env x
    let s ← ev (room.less 2) ctx r.env y
    let v ← Prog.ofExcept (f r.value s.value)
    return ⟨v, s.env⟩
  nonEmpty (name : String) (f : Value → Except Fault Value) (v : Value) : Except Failure Value := do
    let vector ← expectVector name 1 v
    if ← Failure.ofFault vector.isEmptyVector then .error (.language (.emptyCollection name))
    else Failure.ofFault (f vector)

/-- Applies a builtin. The number of arguments is checked first; one that takes its arguments from
their positions finds none in a record. -/
def callBuiltin (ev : Evaluator) (room : Room) (ctx : Context) (env : Env) (b : Builtin)
    (args : Args) : Prog Work Result :=
  match args with
  | .list items => applyBuiltin ev (room.less 1) ctx env b items
  | args => do
    let got ← Prog.ofPart args.count
    if got = b.arity && b.isPositional then .abort (.missingKey (.int 0))
    else applyBuiltin ev (room.less 1) ctx env b args.items

/-- Applies a function to arguments: a function with the name of a builtin is that builtin. -/
def apply (ev : Evaluator) (room : Room) (ctx : Context) (env : Env) (f : Procedure)
    (args : Args) : Prog Work Result := do
  let name ← Prog.ofPart f.name
  match ← Prog.ofPart (Builtin.ofFunctionName name) with
  | some b =>
    ctx.trace ("Builtin: " ++ b.name)
    callBuiltin ev (room.less 1) ctx env b args
  | none => applyFunction ev (room.less 1) ctx env f args

/-! ### Nodes -/

/-- Evaluates one node, given an evaluator of its parts. -/
def evalNode (ev : Evaluator) : Evaluator := fun room ctx env e => do
  let node ← Prog.ofPart e.node
  ctx.trace ("Evaluating: " ++ node.typeName)
  match node with
  | .lit value => return ⟨← Prog.ofPart value, env⟩
  | .var name =>
    let name ← Prog.ofPart name
    match env.lookup (← Prog.ofPart (Name.ofDatum name)) with
    | some v => return ⟨v, env⟩
    | none => .raise (.undefinedVariable name)
  | .app callee args =>
    let f ← evalPart ev (room.less 2) ctx env callee
    if f.value.hasType "Function" then
      let procedure ← Prog.ofPart f.value.procedure
      apply ev (room.less 1) ctx f.env procedure (← Prog.ofPart args)
    else .raise (.notCallable f.value.typeName)
  | .letIn name value body =>
    let bound ← evalPart ev (room.less 2) ctx env value
    let name ← Prog.ofPart name
    let bodyEnv := bound.env.bind (← Prog.ofPart (Name.ofDatum name)) bound.value
    let result ← evalPart ev (room.less 2) ctx bodyEnv body
    return ⟨result.value, if ctx.scopedLet then bound.env else result.env⟩
  | .cond test yes no =>
    let r ← evalPart ev (room.less 2) ctx env test
    let b ← Prog.ofExcept (expectCondition .null r.value)
    evalPart ev (room.less 2) ctx r.env (if b then yes else no)
  | .spawn body =>
    let id ← Prog.spawn ⟨← Prog.ofPart body, env, ctx⟩ .done
    if ctx.debug then Prog.emit ("Spawned task " ++ id.label) (.done ())
    return ⟨.future (.task id), env⟩
  | .sync body =>
    let r ← evalPart ev (room.less 2) ctx env body
    let v ← syncValue r.value
    return ⟨v, r.env⟩
  | .unknown type => .abort (.unknownNode type)

/-- Evaluates an expression whose evaluations nest at most `limit` deep. Looking at a node takes an
entry of the stack and one more for what it looks up. -/
def eval (limit : Nat) : Evaluator :=
  match limit with
  | 0 => fun _ _ _ _ => .abort .stackExhausted
  | limit + 1 => fun room ctx env e =>
    if room.has 2 then evalNode (eval limit) room ctx env e else .abort .stackExhausted

@[simp] theorem eval_zero (room : Room) (ctx : Context) (env : Env) (e : Expr) :
    eval 0 room ctx env e = .abort .stackExhausted := rfl

/-- Where the room is not counted only the limit ends an evaluation. -/
@[simp] theorem eval_succ_none (limit : Nat) (ctx : Context) (env : Env) (e : Expr) :
    eval (limit + 1) none ctx env e = evalNode (eval limit) none ctx env e := rfl

def Stack.eval (stack : Stack) (ctx : Context) (env : Env) (e : Expr) : Prog Work Result :=
  ForkJoin.eval stack.depth stack.room ctx env e

end ForkJoin

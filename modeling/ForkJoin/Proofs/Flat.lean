import ForkJoin.System

/-!
# Evaluation over one map

The language as it is described to those who use it. A context owns one flat map from names to
values and changes it in place: a `let` overwrites its name and, with scoped bindings, puts the map
back as it was before; whatever must not see later changes works on a copy. Copies are made where a
function is applied and where a task is spawned, and nowhere else.

Here are no chains and no frames that are layered over each other, so the model needs no rule about
which frame decides. What it shares with the evaluator is the node as it is read, the checks, and
the operations on values; the entries of the stack are counted the same.
-/

namespace ForkJoin.Flat

/-- What a spawned task has to do, with a copy of the map of the context that spawned it. -/
structure Work where
  expr : Expr
  map : Frame
  context : Context

/-- What a context does: a program that reads and changes the map of the context. -/
abbrev Act := StateT Frame (Prog Work)

abbrev Evaluator := Room → Context → Expr → Act Value

variable {α : Type}

/-- A program that leaves the map alone. -/
def lift (p : Prog Work α) : Act α := fun map => p.bind fun a => .done (a, map)

/-- A part; the fault in the place of a part ends the context. -/
def part (x : Except Fault α) : Act α := lift (.ofPart x)

/-- Does something on another map and drops that map afterwards. -/
def onCopy (copy : Frame) (act : Act α) : Act α := do
  let own ← get
  set copy
  let a ← act
  set own
  return a

/-- What a name means in a map; a name bound to null means nothing. -/
def meaning (map : Frame) (name : Name) : Option Value :=
  match map.get? name with
  | some (.foreign .null) => none
  | found => found

def insertAll (map : Frame) (bindings : List (Name × Value)) : Frame :=
  bindings.foldl (fun map (name, value) => map.insert name value) map

def evalArgs (ev : Evaluator) (room : Room) (ctx : Context) : List Expr → Act (List Value)
  | [] => return []
  | arg :: args => do
    let first ← ev (room.less 1) ctx arg
    let values ← evalArgs ev room ctx args
    return first :: values

/-- Applies a function that is no builtin: the number of arguments is checked, the map is copied, the
arguments are evaluated on the map itself, and the body is evaluated on the copy with the parameters
inserted into it. -/
def applyFunction (ev : Evaluator) (room : Room) (ctx : Context) (f : Procedure) (args : Args) :
    Act Value := do
  let name ← part f.name
  let arity ← part f.arity
  let got ← part args.count
  match checkArity (nameOr "<anonymous>" name) (.int arity) got with
  | .error e => lift (.raise e)
  | .ok _ =>
    let copy ← get
    let values ← evalArgs ev (room.less 1) ctx args.items
    let params ← part f.params
    lift (ctx.trace ("Calling: " ++ name.display))
    let body ← part f.body
    onCopy (insertAll copy (params.zip values)) (ev (room.less 1) ctx body)

/-- Applies a builtin, which evaluates its operands on the map of the context. -/
def applyBuiltin (ev : Evaluator) (room : Room) (ctx : Context) (b : Builtin) (args : List Expr) :
    Act Value :=
  match b, args with
  | .add, [x, y] => binary x y (arithmetic .add "+")
  | .sub, [x, y] => binary x y (arithmetic .sub "-")
  | .eq, [x, y] => binary x y fun v w =>
    Failure.ofFault (return .bool (← v.equal (room.less 1) w))
  | .cons, [x, y] => binary x y fun v w => do
    let vector ← expectVector "cons" 2 w
    Failure.ofFault (vector.pushFront v)
  | .choose, [test, yes, no] => do
    let v ← ev (room.less 1) ctx test
    let b ← lift (.ofExcept (expectCondition "if" v))
    ev (room.less 1) ctx (if b then yes else no)
  | .head, [x] => unary x (ForkJoin.applyBuiltin.nonEmpty "head" Value.head)
  | .tail, [x] => unary x (ForkJoin.applyBuiltin.nonEmpty "tail" Value.tail)
  | b, args => lift (.raise (.arityMismatch b.name (.int b.arity) (.int args.length)))
where
  unary (x : Expr) (f : Value → Except Failure Value) : Act Value := do
    let v ← ev (room.less 1) ctx x
    lift (.ofExcept (f v))
  binary (x y : Expr) (f : Value → Value → Except Failure Value) : Act Value := do
    let v ← ev (room.less 2) ctx x
    let w ← ev (room.less 2) ctx y
    lift (.ofExcept (f v w))

def callBuiltin (ev : Evaluator) (room : Room) (ctx : Context) (b : Builtin) (args : Args) :
    Act Value :=
  match args with
  | .list items => applyBuiltin ev (room.less 1) ctx b items
  | args => do
    let got ← part args.count
    if got = b.arity && b.isPositional then lift (.abort (.missingKey (.int 0)))
    else applyBuiltin ev (room.less 1) ctx b args.items

/-- Applies a function: one with the name of a builtin is that builtin. -/
def apply (ev : Evaluator) (room : Room) (ctx : Context) (f : Procedure) (args : Args) :
    Act Value := do
  let name ← part f.name
  match ← part (Builtin.ofFunctionName name) with
  | some b =>
    lift (ctx.trace ("Builtin: " ++ b.name))
    callBuiltin ev (room.less 1) ctx b args
  | none => applyFunction ev (room.less 1) ctx f args

def evalNode (ev : Evaluator) : Evaluator := fun room ctx e => do
  let node ← part e.node
  lift (ctx.trace ("Evaluating: " ++ node.typeName))
  match node with
  | .lit value => part value
  | .var name =>
    let name ← part name
    let key ← part (Name.ofDatum name)
    match meaning (← get) key with
    | some v => return v
    | none => lift (.raise (.undefinedVariable name))
  | .app callee args =>
    let f ← ev (room.less 2) ctx (← part callee)
    if f.hasType "Function" then
      let procedure ← part f.procedure
      let args ← part args
      apply ev (room.less 1) ctx procedure args
    else lift (.raise (.notCallable f.typeName))
  | .letIn name value body =>
    let bound ← ev (room.less 2) ctx (← part value)
    let name ← part name
    let key ← part (Name.ofDatum name)
    let before ← get
    modify (·.insert key bound)
    let result ← ev (room.less 2) ctx (← part body)
    if ctx.scopedLet then set before
    return result
  | .cond test yes no =>
    let v ← ev (room.less 2) ctx (← part test)
    let b ← lift (.ofExcept (expectCondition .null v))
    ev (room.less 2) ctx (← part (if b then yes else no))
  | .spawn body =>
    let body ← part body
    let copy ← get
    let id ← lift (.spawn ⟨body, copy, ctx⟩ .done)
    if ctx.debug then lift (.emit ("Spawned task " ++ id.label) (.done ()))
    return .future (.task id)
  | .sync body =>
    let v ← ev (room.less 2) ctx (← part body)
    lift (syncValue v)
  | .unknown type => lift (.abort (.unknownNode type))

/-- Evaluates an expression whose evaluations nest at most `limit` deep. -/
def eval (limit : Nat) : Evaluator :=
  match limit with
  | 0 => fun _ _ _ => lift (.abort .stackExhausted)
  | limit + 1 => fun room ctx e =>
    if room.has 2 then evalNode (eval limit) room ctx e else lift (.abort .stackExhausted)

def Work.act (stack : Stack) (id : ThreadId) (work : Work) : Act Value :=
  eval stack.depth stack.room (work.context.child id.label) work.expr

end ForkJoin.Flat

import ForkJoin.Proofs.Arity
import ForkJoin.Proofs.Demo.Ready

/-!
# Calls of defined functions

A function that is defined in a session is what its name means from then on, so it is what a call of
the name comes to. What the call does with it goes by the name that the function was given: if that
is the name of a builtin then the builtin is called, with its own number of arguments, and else the
function takes one argument for each of its parameters, and its body is evaluated where these are
bound. The environment of the body is the one in which the call was made, as it was before the
arguments were evaluated, and what the body binds is lost.
-/

namespace ForkJoin

/-- Evaluates expressions from left to right, each in the environment that the one before it has
left, and collects their values. -/
def evalInOrder (ev : Env → Expr → Prog Work Result) (env : Env) (args : List Expr) :
    Prog Work (List Value × Env) :=
  args.foldlM (fun (values, env) arg => do
    let r ← ev env arg
    return (values ++ [r.value], r.env)) ([], env)

theorem evalArgs_eq_evalInOrder (ev : Evaluator) (room : Room) (ctx : Context) (env : Env)
    (args : List Expr) :
    evalArgs ev room ctx env args = evalInOrder (ev (room.less 1) ctx) env args := by
  have hfold : ∀ (before : List Value) (env : Env),
      args.foldlM (fun (values, env) arg => do
          let r ← ev (room.less 1) ctx env arg
          return (values ++ [r.value], r.env)) (before, env) =
        (evalArgs ev room ctx env args >>= fun (values, env) =>
          (return (before ++ values, env) : Prog Work (List Value × Env))) := by
    induction args with
    | nil =>
      intro before env
      change Prog.done (before, env) = .done (before ++ [], env)
      rw [List.append_nil]
    | cons arg args ih =>
      intro before env
      simp only [List.foldlM_cons, evalArgs, bind_assoc, pure_bind, ih, List.append_assoc,
        List.singleton_append]
  rw [evalInOrder, hfold [] env]
  exact (bind_pure _).symm

section

variable {limit : Nat} {room : Room} {ctx : Context} {env : Env} {name : String} {f : Value}

theorem eval_call (hroom : room.has 4) (ctx : Context) (h : env.lookup name = some f)
    (args : List Expr) :
    eval (limit + 2) room ctx env (.call name args) =
      (ctx.lines ["Evaluating: APPLICATION", "Evaluating: VARIABLE"]).foldr .emit
        (applyCallee (limit + 1) room ctx (.list args) ⟨f, env⟩) := by
  have hhere : room.has 2 := Room.has_of_le hroom (by decide)
  have hbelow : (room.less 2).has 2 := Room.has_less hroom
  rw [Expr.call, eval_app hhere ctx env rfl, evalCallee, bind_assoc, eval_succ limit hbelow,
    evalNode_var, h, ← Context.trace_bind, ← Context.trace_bind, Context.lines_nil]
  simp only [bind_assoc]
  rfl

variable {params : List String} {body : Expr} {args : List Expr}

theorem applyCallee_fn (hname : Builtin.ofName? name = none)
    (hlength : args.length = params.length) :
    applyCallee limit room ctx (.list args) ⟨.fn (some name) params body, env⟩ = (do
      let (values, after) ← evalInOrder (eval limit (room.less 4) ctx) env args
      ctx.trace ("Calling: " ++ name)
      let r ← eval limit (room.less 3) ctx (env.inBody params values) body
      return ⟨r.value, after⟩) := by
  rw [applyCallee_of_procedure rfl rfl, apply_fn (some name) params body args rfl,
    Option.bind_some, hname]
  change applyFunction _ _ _ _ _ _ = _
  rw [applyFunction_fn (some name) params body args rfl, if_pos hlength, evalArgs_eq_evalInOrder]
  simp only [Room.less_less]
  rfl

theorem applyCallee_builtin {b : Builtin} (hname : Builtin.ofName? name = some b) :
    applyCallee limit room ctx (.list args) ⟨.fn (some name) params body, env⟩ = (do
      ctx.trace ("Builtin: " ++ b.name)
      applyBuiltin (eval limit) (room.less 3) ctx env b args) := by
  rw [applyCallee_of_procedure rfl rfl, apply_fn (some name) params body args rfl,
    Option.bind_some, hname]
  simp only [Room.less_less]

end

/-! ### Defined functions -/

def Definition.takes (d : Definition) : Nat :=
  ((Builtin.ofName? d.name).map Builtin.arity).getD d.params.length

namespace Interpreter

/-- What a call of a function does in an interpreter that has defined it. -/
structure CallsDefined (policy : Policy) (i : Interpreter) (d : Definition) (args : List Expr) :
    Prop where
  /-- With a wrong number of arguments it is refused, whatever they are. -/
  refused : args.length ≠ d.takes → i.program policy (.call d.name args) =
    (i.context.lines (["Evaluating: APPLICATION", "Evaluating: VARIABLE"] ++
      callMessages (.text d.name))).foldr .emit
        (.raise (.arityMismatch (nameOr "<anonymous>" (.text d.name)) (.int d.takes)
          (.int args.length)))
  /-- With the right number the arguments are evaluated, and then the body, in the environment that
  the arguments were evaluated in, with the parameters bound. -/
  evaluated : Builtin.ofName? d.name = none → args.length = d.params.length →
    i.program policy (.call d.name args) =
      (i.context.lines ["Evaluating: APPLICATION", "Evaluating: VARIABLE"]).foldr .emit (do
        let (values, after) ←
          evalInOrder (ForkJoin.eval (policy.stack.depth - 1) (policy.stack.room.less 4) i.context)
            i.env args
        i.context.trace ("Calling: " ++ d.name)
        let r ← ForkJoin.eval (policy.stack.depth - 1) (policy.stack.room.less 3) i.context
          (i.env.inBody d.params values) d.body
        return ⟨r.value, after⟩)
  /-- Under the name of a builtin it is the builtin that is called. -/
  dispatched : ∀ b, Builtin.ofName? d.name = some b → i.program policy (.call d.name args) =
    (i.context.lines ["Evaluating: APPLICATION", "Evaluating: VARIABLE"]).foldr .emit (do
      i.context.trace ("Builtin: " ++ b.name)
      applyBuiltin (ForkJoin.eval (policy.stack.depth - 1)) (policy.stack.room.less 3) i.context
        i.env b args)

theorem callsDefined_of_lookup {policy : Policy} {i : Interpreter} {d : Definition}
    (hdepth : 2 ≤ policy.stack.depth) (hroom : policy.stack.room.has 4)
    (hlookup : i.env.lookup d.name = some d.value) (args : List Expr) :
    i.CallsDefined policy d args := by
  obtain ⟨limit, hlimit⟩ := Nat.exists_eq_add_of_le' hdepth
  have hcall : i.program policy (.call d.name args) =
      (i.context.lines ["Evaluating: APPLICATION", "Evaluating: VARIABLE"]).foldr .emit
        (applyCallee (policy.stack.depth - 1) policy.stack.room i.context (.list args)
          ⟨d.value, i.env⟩) := by
    rw [program, Stack.eval, hlimit]
    exact eval_call hroom i.context hlookup args
  refine ⟨fun hne => ?_, fun hname hlength => ?_, fun b hname => ?_⟩
  · have htakes : d.value.Takes (.text d.name) d.takes := Value.takes_fn (some d.name) d.params d.body
    rw [hcall, applyCallee_of_count_ne htakes rfl hne, Context.lines_append, List.foldr_append]
  · rw [hcall, Definition.value, applyCallee_fn hname hlength]
  · rw [hcall, Definition.value, applyCallee_builtin hname]

theorem lookup_install {policy : Policy} (htidy : policy.tidy = Env.compact) (i : Interpreter)
    (d : Definition) : (i.install policy d).env.lookup d.name = some d.value := by
  have hget : (i.install policy d).env.get? d.name = some d.value := by
    rw [install, define, htidy, Env.get?_compact, Env.get?_bind, if_pos rfl]
  exact Env.lookup_of_get? hget (by simp [Definition.value])

end Interpreter

namespace Session

theorem defineFunction_text (policy : Policy) (s : Session) (on : Name) (d : Definition) :
    s.defineFunction policy on (.text d.name) (d.params.map .text) d.body =
      (s.setInterpreter on ((s.interpreter on).install policy d), .ok (.value d.value)) := by
  simp only [defineFunction, Name.ofDatum_text, Value.function_text]
  rfl

/-- **A defined function is the one that is called.** After a function has been defined, whatever
its name, its parameters, its body and the interpreter, a call of the name with some arguments is
refused if these are not as many as the function takes: one for each parameter, or as many as the
builtin takes whose name it is. The error tells both numbers. With the right number of arguments
they are evaluated from left to right in the environment of the call; then the body is evaluated in
that same environment with the parameters bound to the values, and its value is that of the call,
while the caller goes on with what the arguments have bound. Only under the name of a builtin it is
the builtin that is called. -/
theorem defined_function_called {policy : Policy} (htidy : policy.tidy = Env.compact)
    (hdepth : 2 ≤ policy.stack.depth) (hroom : policy.stack.room.has 4) (s : Session) (on : Name)
    (d : Definition) (args : List Expr) :
    ((s.defineFunction policy on (.text d.name) (d.params.map .text) d.body).1.interpreter
      on).CallsDefined policy d args := by
  rw [defineFunction_text, interpreter_setInterpreter, if_pos rfl]
  exact Interpreter.callsDefined_of_lookup hdepth hroom (Interpreter.lookup_install htidy _ d) args

/-- A function of two parameters whose body is the first: a call with two arguments has the value of
the first. -/
theorem defined_function_called_first :
    (((default : Session).defineFunction {} "main" "first" [.text "x", .text "y"]
      (.var "x")).1.interpreter "main").CallsDefined {} ⟨"first", ["x", "y"], .var "x"⟩
        [.lit (.int 1), .lit (.int 2)] ∧
    ((((default : Session).defineFunction {} "main" "first" [.text "x", .text "y"]
      (.var "x")).1.interpreter "main").program {}
        (.call "first" [.lit (.int 1), .lit (.int 2)])).ended?.map (·.map Result.value) =
          some (.ok (.int 1)) :=
  ⟨defined_function_called rfl (by decide) rfl default "main" ⟨"first", ["x", "y"], .var "x"⟩ _,
    rfl⟩

/-- A function that is defined under the name of a builtin is not the one that is called. With one
argument for its one parameter the call is refused, as the builtin takes two, although the body has
a value where the parameter is bound. -/
theorem defined_plus_refused :
    ((((default : Session).defineFunction {} "main" "+" [.text "x"] (.var "x")).1.interpreter
      "main").program {} (.call "+" [.lit (.int 1)])).ended? =
        some (.error (.language (.arityMismatch "+" (.int 2) (.int 1)))) ∧
    ((Policy.stack {}).eval {} ((((default : Session).defineFunction {} "main" "+" [.text "x"]
      (.var "x")).1.interpreter "main").env.inBody ["x"] [.int 1]) (.var "x")).ended?.map
        (·.map Result.value) = some (.ok (.int 1)) :=
  ⟨rfl, rfl⟩

end Session

end ForkJoin

import ForkJoin.Proofs.Quiet

/-!
# What nodes and calls do besides printing

The rules for the nodes of the language once the lines are dropped. What is left of a call is the
builtin that its function stands for, or the body of its function over the parameters. A call by
name depends on what its name means where the call stands.
-/

namespace ForkJoin

variable {limit : Nat} {room : Room} {ctx : Context} {env : Env}

@[simp] theorem Room.less_less (room : Room) (m n : Nat) :
    (room.less m).less n = room.less (m + n) := by
  cases room with
  | none => rfl
  | some left => simp only [less, Option.map_some, Nat.sub_sub]

/-- The programs of two evaluations are the same but for the lines if those of the nodes are. -/
theorem quiet_eval_succ (limit : Nat) {room : Room} (hroom : room.has 2) (ctx : Context) (env : Env)
    (e : Expr) : (eval (limit + 1) room ctx env e).quiet =
      evalNode (eval limit) room ctx.quiet env e := by
  rw [quiets_eval, eval_succ limit hroom]

theorem quiet_eval_lit (hroom : room.has 2) (v : Value) :
    (eval (limit + 1) room ctx env (.lit v)).quiet = .done ⟨v, env⟩ := by
  rw [quiet_eval_succ limit hroom, evalNode_lit]
  rfl

theorem quiet_eval_var (hroom : room.has 2) {name : String} {v : Value}
    (hv : env.lookup name = some v) :
    (eval (limit + 1) room ctx env (.var name)).quiet = .done ⟨v, env⟩ := by
  rw [quiet_eval_succ limit hroom, evalNode_var, hv]
  rfl

theorem quiet_eval_letIn (hroom : room.has 2) (name : String) (value body : Expr) :
    (eval (limit + 1) room ctx env (.letIn name value body)).quiet = (do
      let bound ← (eval limit (room.less 2) ctx env value).quiet
      let result ← (eval limit (room.less 2) ctx (bound.env.bind name bound.value) body).quiet
      return ⟨result.value, if ctx.scopedLet then bound.env else result.env⟩) := by
  simp only [quiet_eval_succ limit hroom, evalNode_letIn, quiets_eval limit _ ctx]
  rfl

theorem quiet_eval_cond (hroom : room.has 2) (test yes no : Expr) :
    (eval (limit + 1) room ctx env (.cond test yes no)).quiet = (do
      let r ← (eval limit (room.less 2) ctx env test).quiet
      let b ← Prog.ofExcept (expectCondition .null r.value)
      (eval limit (room.less 2) ctx r.env (if b then yes else no)).quiet) := by
  simp only [quiet_eval_succ limit hroom, evalNode_cond, quiets_eval limit _ ctx]
  rfl

theorem quiet_eval_spawn (hroom : room.has 2) (body : Expr) :
    (eval (limit + 1) room ctx env (.spawn body)).quiet =
      .spawn ⟨body, env, ctx.quiet⟩ fun id => .done ⟨.future (.task id), env⟩ := by
  rw [quiet_eval_succ limit hroom, evalNode_spawn]
  rfl

theorem quiet_eval_sync (hroom : room.has 2) (body : Expr) :
    (eval (limit + 1) room ctx env (.sync body)).quiet = (do
      let r ← (eval limit (room.less 2) ctx env body).quiet
      let v ← syncValue r.value
      return ⟨v, r.env⟩) := by
  simp only [quiet_eval_succ limit hroom, evalNode_sync, quiets_eval limit _ ctx]
  rfl

/-- The name of a builtin means a function that stands for it. -/
def Env.Resolves (env : Env) (b : Builtin) : Prop :=
  ∃ params body, env.lookup b.name = some (.fn (some b.name) params body)

@[simp] theorem Builtin.ofName?_name (b : Builtin) : ofName? b.name = some b := by
  cases b <;> rfl

theorem quiet_eval_app (hroom : room.has 2) {callee : Expr} {name : Option String}
    {params : List String} {body : Expr} {env' : Env} {f : Procedure}
    (hf : (Value.fn name params body).procedure = .ok f)
    (hcallee : (eval limit (room.less 2) ctx env callee).quiet =
      .done ⟨.fn name params body, env'⟩) (args : List Expr) :
    (eval (limit + 1) room ctx env (.app callee args)).quiet =
      apply (eval limit) (room.less 1) ctx.quiet env' f (.list args) := by
  rw [quiet_eval_succ limit hroom, evalNode_app]
  rw [quiets_eval] at hcallee
  simp only [hcallee, Context.trace_quiet]
  cases hf
  rfl

theorem quiet_call_builtin {b : Builtin} (hroom : room.has 4) (hb : env.Resolves b)
    (args : List Expr) :
    (eval (limit + 2) room ctx env (.call b.name args)).quiet =
      applyBuiltin (eval (limit + 1)) (room.less 3) ctx.quiet env b args := by
  obtain ⟨params, body, hb⟩ := hb
  have hcallee : (eval (limit + 1) (room.less 2) ctx env (.var b.name)).quiet =
      .done ⟨.fn (some b.name) params body, env⟩ := quiet_eval_var (Room.has_less hroom) hb
  rw [Expr.call, quiet_eval_app (Room.has_of_le hroom (by decide)) rfl hcallee,
    apply_fn (some b.name) params body args rfl]
  simp only [Option.bind_some, Builtin.ofName?_name, Context.trace_quiet, Room.less_less]
  rfl

end ForkJoin

import ForkJoin.Proofs.Run.Lockstep
import ForkJoin.Proofs.TailLets

/-!
# Evaluation of tail lets in the two modes

Two programs are the same up to the mode when they print, spawn, claim and wait alike and end alike,
except for the environment that they leave behind; the works that they spawn are told different
modes, and have tail lets only. That they go on alike is asked of them only where the cells they
claim are among some given ones, and for values with tail lets only.

A part that is not in a tail position has no lets, so it leaves the environment as it finds it in
either mode. That is what carries the induction: all parts of a node are evaluated in the same
environment in both modes, and only in tail positions, where nobody looks at it any more, the
environments that are left behind may differ (`Result.Rescoped`).
-/

namespace ForkJoin

structure Context.Rescoped (ctx ctx' : Context) : Prop where
  debug : ctx'.debug = ctx.debug
  task : ctx'.task = ctx.task

structure Work.Rescoped (work work' : Work) : Prop where
  expr : work'.expr = work.expr
  env : work'.env = work.env
  context : work.context.Rescoped work'.context
  tailLets : work.expr.TailLets true
  tailLets_env : work.env.TailLets

/-- Results with the same value. What is not in a tail position also leaves the environment as it
was before. -/
structure Result.Rescoped (tail : Bool) (env : Env) (r r' : Result) : Prop where
  value : r'.value = r.value
  tailLets : r.value.TailLets
  env : tail = false → r.env = env ∧ r'.env = env

/-- Programs that do the same up to the mode, as long as they claim given cells only. -/
abbrev Prog.Rescoped (cells : CellId → Prop) {α β : Type} (R : α → β → Prop) (p : Prog Work α)
    (q : Prog Work β) : Prop :=
  p.InStep Value.TailLets Work.Rescoped cells R q

namespace Prog

variable {cells : CellId → Prop} {α β : Type} {R : α → β → Prop}

theorem Rescoped.trace {ctx ctx' : Context} {message : String} {p : Unit → Prog Work α}
    {q : Unit → Prog Work β} (hctx : ctx.Rescoped ctx') (h : (p ()).Rescoped cells R (q ())) :
    (ctx.trace message >>= p).Rescoped cells R (ctx'.trace message >>= q) :=
  InStep.trace hctx.debug hctx.task h

theorem Rescoped.answer {x : Except Failure Value} {k : Value → Prog Work α}
    {k' : Value → Prog Work β} (h : YieldsTailLets x)
    (hk : ∀ v, v.TailLets → (k v).Rescoped cells R (k' v)) :
    (ofExcept x >>= k).Rescoped cells R (ofExcept x >>= k') := by
  cases h with
  | ok hv => exact hk _ hv
  | error e => exact .fail e

end Prog

def Evaluator.Rescopes (cells : CellId → Prop) (ev ev' : Evaluator) : Prop :=
  ∀ room ctx ctx' env e tail, ctx.Rescoped ctx' → env.TailLets → e.TailLets tail →
    (ev room ctx env e).Rescoped cells (Result.Rescoped tail env) (ev' room ctx' env e)

section

open Prog (Rescoped)

variable {cells : CellId → Prop} {ev ev' : Evaluator} {room : Room} {ctx ctx' : Context} {env : Env}

theorem Result.Rescoped.of {v : Value} (hv : v.TailLets) (tail : Bool) (env : Env) :
    Result.Rescoped tail env ⟨v, env⟩ ⟨v, env⟩ :=
  ⟨rfl, hv, fun _ => ⟨rfl, rfl⟩⟩

theorem Result.Rescoped.anywhere {tail : Bool} {r r' : Result}
    (h : Result.Rescoped false env r r') : Result.Rescoped tail env r r' :=
  ⟨h.value, h.tailLets, fun _ => h.env rfl⟩

theorem Evaluator.Rescopes.bind {α β : Type} {R : α → β → Prop} {e : Expr}
    (hev : ev.Rescopes cells ev') (hctx : ctx.Rescoped ctx') (henv : env.TailLets)
    (he : e.TailLets false) {k : Result → Prog Work α} {k' : Result → Prog Work β}
    (hk : ∀ v, v.TailLets → (k ⟨v, env⟩).Rescoped cells R (k' ⟨v, env⟩)) :
    (ev room ctx env e >>= k).Rescoped cells R (ev' room ctx' env e >>= k') := by
  refine (hev room ctx ctx' env e false hctx henv he).bind fun r r' hr => ?_
  obtain ⟨v, left⟩ := r
  obtain ⟨v', left'⟩ := r'
  obtain ⟨rfl, hv, hleft⟩ := hr
  obtain ⟨rfl, rfl⟩ := hleft rfl
  exact hk _ hv

/-! ### Applications -/

/-- Arguments have no lets, so they are evaluated in the environment of the application. -/
theorem rescoped_evalArgs (hev : ev.Rescopes cells ev') (hctx : ctx.Rescoped ctx')
    (henv : env.TailLets) {args : List Expr} (hargs : ∀ arg ∈ args, arg.TailLets false) :
    (evalArgs ev room ctx env args).Rescoped cells
      (fun r r' => r' = r ∧ (∀ v ∈ r.1, v.TailLets) ∧ r.2 = env)
      (evalArgs ev' room ctx' env args) := by
  induction args with
  | nil => exact .done ⟨rfl, fun v hv => absurd hv List.not_mem_nil, rfl⟩
  | cons arg args ih =>
    obtain ⟨harg, hargs⟩ := List.forall_mem_cons.1 hargs
    refine hev.bind hctx henv harg fun v hv => ?_
    refine (ih hargs).bind ?_
    rintro ⟨values, left⟩ - ⟨rfl, hvalues, rfl⟩
    exact .done ⟨rfl, List.forall_mem_cons.2 ⟨hv, hvalues⟩, rfl⟩

theorem rescoped_unary (hev : ev.Rescopes cells ev') (hctx : ctx.Rescoped ctx')
    (henv : env.TailLets) {x : Expr} {op : Value → Except Failure Value} (hx : x.TailLets false)
    (hop : ∀ {v}, v.TailLets → YieldsTailLets (op v)) :
    (applyBuiltin.unary ev room ctx env x op).Rescoped cells (Result.Rescoped false env)
      (applyBuiltin.unary ev' room ctx' env x op) := by
  refine hev.bind hctx henv hx fun v hv => ?_
  exact Rescoped.answer (hop hv) fun w hw => .done (.of hw false env)

theorem rescoped_binary (hev : ev.Rescopes cells ev') (hctx : ctx.Rescoped ctx')
    (henv : env.TailLets) {x y : Expr} {op : Value → Value → Except Failure Value}
    (hx : x.TailLets false) (hy : y.TailLets false)
    (hop : ∀ {v w}, v.TailLets → w.TailLets → YieldsTailLets (op v w)) :
    (applyBuiltin.binary ev room ctx env x y op).Rescoped cells (Result.Rescoped false env)
      (applyBuiltin.binary ev' room ctx' env x y op) := by
  refine hev.bind hctx henv hx fun v hv => ?_
  refine hev.bind hctx henv hy fun w hw => ?_
  exact Rescoped.answer (hop hv hw) fun u hu => .done (.of hu false env)

theorem rescoped_applyBuiltin (hev : ev.Rescopes cells ev') (hctx : ctx.Rescoped ctx')
    (henv : env.TailLets) (b : Builtin) {args : List Expr}
    (hargs : ∀ arg ∈ args, arg.TailLets false) :
    (applyBuiltin ev room ctx env b args).Rescoped cells (Result.Rescoped false env)
      (applyBuiltin ev' room ctx' env b args) := by
  unfold applyBuiltin
  split
  case h_1 x y | h_2 x y =>
    simp only [List.forall_mem_cons] at hargs
    exact rescoped_binary hev hctx henv hargs.1 hargs.2.1 (.arithmetic _ _)
  case h_3 x y =>
    simp only [List.forall_mem_cons] at hargs
    exact rescoped_binary hev hctx henv hargs.1 hargs.2.1 fun _ _ => .equal _ _ _
  case h_4 x y =>
    simp only [List.forall_mem_cons] at hargs
    exact rescoped_binary hev hctx henv hargs.1 hargs.2.1 .cons
  case h_5 test yes no =>
    simp only [List.forall_mem_cons] at hargs
    obtain ⟨htest, hyes, hno, -⟩ := hargs
    refine hev.bind hctx henv htest fun v hv => ?_
    cases expectCondition "if" v with
    | error e => exact .fail e
    | ok b =>
      cases b with
      | true => exact hev _ _ _ _ _ _ hctx henv hyes
      | false => exact hev _ _ _ _ _ _ hctx henv hno
  case h_6 x =>
    simp only [List.forall_mem_cons] at hargs
    exact rescoped_unary hev hctx henv hargs.1 .head
  case h_7 x =>
    simp only [List.forall_mem_cons] at hargs
    exact rescoped_unary hev hctx henv hargs.1 .tail
  case h_8 => exact .fail _

/-- The body of a function is in a tail position, and what it binds is lost when it ends. -/
theorem rescoped_applyFunction (hev : ev.Rescopes cells ev') (hctx : ctx.Rescoped ctx')
    (henv : env.TailLets) {name : Option String} {params : List String} {body : Expr}
    {args : List Expr} {f : Procedure} (hf : (Value.fn name params body).procedure = .ok f)
    (hbody : body.TailLets true) (hargs : ∀ arg ∈ args, arg.TailLets false) :
    (applyFunction ev room ctx env f (.list args)).Rescoped cells (Result.Rescoped false env)
      (applyFunction ev' room ctx' env f (.list args)) := by
  rw [applyFunction_fn name params body args hf, applyFunction_fn name params body args hf]
  split
  · refine (rescoped_evalArgs hev hctx henv hargs).bind ?_
    rintro ⟨values, left⟩ - ⟨rfl, hvalues, rfl⟩
    have hbodyEnv : (left.extend (.ofList ((params.map .text).zip values))).TailLets :=
      henv.extend (Frame.holds_ofList fun binding h => hvalues _ (List.of_mem_zip h).2)
    refine Rescoped.trace hctx ?_
    refine (hev _ _ _ _ body true hctx hbodyEnv hbody).bind fun r r' hr => ?_
    rw [hr.value]
    exact .done (.of hr.tailLets false left)
  · exact .fail _

theorem rescoped_apply (hev : ev.Rescopes cells ev') (hctx : ctx.Rescoped ctx')
    (henv : env.TailLets) {name : Option String} {params : List String} {body : Expr}
    {args : List Expr} {f : Procedure} (hf : (Value.fn name params body).procedure = .ok f)
    (hbody : body.TailLets true) (hargs : ∀ arg ∈ args, arg.TailLets false) :
    (apply ev room ctx env f (.list args)).Rescoped cells (Result.Rescoped false env)
      (apply ev' room ctx' env f (.list args)) := by
  rw [apply_fn name params body args hf, apply_fn name params body args hf]
  cases name.bind Builtin.ofName? with
  | some b => exact Rescoped.trace hctx (rescoped_applyBuiltin hev hctx henv b hargs)
  | none => exact rescoped_applyFunction hev hctx henv hf hbody hargs

/-! ### Nodes -/

theorem rescoped_app (hev : ev.Rescopes cells ev') (hctx : ctx.Rescoped ctx')
    (henv : env.TailLets) {callee : Expr} {args : List Expr} (hcallee : callee.TailLets false)
    (hargs : ∀ arg ∈ args, arg.TailLets false) :
    (evalNode ev room ctx env (.app callee args)).Rescoped cells (Result.Rescoped false env)
      (evalNode ev' room ctx' env (.app callee args)) := by
  rw [evalNode_app, evalNode_app]
  refine Rescoped.trace hctx (hev.bind hctx henv hcallee fun v hv => ?_)
  dsimp only
  cases hfn : v.hasType "Function" with
  | false => exact .fail _
  | true =>
    obtain ⟨name, params, body, rfl⟩ := hv.wellFormed.eq_fn hfn
    exact rescoped_apply hev hctx henv rfl hv hargs

theorem rescoped_letIn (hev : ev.Rescopes cells ev') (hctx : ctx.Rescoped ctx')
    (henv : env.TailLets) (name : String) {value body : Expr} (hvalue : value.TailLets false)
    (hbody : body.TailLets true) :
    (evalNode ev room ctx env (.letIn name value body)).Rescoped cells (Result.Rescoped true env)
      (evalNode ev' room ctx' env (.letIn name value body)) := by
  rw [evalNode_letIn, evalNode_letIn]
  refine Rescoped.trace hctx (hev.bind hctx henv hvalue fun v hv => ?_)
  refine (hev _ _ _ _ body true hctx (henv.bind hv) hbody).bind fun r r' hr => ?_
  exact .done ⟨hr.value, hr.tailLets, nofun⟩

theorem rescoped_cond (hev : ev.Rescopes cells ev') (hctx : ctx.Rescoped ctx')
    (henv : env.TailLets) {test yes no : Expr} {tail : Bool} (htest : test.TailLets false)
    (hyes : yes.TailLets tail) (hno : no.TailLets tail) :
    (evalNode ev room ctx env (.cond test yes no)).Rescoped cells (Result.Rescoped tail env)
      (evalNode ev' room ctx' env (.cond test yes no)) := by
  rw [evalNode_cond, evalNode_cond]
  refine Rescoped.trace hctx (hev.bind hctx henv htest fun v hv => ?_)
  cases expectCondition .null v with
  | error e => exact .fail e
  | ok b =>
    cases b with
    | true => exact hev _ _ _ _ _ _ hctx henv hyes
    | false => exact hev _ _ _ _ _ _ hctx henv hno

theorem rescoped_spawn (hctx : ctx.Rescoped ctx') (henv : env.TailLets) {body : Expr}
    (hbody : body.TailLets true) :
    (evalNode ev room ctx env (.spawn body)).Rescoped cells (Result.Rescoped false env)
      (evalNode ev' room ctx' env (.spawn body)) := by
  rw [evalNode_spawn, evalNode_spawn]
  refine Rescoped.trace hctx (.spawn ⟨rfl, rfl, hctx, hbody, henv⟩ fun id => ?_)
  have hresult := Result.Rescoped.of (v := .future (.task id)) trivial false env
  rw [hctx.debug]
  cases ctx.debug with
  | false => exact .done hresult
  | true => exact .emit (.done hresult)

theorem rescoped_sync (hev : ev.Rescopes cells ev') (hctx : ctx.Rescoped ctx')
    (henv : env.TailLets) {body : Expr} (hbody : body.TailLets false) :
    (evalNode ev room ctx env (.sync body)).Rescoped cells (Result.Rescoped false env)
      (evalNode ev' room ctx' env (.sync body)) := by
  rw [evalNode_sync, evalNode_sync]
  refine Rescoped.trace hctx (hev.bind hctx henv hbody fun v hv => ?_)
  refine (Prog.InStep.syncValue v).bind fun w w' hw => ?_
  rw [hw.1]
  exact .done (.of hw.2 false env)

theorem rescopes_evalNode (hev : ev.Rescopes cells ev') :
    Evaluator.Rescopes cells (evalNode ev) (evalNode ev') := by
  intro room ctx ctx' env e tail hctx henv he
  cases e with
  | foreign d => exact he.elim
  | lit v =>
    rw [evalNode_lit, evalNode_lit]
    exact Rescoped.trace hctx (.done (.of he tail env))
  | var name =>
    rw [evalNode_var, evalNode_var]
    refine Rescoped.trace hctx ?_
    cases hv : env.lookup name with
    | none => exact .fail _
    | some v => exact .done (.of (henv.lookup hv) tail env)
  | app callee args =>
    obtain ⟨hcallee, hargs⟩ := (Expr.tailLets_app callee args tail).1 he
    exact (rescoped_app hev hctx henv hcallee hargs).mono fun _ _ h => h.anywhere
  | letIn name value body =>
    obtain ⟨rfl, hvalue, hbody⟩ := he
    exact rescoped_letIn hev hctx henv name hvalue hbody
  | cond test yes no => exact rescoped_cond hev hctx henv he.1 he.2.1 he.2.2
  | spawn body => exact (rescoped_spawn hctx henv he).mono fun _ _ h => h.anywhere
  | sync body => exact (rescoped_sync hev hctx henv he).mono fun _ _ h => h.anywhere

/-- Where lets are in tail positions evaluation does the same in the two modes. -/
theorem rescopes_eval (cells : CellId → Prop) (limit : Nat) :
    Evaluator.Rescopes cells (eval limit) (eval limit) := by
  induction limit with
  | zero => exact fun _ _ _ _ _ _ _ _ _ => .fail _
  | succ limit ih =>
    intro room ctx ctx' env e tail hctx henv he
    unfold eval
    split
    · exact rescopes_evalNode ih room ctx ctx' env e tail hctx henv he
    · exact .fail _

end

end ForkJoin

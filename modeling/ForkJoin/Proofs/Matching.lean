import ForkJoin.Proofs.Operations
import Mathlib.Data.List.Basic

/-!
# Programs that do the same under other names

Two programs match when they do the same in the same order, where the names of tasks and of cells may
be others on the second side: they spawn works that match, claim and wait for cells of matching
names, and go on alike whatever tasks they are named and whatever values they receive. What they
print is left open, since lines tell the names of tasks. The values that pass between them are those
of the language.

A matching says how names correspond and which failures do. It may also let some failures of the
first side stand for anything; then the second program goes on where the first one stops.

An evaluation never looks at the name of a task or a cell, so evaluations of matching expressions in
matching environments match (`Matching.evaluators_eval`). With every name matched to itself, this
says that evaluations of well-formed expressions hand on nothing but well-formed values and raise
nothing but the errors of the language.
-/

namespace ForkJoin

/-- How the names and the failures of one system correspond to those of another. -/
structure Matching where
  thread : ThreadId → ThreadId
  cell : CellId → CellId
  cell_task : ∀ id, cell (.task id) = .task (thread id)
  failure : Failure → Failure → Prop
  failure_raised : ∀ e, e.Raised → failure e e
  /-- The failures of the first side that stand for anything. -/
  stops : Failure → Prop := fun _ => False

/-- Contexts that differ in the task at most. -/
structure Context.Alike (ctx ctx' : Context) : Prop where
  debug : ctx'.debug = ctx.debug
  scopedLet : ctx'.scopedLet = ctx.scopedLet

structure Work.WellFormed (work : Work) : Prop where
  expr : work.expr.WellFormed
  env : work.env.WellFormed

structure Result.WellFormed (r : Result) : Prop where
  value : r.value.WellFormed
  env : r.env.WellFormed

namespace Matching

variable (M : Matching)

def value (v : Value) : Value :=
  v.rewrite (.ofCells M.cell)

def expr (e : Expr) : Expr :=
  e.rewrite (.ofCells M.cell)

def env (env : Env) : Env :=
  env.rewrite (.ofCells M.cell)

def result (r : Result) : Result :=
  ⟨M.value r.value, M.env r.env⟩

structure Works (work work' : Work) : Prop where
  wellFormed : work.WellFormed
  expr : work'.expr = M.expr work.expr
  env : work'.env = M.env work.env
  context : work.context.Alike work'.context

structure Results (r r' : Result) : Prop where
  wellFormed : r.WellFormed
  eq : r' = M.result r

end Matching

/-! ### Matching programs -/

/-- Programs that do the same under a matching. -/
inductive Prog.Matches (M : Matching) {α β : Type} (R : α → β → Prop) :
    Prog Work α → Prog Work β → Prop
  | done {a : α} {b : β} (h : R a b) : Matches M R (.done a) (.done b)
  | fail {e e' : Failure} (h : M.failure e e') : Matches M R (.fail e) (.fail e')
  | stop {e : Failure} {q : Prog Work β} (h : M.stops e) : Matches M R (.fail e) q
  | emit {line line' : String} {p : Prog Work α} {q : Prog Work β} (h : Matches M R p q) :
      Matches M R (.emit line p) (.emit line' q)
  | spawn {work work' : Work} {p : ThreadId → Prog Work α} {q : ThreadId → Prog Work β}
      (hwork : M.Works work work') (h : ∀ id, Matches M R (p id) (q (M.thread id))) :
      Matches M R (.spawn work p) (.spawn work' q)
  | claim {x : CellId} {p : Prog Work α} {q : Prog Work β} (h : Matches M R p q) :
      Matches M R (.claim x p) (.claim (M.cell x) q)
  | await {x : CellId} {p : Value → Prog Work α} {q : Value → Prog Work β}
      (h : ∀ v, v.WellFormed → Matches M R (p v) (q (M.value v))) :
      Matches M R (.await x p) (.await (M.cell x) q)

namespace Prog

variable {M : Matching} {α β γ δ : Type} {R : α → β → Prop} {S : γ → δ → Prop}

theorem Matches.bind {p : Prog Work α} {q : Prog Work β} {k : α → Prog Work γ}
    {k' : β → Prog Work δ} (h : Matches M R p q)
    (hk : ∀ a b, R a b → Matches M S (k a) (k' b)) : Matches M S (p >>= k) (q >>= k') := by
  induction h with
  | done h => exact hk _ _ h
  | fail h => exact .fail h
  | stop h => exact .stop h
  | emit h ih => exact .emit ih
  | spawn hwork h ih => exact .spawn hwork ih
  | claim h ih => exact .claim ih
  | await h ih => exact .await ih

theorem Matches.raise {e : LanguageError} (he : (Failure.language e).Raised) :
    Matches M R (.raise e) (.raise e) :=
  .fail (M.failure_raised e he)

theorem Matches.trace {ctx ctx' : Context} {message message' : String} {p : Unit → Prog Work α}
    {q : Unit → Prog Work β} (hctx : ctx.Alike ctx') (h : Matches M R (p ()) (q ())) :
    Matches M R (ctx.trace message >>= p) (ctx'.trace message' >>= q) := by
  unfold Context.trace
  rw [hctx.debug]
  cases ctx.debug with
  | false => exact h
  | true => exact .emit h

theorem Matches.answer {x y : Except Failure Value} {k : Value → Prog Work α}
    {k' : Value → Prog Work β} (h : Answers M.cell x y)
    (hk : ∀ v, v.WellFormed → Matches M R (k v) (k' (M.value v))) :
    Matches M R (ofExcept x >>= k) (ofExcept y >>= k') := by
  cases h with
  | ok hv => exact hk _ hv
  | error he => exact .fail (M.failure_raised _ he)

end Prog

/-! ### Matching evaluations -/

def Matching.Evaluators (M : Matching) (ev ev' : Evaluator) : Prop :=
  ∀ room ctx ctx' env e, ctx.Alike ctx' → env.WellFormed → e.WellFormed →
    Prog.Matches M M.Results (ev room ctx env e) (ev' room ctx' (M.env env) (M.expr e))

namespace Matching

open Prog (Matches)

variable {M : Matching} {ev ev' : Evaluator} {room : Room} {ctx ctx' : Context} {env : Env}

theorem Results.of {r : Result} (hvalue : r.value.WellFormed) (henv : r.env.WellFormed) :
    M.Results r (M.result r) :=
  ⟨⟨hvalue, henv⟩, rfl⟩

theorem Evaluators.bind {α β : Type} {R : α → β → Prop} {e : Expr} (hev : M.Evaluators ev ev')
    (hctx : ctx.Alike ctx') (henv : env.WellFormed) (he : e.WellFormed)
    {k : Result → Prog Work α} {k' : Result → Prog Work β}
    (hk : ∀ r : Result, r.value.WellFormed → r.env.WellFormed →
      Matches M R (k r) (k' (M.result r))) :
    Matches M R (ev room ctx env e >>= k) (ev' room ctx' (M.env env) (M.expr e) >>= k') := by
  refine (hev room ctx ctx' env e hctx henv he).bind fun r r' hr => ?_
  rw [hr.eq]
  exact hk r hr.wellFormed.value hr.wellFormed.env

theorem matches_syncValue {v : Value} (hv : v.WellFormed) :
    Matches M (fun w w' => w.WellFormed ∧ w' = M.value w) (syncValue v)
      (syncValue (M.value v)) := by
  cases v with
  | future x => exact .claim (.await fun w hw => .done ⟨hw, rfl⟩)
  | foreign d => exact hv.elim
  | _ => exact .raise trivial

theorem matches_evalArgs (hev : M.Evaluators ev ev') (hctx : ctx.Alike ctx')
    {args : List Expr} (henv : env.WellFormed) (hargs : ∀ arg ∈ args, arg.WellFormed) :
    Matches M (fun r r' => (∀ v ∈ r.1, v.WellFormed) ∧ r.2.WellFormed ∧
        r' = (r.1.map M.value, M.env r.2))
      (evalArgs ev room ctx env args) (evalArgs ev' room ctx' (M.env env) (args.map M.expr)) := by
  induction args generalizing env with
  | nil => exact .done ⟨fun v hv => absurd hv List.not_mem_nil, henv, rfl⟩
  | cons arg args ih =>
    obtain ⟨harg, hargs⟩ := List.forall_mem_cons.1 hargs
    refine hev.bind hctx henv harg fun first hvalue henv => ?_
    refine (ih henv hargs).bind ?_
    rintro ⟨values, env⟩ - ⟨hvalues, henv, rfl⟩
    exact .done ⟨List.forall_mem_cons.2 ⟨hvalue, hvalues⟩, henv, rfl⟩

theorem matches_unary (hev : M.Evaluators ev ev') (hctx : ctx.Alike ctx') {x : Expr}
    {op : Value → Except Failure Value} (henv : env.WellFormed) (hx : x.WellFormed)
    (hop : ∀ {v}, v.WellFormed → Answers M.cell (op v) (op (M.value v))) :
    Matches M M.Results (applyBuiltin.unary ev room ctx env x op)
      (applyBuiltin.unary ev' room ctx' (M.env env) (M.expr x) op) := by
  refine hev.bind hctx henv hx fun r hvalue henv => ?_
  exact Matches.answer (hop hvalue) fun v hv => .done (Results.of (r := ⟨v, r.env⟩) hv henv)

theorem matches_binary (hev : M.Evaluators ev ev') (hctx : ctx.Alike ctx') {x y : Expr}
    {op op' : Value → Value → Except Failure Value} (henv : env.WellFormed) (hx : x.WellFormed)
    (hy : y.WellFormed) (hop : ∀ {v w}, v.WellFormed → w.WellFormed →
      Answers M.cell (op v w) (op' (M.value v) (M.value w))) :
    Matches M M.Results (applyBuiltin.binary ev room ctx env x y op)
      (applyBuiltin.binary ev' room ctx' (M.env env) (M.expr x) (M.expr y) op') := by
  refine hev.bind hctx henv hx fun r hvalue henv => ?_
  refine hev.bind hctx henv hy fun s hvalue' henv' => ?_
  exact Matches.answer (hop hvalue hvalue') fun v hv =>
    .done (Results.of (r := ⟨v, s.env⟩) hv henv')

theorem matches_applyBuiltin (hev : M.Evaluators ev ev') (hctx : ctx.Alike ctx') (b : Builtin)
    {args : List Expr} (henv : env.WellFormed) (hargs : ∀ arg ∈ args, arg.WellFormed) :
    Matches M M.Results (applyBuiltin ev room ctx env b args)
      (applyBuiltin ev' room ctx' (M.env env) b (args.map M.expr)) := by
  by_cases hlength : args.length = b.arity
  case neg =>
    have hlength' : (args.map M.expr).length ≠ b.arity := by rwa [List.length_map]
    rw [applyBuiltin_of_length_ne hlength, applyBuiltin_of_length_ne hlength', List.length_map]
    exact .raise trivial
  case pos =>
    cases b with
    | add | sub =>
      obtain ⟨x, y, rfl⟩ := List.length_eq_two.1 hlength
      simp only [List.forall_mem_cons] at hargs
      exact matches_binary hev hctx henv hargs.1 hargs.2.1 (answers_arithmetic _ _)
    | eq =>
      obtain ⟨x, y, rfl⟩ := List.length_eq_two.1 hlength
      simp only [List.forall_mem_cons] at hargs
      simp only [List.map_cons, List.map_nil, applyBuiltin_eq]
      exact matches_binary hev hctx henv hargs.1 hargs.2.1 fun hv hw => answers_equal _ hv hw
    | cons =>
      obtain ⟨x, y, rfl⟩ := List.length_eq_two.1 hlength
      simp only [List.forall_mem_cons] at hargs
      simp only [List.map_cons, List.map_nil, applyBuiltin_cons]
      exact matches_binary hev hctx henv hargs.1 hargs.2.1 fun hv hw => answers_cons hv hw
    | head =>
      obtain ⟨x, rfl⟩ := List.length_eq_one_iff.1 hlength
      simp only [List.forall_mem_cons] at hargs
      exact matches_unary hev hctx henv hargs.1 answers_head
    | tail =>
      obtain ⟨x, rfl⟩ := List.length_eq_one_iff.1 hlength
      simp only [List.forall_mem_cons] at hargs
      exact matches_unary hev hctx henv hargs.1 answers_tail
    | choose =>
      obtain ⟨test, yes, no, rfl⟩ := List.length_eq_three.1 hlength
      simp only [List.forall_mem_cons] at hargs
      obtain ⟨htest, hyes, hno, -⟩ := hargs
      refine hev.bind hctx henv htest fun r hvalue henv => ?_
      have hsame : expectCondition "if" (M.result r).value = expectCondition "if" r.value :=
        expectCondition_ofCells hvalue
      rw [hsame]
      rcases expectCondition_cases "if" hvalue with ⟨b, -, h⟩ | ⟨e, he, h⟩
      · rw [h]
        cases b with
        | true => exact hev _ _ _ _ _ hctx henv hyes
        | false => exact hev _ _ _ _ _ hctx henv hno
      · rw [h]
        exact .fail (M.failure_raised e he)

theorem matches_applyFunction (hev : M.Evaluators ev ev') (hctx : ctx.Alike ctx')
    {name : Option String} {params : List String} {body : Expr} {args : List Expr}
    {f f' : Procedure} (hf : (Value.fn name params body).procedure = .ok f)
    (hf' : (Value.fn name params (M.expr body)).procedure = .ok f') (henv : env.WellFormed)
    (hbody : body.WellFormed) (hargs : ∀ arg ∈ args, arg.WellFormed) :
    Matches M M.Results (applyFunction ev room ctx env f (.list args))
      (applyFunction ev' room ctx' (M.env env) f' (.list (args.map M.expr))) := by
  rw [applyFunction_fn name params body args hf,
    applyFunction_fn name params (M.expr body) (args.map M.expr) hf', List.length_map]
  split
  · refine (matches_evalArgs hev hctx henv hargs).bind ?_
    rintro ⟨values, callerEnv⟩ - ⟨hvalues, hcaller, rfl⟩
    refine Matches.trace hctx ?_
    have hbodyEnv : (env.extend (.ofList ((params.map .text).zip values))).WellFormed :=
      henv.extend (Frame.wellFormed_ofList fun binding h =>
        hvalues _ (List.of_mem_zip h).2)
    have hresult := hev (room.less 1) ctx ctx' _ body hctx hbodyEnv hbody
    rw [Matching.env, Env.rewrite_extend_zip] at hresult
    refine hresult.bind fun r r' hr => ?_
    rw [hr.eq]
    exact .done (Results.of (r := ⟨r.value, callerEnv⟩) hr.wellFormed.value hcaller)
  · exact .raise trivial

theorem matches_apply (hev : M.Evaluators ev ev') (hctx : ctx.Alike ctx')
    {name : Option String} {params : List String} {body : Expr} {args : List Expr}
    {f f' : Procedure} (hf : (Value.fn name params body).procedure = .ok f)
    (hf' : (Value.fn name params (M.expr body)).procedure = .ok f') (henv : env.WellFormed)
    (hbody : body.WellFormed) (hargs : ∀ arg ∈ args, arg.WellFormed) :
    Matches M M.Results (apply ev room ctx env f (.list args))
      (apply ev' room ctx' (M.env env) f' (.list (args.map M.expr))) := by
  rw [apply_fn name params body args hf, apply_fn name params (M.expr body) _ hf']
  cases name.bind Builtin.ofName? with
  | some b => exact Matches.trace hctx (matches_applyBuiltin hev hctx b henv hargs)
  | none => exact matches_applyFunction hev hctx hf hf' henv hbody hargs

/-- A value is applied if it is a function, and so is the same value under other names. -/
theorem matches_function {v : Value} {k k' : Procedure → Prog Work Result} (hv : v.WellFormed)
    (hk : ∀ {name params body f f'}, (Value.fn name params body).procedure = .ok f →
      (Value.fn name params (M.expr body)).procedure = .ok f' → body.WellFormed →
      Matches M M.Results (k f) (k' f')) :
    Matches M M.Results
      (if v.hasType "Function" then (do k (← Prog.ofPart v.procedure))
        else .raise (.notCallable v.typeName))
      (if (M.value v).hasType "Function" then (do k' (← Prog.ofPart (M.value v).procedure))
        else .raise (.notCallable (M.value v).typeName)) := by
  have htype : (M.value v).hasType "Function" = v.hasType "Function" :=
    Value.hasType_ofCells v "Function"
  have hname : (M.value v).typeName = v.typeName := Value.typeName_ofCells v
  rw [htype, hname]
  cases hfn : v.hasType "Function" with
  | false => exact .raise trivial
  | true =>
    obtain ⟨name, params, body, rfl⟩ := hv.eq_fn hfn
    exact hk rfl rfl hv

theorem evaluators_evalNode (hev : M.Evaluators ev ev') :
    M.Evaluators (evalNode ev) (evalNode ev') := by
  intro room ctx ctx' env e hctx henv he
  cases e with
  | foreign d => exact he.elim
  | lit v =>
    rw [evalNode_lit, expr, Expr.rewrite_lit, evalNode_lit]
    exact Matches.trace hctx (.done (Results.of (r := ⟨v, env⟩) he henv))
  | var name =>
    rw [evalNode_var, expr, Expr.rewrite_var, evalNode_var]
    refine Matches.trace hctx ?_
    rw [Matching.env, Env.lookup_rewrite (Rewriting.wellFormed_ofCells M.cell) henv]
    cases hv : env.lookup name with
    | none => exact .raise trivial
    | some v =>
      rw [henv.lookup_eq] at hv
      exact .done (Results.of (r := ⟨v, env⟩) (henv.get? hv) henv)
  | app callee args =>
    obtain ⟨hcallee, hargs⟩ := (Expr.wellFormed_app callee args).1 he
    rw [evalNode_app, expr, Expr.rewrite_app, evalNode_app]
    refine Matches.trace hctx (hev.bind hctx henv hcallee fun f hvalue henv => ?_)
    exact matches_function hvalue fun hf hf' hbody =>
      matches_apply hev hctx hf hf' henv hbody hargs
  | letIn name value body =>
    rw [evalNode_letIn, expr, Expr.rewrite_letIn, evalNode_letIn]
    refine Matches.trace hctx (hev.bind hctx henv he.1 fun bound hvalue hbound => ?_)
    refine hev.bind hctx (hbound.bind hvalue) he.2 fun r hr hrenv => ?_
    rw [hctx.scopedLet]
    cases ctx.scopedLet with
    | true => exact .done (Results.of (r := ⟨r.value, bound.env⟩) hr hbound)
    | false => exact .done (Results.of (r := ⟨r.value, r.env⟩) hr hrenv)
  | cond test yes no =>
    obtain ⟨htest, hyes, hno⟩ := he
    rw [evalNode_cond, expr, Expr.rewrite_cond, evalNode_cond]
    refine Matches.trace hctx (hev.bind hctx henv htest fun r hvalue henv => ?_)
    have hsame : expectCondition .null (M.result r).value = expectCondition .null r.value :=
      expectCondition_ofCells hvalue
    rw [hsame]
    rcases expectCondition_cases .null hvalue with ⟨b, -, h⟩ | ⟨e, he, h⟩
    · rw [h]
      cases b with
      | true => exact hev _ _ _ _ _ hctx henv hyes
      | false => exact hev _ _ _ _ _ hctx henv hno
    · rw [h]
      exact .fail (M.failure_raised e he)
  | spawn body =>
    have hspawn : M.expr (.spawn body) = .spawn (M.expr body) := rfl
    rw [hspawn, evalNode_spawn, evalNode_spawn]
    refine Matches.trace hctx (.spawn ⟨⟨he, henv⟩, rfl, rfl, hctx⟩ fun id => ?_)
    have hresult : M.Results ⟨.future (.task id), env⟩
        ⟨.future (.task (M.thread id)), M.env env⟩ := by
      rw [← M.cell_task]
      exact Results.of (r := ⟨.future (.task id), env⟩) trivial henv
    rw [hctx.debug]
    cases ctx.debug with
    | false => exact .done hresult
    | true => exact .emit (.done hresult)
  | sync body =>
    have hsync : M.expr (.sync body) = .sync (M.expr body) := rfl
    rw [hsync, evalNode_sync, evalNode_sync]
    have hbody : body.WellFormed := he
    refine Matches.trace hctx (hev.bind hctx henv hbody fun r hvalue henv => ?_)
    refine (matches_syncValue hvalue).bind ?_
    rintro v - ⟨hv, rfl⟩
    exact .done (Results.of (r := ⟨v, r.env⟩) hv henv)

theorem evaluators_eval (M : Matching) (limit : Nat) : M.Evaluators (eval limit) (eval limit) := by
  induction limit with
  | zero => exact fun _ _ _ _ _ _ _ _ => .fail (M.failure_raised _ trivial)
  | succ limit ih =>
    intro room ctx ctx' env e hctx henv he
    unfold eval
    split
    · exact evaluators_evalNode ih room ctx ctx' env e hctx henv he
    · exact .fail (M.failure_raised _ trivial)

end Matching

end ForkJoin

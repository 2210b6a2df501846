import ForkJoin.Proofs.Primitive

/-!
# Evaluation of plain expressions

A plain expression, evaluated among primitive values, comes to an end by itself: each node takes at
most four steps, those of the tasks that are spawned for it included, and evaluations nest as deep
as the expression is high. `Prog.Ends` says so of a program, as long as it is handed primitive
values.

Evaluation is done here with anything in the place of calls of functions that are no builtins
(`evalCalling`). None is ever made, so what is put there does not matter, and the bodies of
functions are evaluated nowhere else.
-/

namespace ForkJoin

/-- What is done where a function that is no builtin is applied. -/
abbrev Calling := Evaluator → Room → Context → Env → Procedure → Args → Prog Work Result

section

variable (call : Calling) (ev : Evaluator) (room : Room) (ctx : Context) (env : Env)

def applyCalling (f : Procedure) (args : Args) : Prog Work Result := do
  let name ← Prog.ofPart f.name
  match ← Prog.ofPart (Builtin.ofFunctionName name) with
  | some b =>
    ctx.trace ("Builtin: " ++ b.name)
    callBuiltin ev (room.less 1) ctx env b args
  | none => call ev (room.less 1) ctx env f args

/-- Evaluates one node, with another way to call functions. Only applications can come to a call. -/
def evalNodeCalling : Evaluator := fun room ctx env e =>
  match e.node with
  | .ok (.app callee args) => do
    ctx.trace "Evaluating: APPLICATION"
    let f ← evalPart ev (room.less 2) ctx env callee
    if f.value.hasType "Function" then
      let procedure ← Prog.ofPart f.value.procedure
      applyCalling call ev (room.less 1) ctx f.env procedure (← Prog.ofPart args)
    else .raise (.notCallable f.value.typeName)
  | _ => evalNode ev room ctx env e

end

def evalCalling (call : Calling) (limit : Nat) : Evaluator :=
  match limit with
  | 0 => fun _ _ _ _ => .abort .stackExhausted
  | limit + 1 => fun room ctx env e =>
    if room.has 2 then evalNodeCalling call (evalCalling call limit) room ctx env e
    else .abort .stackExhausted

section

variable {ev : Evaluator} {room : Room} {ctx : Context} {env : Env}

theorem evalNodeCalling_app (call : Calling) (callee : Expr) (args : List Expr) :
    evalNodeCalling call ev room ctx env (.app callee args) =
      (do
        ctx.trace "Evaluating: APPLICATION"
        let f ← ev (room.less 2) ctx env callee
        if f.value.hasType "Function" then
          applyCalling call ev (room.less 1) ctx f.env (← Prog.ofPart f.value.procedure)
            (.list args)
        else .raise (.notCallable f.value.typeName)) := rfl

theorem applyCalling_builtin (call : Calling) (b : Builtin) (params : List String) (body : Expr)
    (args : List Expr) {f : Procedure}
    (hf : (Value.fn (some b.name) params body).procedure = .ok f) :
    applyCalling call ev room ctx env f (.list args) =
      (do
        ctx.trace ("Builtin: " ++ b.name)
        applyBuiltin ev ((room.less 1).less 1) ctx env b args) := by
  have hname : f.name = .ok (.ofText? (some b.name)) := by
    cases hf
    rfl
  simp only [applyCalling, hname, Prog.ofPart_ok_bind, ofFunctionName_ofText?, Option.bind_some,
    Builtin.ofName?_name]
  rfl

theorem evalNodeCalling_applyFunction (e : Expr) :
    evalNodeCalling applyFunction ev room ctx env e = evalNode ev room ctx env e := by
  unfold evalNodeCalling
  split
  case h_1 callee args hnode =>
    simp only [evalNode, hnode]
    rfl
  case h_2 => rfl

theorem evalCalling_applyFunction (limit : Nat) : evalCalling applyFunction limit = eval limit := by
  induction limit with
  | zero => rfl
  | succ limit ih =>
    funext room ctx env e
    simp only [evalCalling, eval, evalNodeCalling_applyFunction, ih]

end

/-! ### Programs that end -/

/-- A plain expression that is spawned among primitive values and is not too high. -/
structure Work.Fits (depth : Nat) (work : Work) : Prop where
  plain : work.expr.Plain
  height : work.expr.height ≤ depth
  env : work.env.Holds Value.Primitive

/-- A program that is handed primitive values ends within some steps, those of the tasks that it
spawns included: four for each node and one for the delivery. It ends as promised or with an
ordinary error. -/
inductive Prog.Ends (depth : Nat) {α : Type} (R : α → Prop) : Prog Work α → Nat → Prop
  | done {a : α} {k : Nat} (h : R a) : Ends depth R (.done a) k
  | fail {e : Failure} {k : Nat} (h : e.Ordinary) : Ends depth R (.fail e) k
  | emit {line : String} {p : Prog Work α} {n k : Nat} (h : Ends depth R p n) (hlt : n < k) :
      Ends depth R (.emit line p) k
  | spawn {work : Work} {p : ThreadId → Prog Work α} {n k : Nat} (hwork : work.Fits depth)
      (h : ∀ id, Ends depth R (p id) n) (hlt : n + (4 * work.expr.nodes + 1) < k) :
      Ends depth R (.spawn work p) k
  | claim {x : CellId} {p : Prog Work α} {n k : Nat} (h : Ends depth R p n) (hlt : n < k) :
      Ends depth R (.claim x p) k
  | await {x : CellId} {p : Value → Prog Work α} {n k : Nat}
      (h : ∀ v, v.Primitive → Ends depth R (p v) n) (hlt : n < k) : Ends depth R (.await x p) k

namespace Prog.Ends

variable {depth m n k : Nat} {α β : Type} {R : α → Prop} {S : β → Prop}

theorem mono {p : Prog Work α} (h : p.Ends depth R n) (hle : n ≤ k) : p.Ends depth R k := by
  cases h with
  | done h => exact .done h
  | fail h => exact .fail h
  | emit h hlt => exact .emit h (Nat.lt_of_lt_of_le hlt hle)
  | spawn hwork h hlt => exact .spawn hwork h (Nat.lt_of_lt_of_le hlt hle)
  | claim h hlt => exact .claim h (Nat.lt_of_lt_of_le hlt hle)
  | await h hlt => exact .await h (Nat.lt_of_lt_of_le hlt hle)

/-- What is done after a program takes its steps after those of the program. -/
theorem bind {p : Prog Work α} {f : α → Prog Work β} (h : p.Ends depth R m)
    (hf : ∀ a, R a → (f a).Ends depth S n) (hle : m + n ≤ k) : (p >>= f).Ends depth S k := by
  induction h generalizing k with
  | done h => exact (hf _ h).mono (Nat.le_of_add_left_le hle)
  | fail h => exact .fail h
  | emit h hlt ih => exact .emit (ih (Nat.le_refl _)) (by omega)
  | spawn hwork h hlt ih => exact .spawn hwork (fun id => ih id (Nat.le_refl _)) (by omega)
  | claim h hlt ih => exact .claim (ih (Nat.le_refl _)) (by omega)
  | await h hlt ih => exact .await (fun v hv => ih v hv (Nat.le_refl _)) (by omega)

theorem trace {ctx : Context} {message : String} {f : Unit → Prog Work α}
    (h : (f ()).Ends depth R n) (hlt : n < k) : (ctx.trace message >>= f).Ends depth R k := by
  unfold Context.trace
  split
  · exact .emit h hlt
  · exact h.mono (Nat.le_of_lt hlt)

theorem answer {x : Except Failure Value} {f : Value → Prog Work α} (h : YieldsPrimitive x)
    (hf : ∀ v, v.Primitive → (f v).Ends depth R n) : (ofExcept x >>= f).Ends depth R n := by
  cases h with
  | ok hv => exact hf _ hv
  | error he => exact .fail he

theorem syncValue {v : Value} (hv : v.Primitive) :
    (syncValue v).Ends depth Value.Primitive 2 := by
  have htake : ∀ x, (Prog.claim x (.await x .done)).Ends depth Value.Primitive 2 := fun x =>
    .claim (n := 1) (.await (n := 0) (fun _ hw => .done hw) Nat.zero_lt_one) (Nat.lt_succ_self 1)
  cases v with
  | future x => exact htake x
  | foreign d => exact hv.elim
  | _ => exact .fail trivial

end Prog.Ends

/-! ### Evaluators that end -/

/-- A result that is primitive, and so are the values that it leaves bound. -/
structure Result.Primitive (r : Result) : Prop where
  value : r.value.Primitive
  env : r.env.Holds Value.Primitive

def Evaluator.Ends (depth limit : Nat) (ev : Evaluator) : Prop :=
  ∀ ctx env e, env.Holds Value.Primitive → e.Plain → e.height ≤ limit →
    (ev none ctx env e).Ends depth Result.Primitive (4 * e.nodes)

section

variable {depth limit n k : Nat} {call : Calling} {ev : Evaluator} {ctx : Context} {env : Env}

theorem Evaluator.Ends.bind {α : Type} {S : α → Prop} (hev : ev.Ends depth limit) {e : Expr}
    (henv : env.Holds Value.Primitive) (he : e.Plain) (hheight : e.height ≤ limit)
    {f : Result → Prog Work α} (hf : ∀ r, r.Primitive → (f r).Ends depth S n)
    (hle : 4 * e.nodes + n ≤ k) : (ev none ctx env e >>= f).Ends depth S k :=
  (hev ctx env e henv he hheight).bind hf hle

theorem ends_unary (hev : ev.Ends depth limit) (henv : env.Holds Value.Primitive) {x : Expr}
    {op : Value → Except Failure Value} (hx : x.Plain ∧ x.height ≤ limit)
    (hop : ∀ {v}, v.Primitive → YieldsPrimitive (op v)) :
    (applyBuiltin.unary ev none ctx env x op).Ends depth Result.Primitive (4 * x.nodes) := by
  refine hev.bind (n := 0) henv hx.1 hx.2 (fun r hr => ?_) (Nat.le_refl _)
  exact .answer (hop hr.value) fun v hv => .done ⟨hv, hr.env⟩

theorem ends_binary (hev : ev.Ends depth limit) (henv : env.Holds Value.Primitive) {x y : Expr}
    {op : Value → Value → Except Failure Value} (hx : x.Plain ∧ x.height ≤ limit)
    (hy : y.Plain ∧ y.height ≤ limit)
    (hop : ∀ {v w}, v.Primitive → w.Primitive → YieldsPrimitive (op v w)) :
    (applyBuiltin.binary ev none ctx env x y op).Ends depth Result.Primitive
      (4 * x.nodes + 4 * y.nodes) := by
  refine hev.bind henv hx.1 hx.2 (fun r hr => ?_) (Nat.le_refl _)
  refine hev.bind (n := 0) hr.env hy.1 hy.2 (fun s hs => ?_) (Nat.le_refl _)
  exact .answer (hop hr.value hs.value) fun v hv => .done ⟨hv, hs.env⟩

theorem ends_choose (hev : ev.Ends depth limit) (henv : env.Holds Value.Primitive)
    {test yes no : Expr} (htest : test.Plain ∧ test.height ≤ limit)
    (hyes : yes.Plain ∧ yes.height ≤ limit) (hno : no.Plain ∧ no.height ≤ limit)
    (function : Datum) :
    (do
      let r ← ev none ctx env test
      let b ← Prog.ofExcept (expectCondition function r.value)
      ev none ctx r.env (if b then yes else no)).Ends depth Result.Primitive
      (4 * (test.nodes + yes.nodes + no.nodes)) := by
  refine hev.bind henv htest.1 htest.2 (n := 4 * (yes.nodes + no.nodes)) (fun r hr => ?_) (by omega)
  cases hb : expectCondition function r.value with
  | error e => exact .fail (Failure.ordinary_of_expectCondition hr.value.wellFormed hb)
  | ok b =>
    cases b with
    | true => exact (hev ctx r.env yes hr.env hyes.1 hyes.2).mono (by omega)
    | false => exact (hev ctx r.env no hr.env hno.1 hno.2).mono (by omega)

theorem ends_applyBuiltin (hev : ev.Ends depth limit) (henv : env.Holds Value.Primitive)
    (b : Builtin) {args : List Expr} (hplain : Expr.AllPlain args)
    (hheight : Expr.heightAll args ≤ limit) :
    (applyBuiltin ev none ctx env b args).Ends depth Result.Primitive
      (4 * Expr.nodesAll args) := by
  unfold applyBuiltin
  split
  case h_8 => exact .fail trivial
  all_goals simp only [Expr.AllPlain, Expr.heightAll, Nat.max_le] at hplain hheight
  case h_1 x y | h_2 x y =>
    exact (ends_binary hev henv ⟨hplain.1, hheight.1⟩ ⟨hplain.2.1, hheight.2.1⟩
      (.arithmetic _ _)).mono (by simp only [Expr.nodesAll]; omega)
  case h_3 x y =>
    exact (ends_binary hev henv ⟨hplain.1, hheight.1⟩ ⟨hplain.2.1, hheight.2.1⟩
      .equal).mono (by simp only [Expr.nodesAll]; omega)
  case h_4 x y =>
    exact (ends_binary hev henv ⟨hplain.1, hheight.1⟩ ⟨hplain.2.1, hheight.2.1⟩
      .cons).mono (by simp only [Expr.nodesAll]; omega)
  case h_5 test yes no =>
    exact (ends_choose hev henv ⟨hplain.1, hheight.1⟩ ⟨hplain.2.1, hheight.2.1⟩
      ⟨hplain.2.2.1, hheight.2.2.1⟩ "if").mono (by simp only [Expr.nodesAll]; omega)
  case h_6 x => exact ends_unary hev henv ⟨hplain.1, hheight.1⟩ .head
  case h_7 x => exact ends_unary hev henv ⟨hplain.1, hheight.1⟩ .tail

theorem ends_applyCalling (hev : ev.Ends depth limit) (henv : env.Holds Value.Primitive)
    {b : Builtin} {params : List String} {body : Expr} {args : List Expr} {f : Procedure}
    (hf : (Value.fn (some b.name) params body).procedure = .ok f) (hplain : Expr.AllPlain args)
    (hheight : Expr.heightAll args ≤ limit) :
    (applyCalling call ev none ctx env f (.list args)).Ends depth Result.Primitive
      (4 * Expr.nodesAll args + 1) := by
  rw [applyCalling_builtin call b params body args hf]
  exact .trace (ends_applyBuiltin hev henv b hplain hheight) (Nat.lt_succ_self _)

theorem ends_var (henv : env.Holds Value.Primitive) (name : String) :
    (evalNode ev none ctx env (.var name)).Ends depth Result.Primitive
      (4 * (Expr.var name).nodes) := by
  rw [evalNode_var]
  refine .trace (n := 0) ?_ (by simp only [Expr.nodes]; omega)
  cases hv : env.lookup name with
  | none => exact .fail trivial
  | some v => exact .done ⟨henv.lookup hv, henv⟩

/-- The callee gives a primitive value. If it is a function, that stands for a builtin. -/
theorem ends_app (hev : ev.Ends depth limit) (henv : env.Holds Value.Primitive) {callee : Expr}
    {args : List Expr} (he : (Expr.app callee args).Plain)
    (hheight : (Expr.app callee args).height ≤ limit + 1) :
    (evalNodeCalling call ev none ctx env (.app callee args)).Ends depth Result.Primitive
      (4 * (Expr.app callee args).nodes) := by
  have hheight := Nat.max_le.1 (Nat.le_of_succ_le_succ hheight)
  rw [evalNodeCalling_app, Expr.nodes]
  refine .trace (n := 4 * callee.nodes + (4 * Expr.nodesAll args + 1)) ?_ (by omega)
  refine hev.bind henv he.1 hheight.1 (fun r hr => ?_) (Nat.le_refl _)
  obtain ⟨v, env'⟩ := r
  obtain ⟨hv, henv'⟩ := hr
  dsimp only at hv henv' ⊢
  cases hfn : v.hasType "Function" with
  | false => exact .fail trivial
  | true =>
    obtain ⟨name, params, body, rfl⟩ := hv.wellFormed.eq_fn hfn
    obtain ⟨⟨b, rfl⟩, -⟩ := hv
    exact ends_applyCalling hev henv' rfl he.2 hheight.2

theorem ends_letIn (hev : ev.Ends depth limit) (henv : env.Holds Value.Primitive) (name : String)
    {value body : Expr} (hvalue : value.Plain ∧ value.height ≤ limit)
    (hbody : body.Plain ∧ body.height ≤ limit) :
    (evalNode ev none ctx env (.letIn name value body)).Ends depth Result.Primitive
      (4 * (value.nodes + body.nodes + 1)) := by
  rw [evalNode_letIn]
  refine .trace (n := 4 * value.nodes + 4 * body.nodes) ?_ (by omega)
  refine hev.bind henv hvalue.1 hvalue.2 (fun r hr => ?_) (Nat.le_refl _)
  refine hev.bind (n := 0) (hr.env.bind hr.value) hbody.1 hbody.2 (fun s hs => ?_) (Nat.le_refl _)
  refine .done ⟨hs.value, ?_⟩
  cases ctx.scopedLet with
  | true => exact hr.env
  | false => exact hs.env

theorem ends_cond (hev : ev.Ends depth limit) (henv : env.Holds Value.Primitive)
    {test yes no : Expr} (htest : test.Plain ∧ test.height ≤ limit)
    (hyes : yes.Plain ∧ yes.height ≤ limit) (hno : no.Plain ∧ no.height ≤ limit) :
    (evalNode ev none ctx env (.cond test yes no)).Ends depth Result.Primitive
      (4 * (test.nodes + yes.nodes + no.nodes + 1)) := by
  rw [evalNode_cond]
  exact .trace (ends_choose hev henv htest hyes hno .null) (by omega)

theorem ends_spawn (henv : env.Holds Value.Primitive) {body : Expr} (hbody : body.Plain)
    (hheight : body.height ≤ depth) :
    (evalNode ev none ctx env (.spawn body)).Ends depth Result.Primitive
      (4 * (body.nodes + 1)) := by
  rw [evalNode_spawn]
  refine .trace (n := 4 * body.nodes + 3) ?_ (by omega)
  refine .spawn (n := 1) ⟨hbody, hheight, henv⟩ (fun id => ?_) (by dsimp only; omega)
  have hresult : Result.Primitive ⟨.future (.task id), env⟩ := ⟨trivial, henv⟩
  cases ctx.debug with
  | true => exact .emit (n := 0) (.done hresult) Nat.zero_lt_one
  | false => exact .done hresult

theorem ends_sync (hev : ev.Ends depth limit) (henv : env.Holds Value.Primitive) {body : Expr}
    (hbody : body.Plain) (hheight : body.height ≤ limit) :
    (evalNode ev none ctx env (.sync body)).Ends depth Result.Primitive (4 * (body.nodes + 1)) := by
  rw [evalNode_sync]
  refine .trace (n := 4 * body.nodes + 2) ?_ (by omega)
  refine hev.bind henv hbody hheight (fun r hr => ?_) (Nat.le_refl _)
  exact (Prog.Ends.syncValue hr.value).bind (n := 0) (fun v hv => .done ⟨hv, hr.env⟩)
    (Nat.le_refl 2)

theorem ends_evalNodeCalling (hev : ev.Ends depth limit) (hdepth : limit ≤ depth) :
    (evalNodeCalling call ev).Ends depth (limit + 1) := by
  intro ctx env e henv he hheight
  cases e with
  | foreign d => exact he.elim
  | lit v =>
    refine Prog.Ends.trace (n := 0) ?_ (by simp only [Expr.nodes]; omega)
    exact .done ⟨Value.primitive_of_isGround he, henv⟩
  | var name => exact ends_var henv name
  | app callee args => exact ends_app hev henv he hheight
  | letIn name value body =>
    have hheight := Nat.max_le.1 (Nat.le_of_succ_le_succ hheight)
    exact ends_letIn hev henv name ⟨he.1, hheight.1⟩ ⟨he.2, hheight.2⟩
  | cond test yes no =>
    have hheight := Nat.max_le.1 (Nat.le_of_succ_le_succ hheight)
    have hbranches := Nat.max_le.1 hheight.2
    exact ends_cond hev henv ⟨he.1, hheight.1⟩ ⟨he.2.1, hbranches.1⟩ ⟨he.2.2, hbranches.2⟩
  | spawn body => exact ends_spawn henv he (Nat.le_trans (Nat.le_of_succ_le_succ hheight) hdepth)
  | sync body => exact ends_sync hev henv he (Nat.le_of_succ_le_succ hheight)

/-- A plain expression is evaluated within its height, and ends. -/
theorem ends_evalCalling (call : Calling) (hdepth : limit ≤ depth) :
    (evalCalling call limit).Ends depth limit := by
  induction limit with
  | zero =>
    intro ctx env e _ _ hheight
    cases e <;> exact absurd hheight (Nat.not_succ_le_zero _)
  | succ limit ih =>
    have hlimit := Nat.le_of_succ_le hdepth
    exact ends_evalNodeCalling (ih hlimit) hlimit

end

end ForkJoin

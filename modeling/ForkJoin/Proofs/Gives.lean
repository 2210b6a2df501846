import ForkJoin.Proofs.Bindings
import ForkJoin.Proofs.Calls
import Mathlib.Data.List.Forall2

/-!
# Evaluations without effects

An evaluation that spawns and claims nothing does no more than print lines and end. Where the stack
reaches deep enough an expression then gives an outcome, whatever the other threads do
(`Expr.Gives`). How deep that is is counted in evaluations that nest, and each of them takes five
entries of the stack at most.

The rules below put together what a call gives from what its operands give. Where a part has
effects they are equations between programs without their lines: a call of a function is its body
over the parameters, a conditional the branch that its test selects.
-/

namespace ForkJoin

/-- Evaluations can nest to a depth: neither the limit nor the room, of which an evaluation takes
five entries at most, ends before. -/
structure Affords (limit : Nat) (room : Room) (depth : Nat) : Prop where
  limit : depth ≤ limit
  room : room.has (5 * depth)

namespace Affords

variable {limit depth depth' : Nat} {room : Room}

theorem mono (h : Affords limit room depth) (hle : depth' ≤ depth) :
    Affords limit room depth' :=
  ⟨Nat.le_trans hle h.limit, Room.has_of_le h.room (Nat.mul_le_mul_left 5 hle)⟩

theorem has {n : Nat} (h : Affords limit room depth) (hn : n ≤ 5 * depth) : room.has n :=
  Room.has_of_le h.room hn

theorem less (h : Affords (limit + 1) room (depth + 1)) {n : Nat} (hn : n ≤ 5) :
    Affords limit (room.less n) depth :=
  ⟨Nat.le_of_succ_le_succ h.limit, Room.has_less (h.has (by omega))⟩

theorem exists_succ (h : Affords limit room (depth + 1)) : ∃ n, limit = n + 1 :=
  Nat.exists_eq_add_one_of_ne_zero (Nat.ne_zero_of_lt h.limit)

end Affords

/-- All that the evaluation of an expression does besides printing, on a stack that reaches to a
depth, is to end with an outcome, in the environment that it began in. -/
def Expr.Gives (depth : Nat) (ctx : Context) (env : Env) (e : Expr) (o : Outcome) : Prop :=
  ∀ limit room, Affords limit room depth →
    (eval limit room ctx env e).quiet = .ofExcept (o.map (⟨·, env⟩))

def GivesAll (depth : Nat) (ctx : Context) (env : Env) (es : List Expr) (vs : List Value) : Prop :=
  List.Forall₂ (fun e v => e.Gives depth ctx env (.ok v)) es vs

variable {depth limit : Nat} {room : Room} {ctx : Context} {env : Env} {e x y test yes no : Expr}
  {o o' result : Outcome} {v : Value}

theorem Expr.Gives.mono {depth' : Nat} (h : e.Gives depth ctx env o) (hle : depth ≤ depth') :
    e.Gives depth' ctx env o :=
  fun limit room hroom => h limit room (hroom.mono hle)

theorem GivesAll.mono {depth' : Nat} {es : List Expr} {vs : List Value}
    (h : GivesAll depth ctx env es vs) (hle : depth ≤ depth') : GivesAll depth' ctx env es vs :=
  List.Forall₂.imp (fun _ _ h => h.mono hle) h

theorem gives_lit (v : Value) : (Expr.lit v).Gives 1 ctx env (.ok v) := by
  intro limit room h
  obtain ⟨limit, rfl⟩ := h.exists_succ
  exact quiet_eval_lit (h.has (by omega)) v

theorem gives_var {name : String} (hv : env.lookup name = some v) :
    (Expr.var name).Gives 1 ctx env (.ok v) := by
  intro limit room h
  obtain ⟨limit, rfl⟩ := h.exists_succ
  exact quiet_eval_var (h.has (by omega)) hv

theorem Expr.Gives.eval_quiet (h : e.Gives depth ctx env o) (hroom : Affords limit room depth) :
    eval limit room ctx.quiet env e = .ofExcept (o.map (⟨·, env⟩)) :=
  (quiets_eval limit room ctx env e).symm.trans (h limit room hroom)

/-- An expression without `let`s that ends without effects leaves the environment as it was. -/
theorem gives_of_ended? (hlets : ∀ name value, ¬ e.Lets name value)
    (h : ∀ limit room, Affords limit room depth →
      ((eval limit room ctx env e).quiet.ended?).map (·.map Result.value) = some o) :
    e.Gives depth ctx env o := by
  intro limit room hroom
  obtain ⟨r, hr, rfl⟩ := Option.map_eq_some_iff.1 (h limit room hroom)
  have hprog : (eval limit room ctx env e).quiet = .ofExcept r := by
    generalize (eval limit room ctx env e).quiet = p at hr
    cases p with
    | done | fail =>
      cases hr
      rfl
    | emit | spawn | claim | await => cases hr
  rw [hprog]
  cases r with
  | error e => rfl
  | ok r =>
    have hreturns : (eval limit room ctx.quiet env e).Returns r := by
      rw [← quiets_eval, hprog]
      rfl
    have henv : r.env = env := ((framed_eval limit).grows hreturns).eq_of_none
      fun name v hleaves => hleaves.2.elim fun value hvalue => hlets name value hvalue.1
    exact congrArg (fun env => Prog.done (Result.mk r.value env)) henv

/-! ### Calls of builtins -/

section Builtins

variable {b : Builtin}

theorem gives_unary {f : Value → Except Failure Value}
    (hb : env.Resolves b) (hbuiltin : ∀ ev room ctx, applyBuiltin ev room ctx env b [x] =
      applyBuiltin.unary ev room ctx env x f)
    (hx : x.Gives (depth + 1) ctx env o) (hresult : (o >>= f) = result) :
    (Expr.call b.name [x]).Gives (depth + 2) ctx env result := by
  subst hresult
  intro limit room h
  obtain ⟨limit, rfl⟩ := h.exists_succ
  obtain ⟨limit, rfl⟩ := (h.less (Nat.zero_le 5)).exists_succ
  have hoperand := hx.eval_quiet (h.less (n := 4) (by omega))
  rw [quiet_call_builtin (h.has (by omega)) hb, hbuiltin, applyBuiltin.unary, Room.less_less,
    hoperand]
  cases o with
  | error e => rfl
  | ok v =>
    change (Prog.ofExcept (f v) >>= _) = Prog.ofExcept ((f v).map _)
    cases f v <;> rfl

theorem gives_binary {f : Room → Value → Value → Except Failure Value}
    (hb : env.Resolves b) (hbuiltin : ∀ ev room ctx, applyBuiltin ev room ctx env b [x, y] =
      applyBuiltin.binary ev room ctx env x y (f room))
    (hx : x.Gives (depth + 1) ctx env o) (hy : y.Gives (depth + 1) ctx env o')
    (hresult : ∀ room : Room, room.has 7 →
      (do let v ← o; let w ← o'; f room v w) = result) :
    (Expr.call b.name [x, y]).Gives (depth + 2) ctx env result := by
  intro limit room h
  obtain ⟨limit, rfl⟩ := h.exists_succ
  obtain ⟨limit, rfl⟩ := (h.less (Nat.zero_le 5)).exists_succ
  rw [← hresult (room.less 3) (Room.has_less (h.has (by omega)))]
  have hoperands := h.less (Nat.le_refl 5)
  have hfirst := hx.eval_quiet hoperands
  have hsecond := hy.eval_quiet hoperands
  rw [quiet_call_builtin (h.has (by omega)) hb, hbuiltin, applyBuiltin.binary, Room.less_less,
    hfirst]
  cases o with
  | error e => rfl
  | ok v =>
    change (eval (limit + 1) (room.less 5) ctx.quiet env y >>= _) = _
    rw [hsecond]
    cases o' with
    | error e => rfl
    | ok w =>
      change (Prog.ofExcept (f (room.less 3) v w) >>= _) =
        Prog.ofExcept ((f (room.less 3) v w).map _)
      cases f (room.less 3) v w <;> rfl

theorem gives_sub {m n : Int} (hb : env.Resolves .sub)
    (hx : x.Gives (depth + 1) ctx env (.ok (.int m)))
    (hy : y.Gives (depth + 1) ctx env (.ok (.int n))) :
    (Expr.call "-" [x, y]).Gives (depth + 2) ctx env (.ok (.int (m - n))) :=
  gives_binary (b := .sub) hb (fun _ _ _ => rfl) hx hy fun _ _ => rfl

theorem gives_eq {w : Value} {same : Bool} (hb : env.Resolves .eq)
    (hx : x.Gives (depth + 1) ctx env (.ok v)) (hy : y.Gives (depth + 1) ctx env (.ok w))
    (hequal : ∀ room : Room, room.has 6 → v.equal room w = .ok same) :
    (Expr.call "=" [x, y]).Gives (depth + 2) ctx env (.ok (.bool same)) := by
  refine gives_binary hb (fun _ _ _ => applyBuiltin_eq x y) hx hy fun room hroom => ?_
  change Failure.ofFault (return Value.bool (← v.equal (room.less 1) w)) = _
  rw [hequal _ (Room.has_less hroom)]
  rfl

/-- A cons; of two failures of its operands the first is the one that it raises. -/
theorem gives_cons {vs : Except Failure (List Value)} (hb : env.Resolves .cons)
    (hx : x.Gives (depth + 1) ctx env o) (hy : y.Gives (depth + 1) ctx env (vs.map .vec)) :
    (Expr.call "cons" [x, y]).Gives (depth + 2) ctx env
      ((do let v ← o; let vs ← vs; return v :: vs).map .vec) := by
  refine gives_binary
    (f := fun _ v w => do Failure.ofFault ((← expectVector "cons" 2 w).pushFront v))
    hb (fun _ _ _ => applyBuiltin_cons x y) hx hy fun _ _ => ?_
  cases o <;> cases vs <;> rfl

theorem gives_head {vs : List Value} (hb : env.Resolves .head)
    (hx : x.Gives (depth + 1) ctx env (.ok (.vec (v :: vs)))) :
    (Expr.call "head" [x]).Gives (depth + 2) ctx env (.ok v) :=
  gives_unary (b := .head) hb (fun _ _ _ => rfl) hx rfl

theorem gives_tail {vs : List Value} (hb : env.Resolves .tail)
    (hx : x.Gives (depth + 1) ctx env (.ok (.vec (v :: vs)))) :
    (Expr.call "tail" [x]).Gives (depth + 2) ctx env (.ok (.vec vs)) :=
  gives_unary (b := .tail) hb (fun _ _ _ => rfl) hx rfl

theorem gives_choose {b : Bool} (hb : env.Resolves .choose)
    (htest : test.Gives (depth + 1) ctx env (.ok (.bool b)))
    (hbranch : (if b then yes else no).Gives (depth + 1) ctx env o) :
    (Expr.call "if" [test, yes, no]).Gives (depth + 2) ctx env o := by
  intro limit room h
  obtain ⟨limit, rfl⟩ := h.exists_succ
  obtain ⟨limit, rfl⟩ := (h.less (Nat.zero_le 5)).exists_succ
  have hparts := h.less (n := 4) (by omega)
  refine (quiet_call_builtin (h.has (by omega)) hb [test, yes, no]).trans ?_
  simp only [applyBuiltin, Room.less_less, htest.eval_quiet hparts]
  exact hbranch.eval_quiet hparts

end Builtins

/-! ### Conditionals and calls of functions -/

theorem quiet_cond {b : Bool} (hroom : Affords (limit + 1) room (depth + 1))
    (htest : test.Gives depth ctx env (.ok (.bool b))) :
    (eval (limit + 1) room ctx env (.cond test yes no)).quiet =
      (eval limit (room.less 2) ctx env (if b then yes else no)).quiet := by
  rw [quiet_eval_cond (hroom.has (by omega)), htest limit _ (hroom.less (by omega))]
  rfl

theorem evalArgs_of_givesAll {es : List Expr} {vs : List Value} (h : GivesAll depth ctx env es vs)
    (hroom : Affords limit (room.less 1) depth) :
    evalArgs (eval limit) room ctx.quiet env es = .done (vs, env) := by
  induction h with
  | nil => rfl
  | cons hfirst _ ih =>
    rw [evalArgs, hfirst.eval_quiet hroom]
    change (evalArgs (eval limit) room ctx.quiet env _ >>= _) = _
    rw [ih]
    rfl

section Functions

variable {name : String} {params : List String} {body : Expr} {args : List Expr}
  {values : List Value}

def Env.inBody (env : Env) (params : List String) (values : List Value) : Env :=
  env.extend (.ofList ((params.map .text).zip values))

/-- An application of a function that is no builtin does what its body does where the parameters
are bound, and leaves the environment as its arguments do. -/
theorem quiet_app_fn {callee : Expr} {fname : Option String}
    (hroom : Affords (limit + 1) room (depth + 1))
    (hcallee : callee.Gives depth ctx env (.ok (.fn fname params body)))
    (hname : fname.bind Builtin.ofName? = none) (hargs : GivesAll depth ctx env args values)
    (hlength : values.length = params.length) :
    (eval (limit + 1) room ctx env (.app callee args)).quiet = (do
      let r ← (eval limit (room.less 3) ctx (env.inBody params values) body).quiet
      return ⟨r.value, env⟩) := by
  have hlength : args.length = params.length := hargs.length_eq.trans hlength
  have hroom' : Affords limit ((room.less 3).less 1) depth := by
    rw [Room.less_less]
    exact hroom.less (by omega)
  rw [quiet_eval_app (hroom.has (by omega)) rfl (hcallee limit _ (hroom.less (by omega))),
    apply_fn fname params body args rfl]
  simp only [hname, applyFunction_fn fname params body args rfl, if_pos hlength, Room.less_less,
    Nat.reduceAdd, evalArgs_of_givesAll hargs hroom']
  rw [quiets_eval]
  rfl

theorem gives_app_fn {callee : Expr} {fname : Option String}
    (hcallee : callee.Gives depth ctx env (.ok (.fn fname params body)))
    (hname : fname.bind Builtin.ofName? = none) (hargs : GivesAll depth ctx env args values)
    (hlength : values.length = params.length)
    (hbody : body.Gives depth ctx (env.inBody params values) o) :
    (Expr.app callee args).Gives (depth + 1) ctx env o := by
  intro limit room h
  obtain ⟨limit, rfl⟩ := h.exists_succ
  rw [quiet_app_fn h hcallee hname hargs hlength, hbody limit _ (h.less (by omega))]
  cases o <;> rfl

theorem gives_call_fn (hdepth : 0 < depth)
    (hf : env.lookup name = some (.fn (some name) params body))
    (hname : Builtin.ofName? name = none) (hargs : GivesAll depth ctx env args values)
    (hlength : values.length = params.length)
    (hbody : body.Gives depth ctx (env.inBody params values) o) :
    (Expr.call name args).Gives (depth + 1) ctx env o :=
  gives_app_fn ((gives_var hf).mono hdepth) hname hargs hlength hbody

theorem apply_singleton_congr {ev : Evaluator} {fname : Option String} {f : Procedure}
    (hf : (Value.fn fname params body).procedure = .ok f)
    (h : ev (room.less 3) ctx env x = ev (room.less 3) ctx env y) :
    apply ev room ctx env f (.list [x]) = apply ev room ctx env f (.list [y]) := by
  rw [apply_fn fname params body [x] hf, apply_fn fname params body [y] hf]
  cases fname.bind Builtin.ofName? with
  | some b => cases b <;> simp [applyBuiltin, applyBuiltin.unary, h]
  | none =>
    simp only [applyFunction_fn fname params body _ hf, evalArgs, Room.less_less, Nat.reduceAdd, h]
    rfl

theorem gives_call_singleton {fname : Option String} (hdepth : 0 < depth)
    (hf : env.lookup name = some (.fn fname params body)) (hx : x.Gives depth ctx env (.ok v))
    (happly : (Expr.app (.lit (.fn fname params body)) [.lit v]).Gives (depth + 1) ctx env o) :
    (Expr.call name [x]).Gives (depth + 1) ctx env o := by
  intro limit room h
  obtain ⟨limit, rfl⟩ := h.exists_succ
  rw [← happly (limit + 1) room h]
  have hcallee := h.less (n := 2) (by omega)
  rw [Expr.call,
    quiet_eval_app (h.has (by omega)) rfl ((gives_var hf).mono hdepth limit _ hcallee),
    quiet_eval_app (h.has (by omega)) rfl ((gives_lit _).mono hdepth limit _ hcallee)]
  have hargs := h.less (n := 4) (by omega)
  refine apply_singleton_congr rfl ?_
  rw [Room.less_less, hx.eval_quiet hargs, ((gives_lit v).mono hdepth).eval_quiet hargs]

end Functions

end ForkJoin

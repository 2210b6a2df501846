import ForkJoin.Proofs.Matching
import Mathlib.Logic.Function.Conjugate

/-!
# Comparisons of ground values

A value is ground when it holds neither a function nor a future, so it is made of integers and truth
values. Where there is room enough two ground values can be compared, and what is put in the place
of futures, spawns and syncs is no matter to them, since they have none.

`evalComparing` evaluates with some comparison in the place of equality; with equality it is `eval`.
With a comparison that refuses all values but ground ones it does the same as `eval` until it comes
to a comparison of others (`Matching.evaluators_evalComparing`). So it tells whether an evaluation
compares ground values only.
-/

namespace ForkJoin

mutual

def Value.isGround : Value → Bool
  | .int _ | .bool _ => true
  | .vec items => Value.allGround items
  | .fn _ _ _ | .future _ | .foreign _ => false

def Value.allGround : List Value → Bool
  | [] => true
  | v :: vs => v.isGround && Value.allGround vs

end

mutual

theorem Value.rewrite_of_isGround (σ : Rewriting) :
    ∀ {v : Value}, v.isGround → v.rewrite σ = v
  | .int _, _ | .bool _, _ | .foreign _, _ => rfl
  | .vec _, h => congrArg Value.vec (Value.rewriteAll_of_allGround σ h)
  | .fn _ _ _, h | .future _, h => absurd h Bool.false_ne_true

theorem Value.rewriteAll_of_allGround (σ : Rewriting) :
    ∀ {vs : List Value}, Value.allGround vs → Value.rewriteAll σ vs = vs
  | [], _ => rfl
  | v :: vs, h => by
    obtain ⟨hv, hvs⟩ := Bool.and_eq_true_iff.1 h
    rw [Value.rewriteAll, Value.rewrite_of_isGround σ hv, Value.rewriteAll_of_allGround σ hvs]

end

/-! ### Comparisons where there is room enough -/

/-- A comparison comes to an answer where there is room enough, and to no other one elsewhere. -/
structure Decides (p : Room → Except Fault Bool) (b : Bool) : Prop where
  enough : ∃ n, ∀ room : Room, room.has n → p room = .ok b
  only : ∀ room b', p room = .ok b' → b' = b

namespace Decides

variable {p q : Room → Except Fault Bool} {b : Bool}

theorem ok (b : Bool) : Decides (fun _ => .ok b) b where
  enough := ⟨0, fun _ _ => rfl⟩
  only _ _ h := (Except.ok.inj h).symm

theorem less (h : Decides p b) (k : Nat) : Decides (fun room => p (room.less k)) b where
  enough := by
    obtain ⟨n, hn⟩ := h.enough
    exact ⟨n + k, fun room hroom => hn _ (Room.has_less hroom)⟩
  only room := h.only (room.less k)

theorem need (h : Decides p b) (k : Nat) : Decides (fun room => room.need k (p room)) b where
  enough := by
    obtain ⟨n, hn⟩ := h.enough
    refine ⟨max n k, fun room hroom => ?_⟩
    rw [Room.need_of_has (Room.has_of_le hroom (Nat.le_max_right n k))]
    exact hn room (Room.has_of_le hroom (Nat.le_max_left n k))
  only room b' hb' := by
    unfold Room.need at hb'
    split at hb'
    · exact h.only room b' hb'
    · cases hb'

theorem both {b' : Bool} (hp : Decides p b) (hq : Decides q b') :
    Decides (fun room => bothEqual (p room) (q room)) (b && b') where
  enough := by
    obtain ⟨m, hm⟩ := hp.enough
    obtain ⟨n, hn⟩ := hq.enough
    refine ⟨max m n, fun room hroom => ?_⟩
    rw [hm room (Room.has_of_le hroom (Nat.le_max_left m n)),
      hn room (Room.has_of_le hroom (Nat.le_max_right m n))]
    cases b <;> rfl
  only room answer h := by
    cases hfirst : p room with
    | error f =>
      rw [hfirst] at h
      cases h
    | ok first =>
      cases hp.only room first hfirst
      rw [hfirst] at h
      cases b with
      | false => exact (Except.ok.inj h).symm
      | true => exact hq.only room answer h

end Decides

mutual

theorem Value.exists_decides_equal : ∀ {v w : Value}, v.isGround → w.isGround →
    ∃ b, Decides (fun room => v.equal room w) b
  | .fn _ _ _, _, hv, _ | .future _, _, hv, _ | .foreign _, _, hv, _ =>
    absurd hv Bool.false_ne_true
  | .int m, w, _, hw => by
    cases w with
    | int n => exact ⟨m == n, (Decides.ok _).need 2⟩
    | bool | vec => exact ⟨false, (Decides.ok _).need 2⟩
    | fn | future | foreign => cases hw
  | .bool a, w, _, hw => by
    cases w with
    | bool b => exact ⟨a == b, (Decides.ok _).need 2⟩
    | int | vec => exact ⟨false, (Decides.ok _).need 2⟩
    | fn | future | foreign => cases hw
  | .vec vs, w, hv, hw => by
    cases w with
    | vec ws =>
      by_cases hlength : vs.length = ws.length
      · obtain ⟨b, hb⟩ := Value.exists_decides_equalItems hv hw
        refine ⟨b, ?_⟩
        simp only [Value.equal, hlength, if_true]
        exact ((hb.less 3).need 3).need 2
      · refine ⟨false, ?_⟩
        simp only [Value.equal, hlength, if_false]
        exact (Decides.ok false).need 2
    | int | bool => exact ⟨false, (Decides.ok _).need 2⟩
    | fn | future | foreign => cases hw

theorem Value.exists_decides_equalItems : ∀ {vs ws : List Value},
    Value.allGround vs → Value.allGround ws →
    ∃ b, Decides (fun room => Value.equalItems room vs ws) b
  | [], ws, _, _ => ⟨ws.isEmpty, .ok _⟩
  | _ :: _, [], _, _ => ⟨false, .ok _⟩
  | _ :: _, _ :: _, hvs, hws => by
    obtain ⟨hv, hvs⟩ := Bool.and_eq_true_iff.1 hvs
    obtain ⟨hw, hws⟩ := Bool.and_eq_true_iff.1 hws
    obtain ⟨b, hb⟩ := Value.exists_decides_equal hv hw
    obtain ⟨b', hb'⟩ := Value.exists_decides_equalItems hvs hws
    exact ⟨b && b', hb.both hb'⟩

end

/-! ### Evaluation with another comparison -/

abbrev Comparison := Room → Value → Value → Except Fault Bool

section

variable (compare : Comparison) (ev : Evaluator) (room : Room) (ctx : Context) (env : Env)

def applyBuiltinComparing (b : Builtin) (args : List Expr) : Prog Work Result :=
  match b, args with
  | .eq, [x, y] => applyBuiltin.binary ev room ctx env x y fun v w =>
    Failure.ofFault (return .bool (← compare (room.less 1) v w))
  | b, args => applyBuiltin ev room ctx env b args

def callBuiltinComparing (b : Builtin) (args : Args) : Prog Work Result :=
  match args with
  | .list items => applyBuiltinComparing compare ev (room.less 1) ctx env b items
  | args => do
    let got ← Prog.ofPart args.count
    if got = b.arity && b.isPositional then .abort (.missingKey (.int 0))
    else applyBuiltinComparing compare ev (room.less 1) ctx env b args.items

def applyComparing (f : Procedure) (args : Args) : Prog Work Result := do
  let name ← Prog.ofPart f.name
  match ← Prog.ofPart (Builtin.ofFunctionName name) with
  | some b =>
    ctx.trace ("Builtin: " ++ b.name)
    callBuiltinComparing compare ev (room.less 1) ctx env b args
  | none => applyFunction ev (room.less 1) ctx env f args

/-- Evaluates one node, with a comparison in the place of equality. Only applications can come to
one. -/
def evalNodeComparing : Evaluator := fun room ctx env e =>
  match e.node with
  | .ok (.app callee args) => do
    ctx.trace "Evaluating: APPLICATION"
    let f ← evalPart ev (room.less 2) ctx env callee
    if f.value.hasType "Function" then
      let procedure ← Prog.ofPart f.value.procedure
      applyComparing compare ev (room.less 1) ctx f.env procedure (← Prog.ofPart args)
    else .raise (.notCallable f.value.typeName)
  | _ => evalNode ev room ctx env e

end

def evalComparing (compare : Comparison) (limit : Nat) : Evaluator :=
  match limit with
  | 0 => fun _ _ _ _ => .abort .stackExhausted
  | limit + 1 => fun room ctx env e =>
    if room.has 2 then evalNodeComparing compare (evalComparing compare limit) room ctx env e
    else .abort .stackExhausted

section

variable {ev : Evaluator} {room : Room} {ctx : Context} {env : Env}

theorem applyBuiltinComparing_eq (compare : Comparison) (x y : Expr) :
    applyBuiltinComparing compare ev room ctx env .eq [x, y] =
      applyBuiltin.binary ev room ctx env x y fun v w =>
        Failure.ofFault (return .bool (← compare (room.less 1) v w)) := rfl

theorem applyBuiltinComparing_of_ne (compare : Comparison) {b : Builtin} {args : List Expr}
    (h : b ≠ .eq ∨ args.length ≠ 2) :
    applyBuiltinComparing compare ev room ctx env b args =
      applyBuiltin ev room ctx env b args := by
  unfold applyBuiltinComparing
  split
  case h_1 => simp at h
  case h_2 => rfl

theorem applyBuiltinComparing_equal (b : Builtin) (args : List Expr) :
    applyBuiltinComparing Value.equal ev room ctx env b args =
      applyBuiltin ev room ctx env b args := by
  unfold applyBuiltinComparing
  split <;> rfl

theorem callBuiltinComparing_equal (b : Builtin) (args : Args) :
    callBuiltinComparing Value.equal ev room ctx env b args =
      callBuiltin ev room ctx env b args := by
  cases args with
  | list items => exact applyBuiltinComparing_equal b items
  | _ =>
    simp only [callBuiltinComparing, applyBuiltinComparing_equal]
    rfl

theorem applyComparing_equal (f : Procedure) (args : Args) :
    applyComparing Value.equal ev room ctx env f args = apply ev room ctx env f args := by
  simp only [applyComparing, callBuiltinComparing_equal]
  rfl

theorem evalNodeComparing_app (compare : Comparison) (callee : Expr) (args : List Expr) :
    evalNodeComparing compare ev room ctx env (.app callee args) =
      (do
        ctx.trace "Evaluating: APPLICATION"
        let f ← ev (room.less 2) ctx env callee
        if f.value.hasType "Function" then
          applyComparing compare ev (room.less 1) ctx f.env (← Prog.ofPart f.value.procedure)
            (.list args)
        else .raise (.notCallable f.value.typeName)) := rfl

theorem applyComparing_fn (compare : Comparison) (name : Option String) (params : List String)
    (body : Expr) (args : List Expr) {f : Procedure}
    (hf : (Value.fn name params body).procedure = .ok f) :
    applyComparing compare ev room ctx env f (.list args) =
      match name.bind Builtin.ofName? with
      | some b => (do
          ctx.trace ("Builtin: " ++ b.name)
          applyBuiltinComparing compare ev ((room.less 1).less 1) ctx env b args)
      | none => applyFunction ev (room.less 1) ctx env f (.list args) := by
  have hname : f.name = .ok (.ofText? name) := by
    cases hf
    rfl
  simp only [applyComparing, hname, Prog.ofPart_ok_bind, ofFunctionName_ofText?]
  rfl

theorem evalNodeComparing_equal (e : Expr) :
    evalNodeComparing Value.equal ev room ctx env e = evalNode ev room ctx env e := by
  unfold evalNodeComparing
  split
  case h_1 callee args hnode =>
    simp only [applyComparing_equal, evalNode, hnode]
    rfl
  case h_2 => rfl

theorem evalComparing_equal (limit : Nat) : evalComparing Value.equal limit = eval limit := by
  induction limit with
  | zero => rfl
  | succ limit ih =>
    funext room ctx env e
    simp only [evalComparing, eval, evalNodeComparing_equal, ih]

end

/-! ### Refused comparisons -/

/-- Equality of ground values. Others are refused. -/
def Value.equalGround : Comparison := fun room v w =>
  if v.isGround && w.isGround then v.equal room w else .error (.refused [])

/-- A comparison that is not refused has the same answer where there is room enough, whatever is put
in the place of futures. -/
theorem Value.equal_of_equalGround (σ : Rewriting) {room : Room} {v w : Value} {b : Bool}
    (h : Value.equalGround room v w = .ok b) :
    ∃ n, ∀ room : Room, room.has n → (v.rewrite σ).equal room (w.rewrite σ) = .ok b := by
  unfold Value.equalGround at h
  split at h
  case isTrue hground =>
    obtain ⟨hv, hw⟩ := Bool.and_eq_true_iff.1 hground
    obtain ⟨b', hb'⟩ := Value.exists_decides_equal hv hw
    cases hb'.only room b h
    rw [Value.rewrite_of_isGround σ hv, Value.rewrite_of_isGround σ hw]
    exact hb'.enough
  case isFalse => cases h

def refusal : Failure :=
  .fault (.refused [])

def Matching.refusing : Matching where
  thread := id
  cell := id
  cell_task := Function.Semiconj.id_right
  failure e e' := e' = e
  failure_raised _ _ := rfl
  stops e := e = refusal

namespace Matching

open Prog (Matches)

variable {ev ev' : Evaluator} {room : Room} {ctx ctx' : Context} {env : Env}

theorem matches_compare (hev : refusing.Evaluators ev ev') (hctx : ctx.Alike ctx') {x y : Expr}
    (henv : env.WellFormed) (hx : x.WellFormed) (hy : y.WellFormed) :
    Matches refusing refusing.Results
      (applyBuiltinComparing Value.equalGround ev room ctx env .eq [x, y])
      (applyBuiltin ev' room ctx' (refusing.env env) .eq [refusing.expr x, refusing.expr y]) := by
  refine hev.bind hctx henv hx fun r hvalue henv => ?_
  refine hev.bind hctx henv hy fun s hvalue' henv' => ?_
  by_cases hground : (r.value.isGround && s.value.isGround) = true
  · simp only [Value.equalGround, hground, if_true]
    exact Matches.answer (answers_equal _ hvalue hvalue') fun v hv =>
      .done (Results.of (r := ⟨v, s.env⟩) hv henv')
  · simp only [Value.equalGround, hground]
    exact .stop rfl

theorem matches_applyBuiltinComparing (hev : refusing.Evaluators ev ev') (hctx : ctx.Alike ctx')
    (b : Builtin) {args : List Expr} (henv : env.WellFormed)
    (hargs : ∀ arg ∈ args, arg.WellFormed) :
    Matches refusing refusing.Results
      (applyBuiltinComparing Value.equalGround ev room ctx env b args)
      (applyBuiltin ev' room ctx' (refusing.env env) b (args.map refusing.expr)) := by
  by_cases hcompares : b ≠ .eq ∨ args.length ≠ 2
  · rw [applyBuiltinComparing_of_ne _ hcompares]
    exact matches_applyBuiltin hev hctx b henv hargs
  · obtain ⟨rfl, hlength⟩ : b = .eq ∧ args.length = 2 := by simpa using hcompares
    obtain ⟨x, y, rfl⟩ := List.length_eq_two.1 hlength
    simp only [List.forall_mem_cons] at hargs
    exact matches_compare hev hctx henv hargs.1 hargs.2.1

theorem matches_applyComparing (hev : refusing.Evaluators ev ev') (hctx : ctx.Alike ctx')
    {name : Option String} {params : List String} {body : Expr} {args : List Expr}
    {f f' : Procedure} (hf : (Value.fn name params body).procedure = .ok f)
    (hf' : (Value.fn name params (refusing.expr body)).procedure = .ok f') (henv : env.WellFormed)
    (hbody : body.WellFormed) (hargs : ∀ arg ∈ args, arg.WellFormed) :
    Matches refusing refusing.Results
      (applyComparing Value.equalGround ev room ctx env f (.list args))
      (apply ev' room ctx' (refusing.env env) f' (.list (args.map refusing.expr))) := by
  rw [applyComparing_fn _ name params body args hf, apply_fn name params (refusing.expr body) _ hf']
  cases name.bind Builtin.ofName? with
  | some b => exact Matches.trace hctx (matches_applyBuiltinComparing hev hctx b henv hargs)
  | none => exact matches_applyFunction hev hctx hf hf' henv hbody hargs

theorem evaluators_evalNodeComparing (hev : refusing.Evaluators ev ev') :
    refusing.Evaluators (evalNodeComparing Value.equalGround ev) (evalNode ev') := by
  intro room ctx ctx' env e hctx henv he
  cases e with
  | foreign d => exact he.elim
  | app callee args =>
    obtain ⟨hcallee, hargs⟩ := (Expr.wellFormed_app callee args).1 he
    rw [evalNodeComparing_app, expr, Expr.rewrite_app, evalNode_app]
    refine Matches.trace hctx (hev.bind hctx henv hcallee fun f hvalue henv => ?_)
    exact matches_function hvalue fun hf hf' hbody =>
      matches_applyComparing hev hctx hf hf' henv hbody hargs
  | _ => exact evaluators_evalNode hev room ctx ctx' env _ hctx henv he

/-- An evaluation that refuses to compare values that are not ground does the same as one that does
not, until it comes to such values. -/
theorem evaluators_evalComparing (limit : Nat) :
    refusing.Evaluators (evalComparing Value.equalGround limit) (eval limit) := by
  induction limit with
  | zero => exact fun _ _ _ _ _ _ _ _ => .fail rfl
  | succ limit ih =>
    intro room ctx ctx' env e hctx henv he
    unfold evalComparing eval
    split
    · exact evaluators_evalNodeComparing ih room ctx ctx' env e hctx henv he
    · exact .fail rfl

end Matching

end ForkJoin

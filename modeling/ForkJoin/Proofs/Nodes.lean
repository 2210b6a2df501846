import ForkJoin.Eval

/-!
# What the evaluator does with a tree of the language

The evaluator takes a node apart without knowing whether it has its parts. In a tree of the language
it has them all, and so has a function, whose name says at once whether it is a builtin. Here is
what is then left of the evaluator, node by node.
-/

namespace ForkJoin

namespace Room

variable {room : Room} {m n : Nat}

theorem has_of_le (h : room.has n) (hle : m ≤ n) : room.has m := by
  cases room with
  | none => rfl
  | some left => exact decide_eq_true (Nat.le_trans hle (of_decide_eq_true h))

theorem has_less (h : room.has (n + m)) : (room.less m).has n := by
  cases room with
  | none => rfl
  | some left => exact decide_eq_true (Nat.le_sub_of_add_le (of_decide_eq_true h))

theorem has_of_less (h : (room.less m).has n) : room.has n := by
  cases room with
  | none => rfl
  | some left => exact decide_eq_true (Nat.le_trans (of_decide_eq_true h) (Nat.sub_le left m))

theorem need_of_has {α : Type} (h : room.has n) (a : Except Fault α) : room.need n a = a :=
  if_pos h

end Room

namespace Prog

variable {ω α β : Type}

theorem ofPart_ok_bind (a : α) (k : α → Prog ω β) : (ofPart (.ok a) >>= k) = k a := rfl

theorem raise_bind (e : LanguageError) (k : α → Prog ω β) :
    (raise e >>= k) = raise e := rfl

/-- A program prints some lines and goes on as another one. -/
inductive Leads : Prog ω α → Prog ω α → Prop
  | here (p : Prog ω α) : Leads p p
  | emit {line : String} {p q : Prog ω α} (h : Leads p q) : Leads (.emit line p) q

theorem Leads.bind {p q : Prog ω α} (h : p.Leads q) (f : α → Prog ω β) :
    (p >>= f).Leads (q >>= f) := by
  induction h with
  | here p => exact .here _
  | emit h ih => exact .emit ih

theorem leads_trace {ctx : Context} {message : String} {f : Unit → Prog ω α} {q : Prog ω α}
    (h : (f ()).Leads q) : (ctx.trace message >>= f).Leads q := by
  unfold Context.trace
  split
  · exact .emit h
  · exact h

end Prog

variable {ev : Evaluator} {room : Room} {ctx : Context} {env : Env}

/-! ### Nodes -/

theorem eval_succ (limit : Nat) {room : Room} (hroom : room.has 2) (ctx : Context) (env : Env)
    (e : Expr) : eval (limit + 1) room ctx env e = evalNode (eval limit) room ctx env e :=
  if_pos hroom

theorem eval_of_not_has {limit : Nat} (hroom : ¬room.has 2) (e : Expr) :
    eval limit room ctx env e = .abort .stackExhausted := by
  cases limit with
  | zero => rfl
  | succ limit => exact if_neg hroom

theorem evalNode_lit (v : Value) :
    evalNode ev room ctx env (.lit v) =
      (do ctx.trace "Evaluating: LITERAL"; return ⟨v, env⟩) := rfl

theorem evalNode_var (name : String) :
    evalNode ev room ctx env (.var name) =
      (do
        ctx.trace "Evaluating: VARIABLE"
        match env.lookup name with
        | some v => return ⟨v, env⟩
        | none => .raise (.undefinedVariable name)) := rfl

theorem evalNode_app (callee : Expr) (args : List Expr) :
    evalNode ev room ctx env (.app callee args) =
      (do
        ctx.trace "Evaluating: APPLICATION"
        let f ← ev (room.less 2) ctx env callee
        if f.value.hasType "Function" then
          apply ev (room.less 1) ctx f.env (← Prog.ofPart f.value.procedure) (.list args)
        else .raise (.notCallable f.value.typeName)) := rfl

theorem evalNode_letIn (name : String) (value body : Expr) :
    evalNode ev room ctx env (.letIn name value body) =
      (do
        ctx.trace "Evaluating: LET"
        let bound ← ev (room.less 2) ctx env value
        let result ← ev (room.less 2) ctx (bound.env.bind name bound.value) body
        return ⟨result.value, if ctx.scopedLet then bound.env else result.env⟩) := rfl

theorem evalNode_cond (test yes no : Expr) :
    evalNode ev room ctx env (.cond test yes no) =
      (do
        ctx.trace "Evaluating: IF"
        let r ← ev (room.less 2) ctx env test
        let b ← Prog.ofExcept (expectCondition .null r.value)
        ev (room.less 2) ctx r.env (if b then yes else no)) := by
  have hpart : ∀ (r : Result) (b : Bool),
      evalPart ev (room.less 2) ctx r.env (if b then .ok yes else .ok no) =
        ev (room.less 2) ctx r.env (if b then yes else no) := by
    intro r b
    cases b <;> rfl
  rw [← funext fun r => congrArg _ (funext (hpart r))]
  rfl

theorem evalNode_spawn (body : Expr) :
    evalNode ev room ctx env (.spawn body) =
      (do
        ctx.trace "Evaluating: SPAWN"
        let id ← Prog.spawn ⟨body, env, ctx⟩ .done
        if ctx.debug then Prog.emit ("Spawned task " ++ id.label) (.done ())
        return ⟨.future (.task id), env⟩) := rfl

theorem evalNode_sync (body : Expr) :
    evalNode ev room ctx env (.sync body) =
      (do
        ctx.trace "Evaluating: SYNC"
        let r ← ev (room.less 2) ctx env body
        let v ← syncValue r.value
        return ⟨v, r.env⟩) := rfl

theorem ofFunctionName_ofText? (name : Option String) :
    Builtin.ofFunctionName (.ofText? name) = .ok (name.bind Builtin.ofName?) := by
  cases name <;> rfl

theorem applyFunction_fn (name : Option String) (params : List String) (body : Expr)
    (args : List Expr) {f : Procedure} (hf : (Value.fn name params body).procedure = .ok f) :
    applyFunction ev room ctx env f (.list args) =
      if args.length = params.length then (do
        let (values, callerEnv) ← evalArgs ev (room.less 1) ctx env args
        ctx.trace ("Calling: " ++ (Datum.ofText? name).display)
        let result ← ev (room.less 1) ctx
          (env.extend (.ofList ((params.map .text).zip values))) body
        return ⟨result.value, callerEnv⟩)
      else .raise (.arityMismatch (nameOr "<anonymous>" (.ofText? name)) (.int params.length)
        (.int args.length)) := by
  cases hf
  have hcheck := checkArity_int (nameOr "<anonymous>" (.ofText? name)) params.length args.length
  by_cases hlength : args.length = params.length
  · rw [if_pos hlength] at hcheck ⊢
    simp only [applyFunction, prepareCall, Args.count, Prog.ofPart_ok_bind, hcheck, bind_assoc]
    rfl
  · rw [if_neg hlength] at hcheck ⊢
    simp only [applyFunction, prepareCall, Args.count, Prog.ofPart_ok_bind, hcheck,
      Prog.raise_bind]

theorem apply_fn (name : Option String) (params : List String) (body : Expr) (args : List Expr)
    {f : Procedure} (hf : (Value.fn name params body).procedure = .ok f) :
    apply ev room ctx env f (.list args) =
      match name.bind Builtin.ofName? with
      | some b => (do
          ctx.trace ("Builtin: " ++ b.name)
          applyBuiltin ev ((room.less 1).less 1) ctx env b args)
      | none => applyFunction ev (room.less 1) ctx env f (.list args) := by
  have hname : f.name = .ok (.ofText? name) := by
    cases hf
    rfl
  simp only [apply, hname, Prog.ofPart_ok_bind, ofFunctionName_ofText?]
  rfl

theorem applyBuiltin_eq (x y : Expr) :
    applyBuiltin ev room ctx env .eq [x, y] =
      applyBuiltin.binary ev room ctx env x y fun v w =>
        Failure.ofFault (return .bool (← v.equal (room.less 1) w)) := rfl

theorem applyBuiltin_cons (x y : Expr) :
    applyBuiltin ev room ctx env .cons [x, y] =
      applyBuiltin.binary ev room ctx env x y fun v w =>
        (do Failure.ofFault ((← expectVector "cons" 2 w).pushFront v)) := rfl

/-- A builtin that is given another number of arguments than it takes evaluates none of them. -/
theorem applyBuiltin_of_length_ne {b : Builtin} {args : List Expr} (h : args.length ≠ b.arity) :
    applyBuiltin ev room ctx env b args =
      .raise (.arityMismatch b.name (.int b.arity) (.int args.length)) := by
  unfold applyBuiltin
  split
  case h_8 => rfl
  all_goals exact absurd rfl h

end ForkJoin

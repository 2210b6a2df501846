import ForkJoin.Proofs.Calls

/-!
# Conditionals

A conditional can be written as a node and as a call of the function that is bound to `if`. The two
are taken apart by different rules: a call evaluates its callee, finds the builtin by the name of
the function and counts its arguments. What is left after the lines that they print is one program,
`conditional`, in which only the refusal of a condition tells them apart (`leads_cond`,
`leads_call_if`).

The name is looked up before the condition is evaluated, so a condition that binds `if` to something
else changes nothing here.
-/

namespace ForkJoin

structure Value.Named (f : Value) (name : Datum) : Prop where
  type : f.hasType "Function"
  procedure : ∃ p, f.procedure = .ok p ∧ p.name = .ok name

theorem Value.named_fn (name : Option String) (params : List String) (body : Expr) :
    (fn name params body).Named (.ofText? name) :=
  ⟨rfl, _, rfl, rfl⟩

theorem Builtin.named_placeholder (b : Builtin) : b.placeholder.Named (.text b.name) :=
  Value.named_fn (some b.name) _ _

def Value.truth : Value → Except Failure Bool
  | .bool b => .ok b
  | v => Failure.ofFault (return (← v.payload).isTruthy)

/-- A condition is refused by its type alone, and who refuses it is told in the error only. -/
theorem expectCondition_eq (function : Datum) (v : Value) :
    expectCondition function v =
      if v.hasType "Boolean" then v.truth
      else .error (.language
        (.typeMismatch "condition must be boolean" function "Boolean" v.typeName)) := by
  cases v <;> rfl

/-! ### The two forms -/

/-- What a conditional does in either form: it evaluates the condition, and in the environment that
the condition leaves the branch that it chooses, and only that one. It ends with the result of the
branch, or with the value of the condition if that is no truth value. -/
def conditional (limit : Nat) (room : Room) (ctx : Context) (env : Env) (test yes no : Expr) :
    Prog Work (Result ⊕ Value) :=
  match limit with
  | 0 => .abort .stackExhausted
  | limit + 1 =>
    if room.has 2 then do
      let r ← eval limit (room.less 2) ctx env test
      if r.value.hasType "Boolean" then
        let b ← Prog.ofExcept r.value.truth
        return .inl (← eval limit (room.less 2) ctx r.env (if b then yes else no))
      else return .inr r.value
    else .abort .stackExhausted

/-- Refuses the value of a condition that is no truth value, under the name of a function or
none. -/
def refuse (function : Datum) : Result ⊕ Value → Prog Work Result
  | .inl r => return r
  | .inr v => .raise (.typeMismatch "condition must be boolean" function "Boolean" v.typeName)

section

variable {limit : Nat} {room : Room} {ctx : Context} {env : Env} {test yes no : Expr}

theorem conditional_succ_bind_refuse (hroom : room.has 2) (function : Datum) :
    conditional (limit + 1) room ctx env test yes no >>= refuse function = (do
      let r ← eval limit (room.less 2) ctx env test
      let b ← Prog.ofExcept (expectCondition function r.value)
      eval limit (room.less 2) ctx r.env (if b then yes else no)) := by
  rw [conditional, if_pos hroom, bind_assoc]
  refine bind_congr fun r => ?_
  rw [expectCondition_eq]
  split
  · rw [bind_assoc]
    exact bind_congr fun b => (bind_assoc _ _ _).trans (bind_pure _)
  · rfl

theorem conditional_of_not_has (hroom : ¬room.has 2) :
    conditional limit room ctx env test yes no = .abort .stackExhausted := by
  cases limit with
  | zero => rfl
  | succ limit => exact if_neg hroom

theorem leads_cond : (eval limit room ctx env (.cond test yes no)).Leads
    (conditional limit room ctx env test yes no >>= refuse .null) := by
  by_cases hroom : room.has 2
  · cases limit with
    | zero => exact .here _
    | succ limit =>
      rw [eval_succ limit hroom, evalNode_cond, conditional_succ_bind_refuse hroom]
      exact Prog.leads_trace (.here _)
  · rw [conditional_of_not_has hroom, eval_of_not_has hroom]
    exact .here _

theorem leads_apply_if {p : Procedure} (hname : p.name = .ok "if") (hroom : (room.less 1).has 2) :
    (apply (eval limit) room ctx env p (.list [test, yes, no])).Leads
      (conditional (limit + 1) (room.less 1) ctx env test yes no >>= refuse "if") := by
  have hbuiltin : Builtin.ofFunctionName "if" = .ok (some .choose) := rfl
  rw [conditional_succ_bind_refuse hroom]
  simp only [apply, hname, hbuiltin, Prog.ofPart_ok_bind]
  refine Prog.leads_trace ?_
  simp only [callBuiltin, applyBuiltin, Room.less_less]
  exact .here _

/-- The callee takes two entries more of the stack, and as many levels of the limit as the
condition. -/
theorem leads_call_if {f : Value} (hlookup : env.lookup (.text "if") = some f)
    (hf : f.Named "if") : (eval limit room ctx env (.call "if" [test, yes, no])).Leads
      (conditional limit (room.less 2) ctx env test yes no >>= refuse "if") := by
  obtain ⟨htype, p, hp, hname⟩ := hf
  by_cases hcallee : (room.less 2).has 2
  · have hroom := Room.has_of_less hcallee
    cases limit with
    | zero => exact .here _
    | succ limit =>
      rw [Expr.call, eval_succ limit hroom, evalNode_app]
      refine Prog.leads_trace ?_
      cases limit with
      | zero =>
        rw [conditional_succ_bind_refuse hcallee]
        exact .here _
      | succ limit =>
        rw [eval_succ limit hcallee, evalNode_var, hlookup, bind_assoc]
        refine Prog.leads_trace ?_
        have happly : (apply (eval (limit + 1)) (room.less 1) ctx env p
            (.list [test, yes, no])).Leads _ := leads_apply_if hname (by rwa [Room.less_less])
        rw [Room.less_less] at happly
        simpa only [pure_bind, htype, if_true, hp, Prog.ofPart_ok_bind] using happly
  · rw [conditional_of_not_has hcallee]
    by_cases hroom : room.has 2
    · cases limit with
      | zero => exact .here _
      | succ limit =>
        rw [Expr.call, eval_succ limit hroom, evalNode_app, eval_of_not_has hcallee]
        exact Prog.leads_trace (.here _)
    · rw [eval_of_not_has hroom]
      exact .here _

end

/-- A conditional is the same as a node and as a call where the name `if` means a function of that
name: however deep evaluations may nest, either form prints some lines and goes on as `conditional`,
and a condition that is no truth value is refused by the node under no name and by the builtin under
its own. Where the stack is counted the call needs two entries more. -/
theorem node_and_call_lead_to_conditional (limit : Nat) (room : Room) (ctx : Context) {env : Env}
    {f : Value} (hlookup : env.lookup (.text "if") = some f) (hf : f.Named "if")
    (test yes no : Expr) :
    (eval limit room ctx env (.cond test yes no)).Leads
        (conditional limit room ctx env test yes no >>= refuse .null) ∧
      (eval limit room ctx env (.call "if" [test, yes, no])).Leads
        (conditional limit (room.less 2) ctx env test yes no >>= refuse "if") :=
  ⟨leads_cond, leads_call_if hlookup hf⟩

/-- The condition binds `if` to a number, and the branch that it chooses returns it. -/
theorem node_and_call_lead_to_conditional_of_rebinding :
    let test : Expr := .letIn "if" (.lit (.int 1)) (.lit (.bool true))
    let env := Env.builtins
    (env.lookup (.text "if") = some Builtin.choose.placeholder ∧
        Builtin.choose.placeholder.Named "if") ∧
      ((eval 3 none {} env (.cond test (.var "if") (.spawn test))).Leads
          (conditional 3 none {} env test (.var "if") (.spawn test) >>= refuse .null) ∧
        (eval 3 none {} env (.call "if" [test, .var "if", .spawn test])).Leads
          (conditional 3 none {} env test (.var "if") (.spawn test) >>= refuse "if")) ∧
      conditional 3 none {} env test (.var "if") (.spawn test) =
        .done (.inl ⟨.int 1, env.bind (.text "if") (.int 1)⟩) :=
  ⟨⟨rfl, Builtin.choose.named_placeholder⟩,
    node_and_call_lead_to_conditional 3 none {} rfl Builtin.choose.named_placeholder _ _ _, rfl⟩

end ForkJoin

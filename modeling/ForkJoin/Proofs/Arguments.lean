import ForkJoin.Proofs.Calls
import ForkJoin.Proofs.Run.Ways
import Mathlib.Data.List.Induction

/-!
# Arguments in their order

Arguments are evaluated one after the other, so a list of them can be evaluated in two parts, the
second in the environment that the first ends with (`evalArgs_append`). From this follows what a
list does on its way: if it gives values, each argument has done its part; if it fails, there is a
first argument that fails, and it is the last one to do anything at all.

A builtin with two operands evaluates both before it looks at either. A failure of an operand
therefore comes before any that the operation would have found.
-/

namespace ForkJoin

variable {ev : Evaluator} {room : Room} {ctx : Context} {env last : Env} {xs ys : List Expr}
  {us : List Value} {way : List (Prog.Step Work)} {e : Failure}

theorem evalArgs_append (ev : Evaluator) (room : Room) (ctx : Context) (env : Env)
    (xs ys : List Expr) : evalArgs ev room ctx env (xs ++ ys) = (do
      let (vs, mid) ← evalArgs ev room ctx env xs
      let (ws, last) ← evalArgs ev room ctx mid ys
      return (vs ++ ws, last)) := by
  induction xs generalizing env with
  | nil => exact (bind_pure (evalArgs ev room ctx env ys)).symm
  | cons x xs ih => simp only [List.cons_append, evalArgs, ih, bind_assoc, pure_bind]

theorem performs_evalArgs_append_ok :
    (evalArgs ev room ctx env (xs ++ ys)).Performs way (.ok (us, last)) ↔
      ∃ vs mid ws front back, (evalArgs ev room ctx env xs).Performs front (.ok (vs, mid)) ∧
        (evalArgs ev room ctx mid ys).Performs back (.ok (ws, last)) ∧
        us = vs ++ ws ∧ way = front ++ back := by
  rw [evalArgs_append, Prog.performs_bind_ok]
  constructor
  · rintro ⟨⟨vs, mid⟩, front, back, hfront, hback, rfl⟩
    obtain ⟨second, hys, hresult⟩ := Prog.performs_bind_done_ok.1 hback
    cases hresult
    exact ⟨vs, mid, second.1, front, back, hfront, hys, rfl, rfl⟩
  · rintro ⟨vs, mid, ws, front, back, hfront, hback, rfl, rfl⟩
    exact ⟨(vs, mid), front, back, hfront, Prog.performs_bind_done_ok.2 ⟨_, hback, rfl⟩, rfl⟩

/-- A list in two parts fails if the first part does, and then the second one is not evaluated, or
if the first part gives values and the second one fails. -/
theorem performs_evalArgs_append_error :
    (evalArgs ev room ctx env (xs ++ ys)).Performs way (.error e) ↔
      (evalArgs ev room ctx env xs).Performs way (.error e) ∨
      ∃ vs mid front back, (evalArgs ev room ctx env xs).Performs front (.ok (vs, mid)) ∧
        (evalArgs ev room ctx mid ys).Performs back (.error e) ∧ way = front ++ back := by
  rw [evalArgs_append, Prog.performs_bind_error]
  refine or_congr_right ?_
  constructor
  · rintro ⟨⟨vs, mid⟩, front, back, hfront, hback, rfl⟩
    exact ⟨vs, mid, front, back, hfront, Prog.performs_bind_done_error.1 hback, rfl⟩
  · rintro ⟨vs, mid, front, back, hfront, hback, rfl⟩
    exact ⟨(vs, mid), front, back, hfront, Prog.performs_bind_done_error.2 hback, rfl⟩

theorem performs_evalArgs_singleton_error {arg : Expr} :
    (evalArgs ev room ctx env [arg]).Performs way (.error e) ↔
      (ev (room.less 1) ctx env arg).Performs way (.error e) :=
  Prog.performs_bind_done_error

/-- A list fails with the first argument that fails: those before it give values, and those after it
do nothing. -/
theorem performs_evalArgs_error {args : List Expr} :
    (evalArgs ev room ctx env args).Performs way (.error e) ↔
      ∃ before arg after vs mid front back, args = before ++ arg :: after ∧
        (evalArgs ev room ctx env before).Performs front (.ok (vs, mid)) ∧
        (ev (room.less 1) ctx mid arg).Performs back (.error e) ∧ way = front ++ back := by
  constructor
  · intro h
    induction args using List.reverseRecOn generalizing way with
    | nil => cases (Prog.performs_done.1 h).2
    | append_singleton args arg ih =>
      rcases performs_evalArgs_append_error.1 h with h | ⟨vs, mid, front, back, hfront, hback, rfl⟩
      · obtain ⟨before, arg', after, vs, mid, front, back, rfl, hfront, hback, rfl⟩ := ih h
        exact ⟨before, arg', after ++ [arg], vs, mid, front, back, by simp, hfront, hback, rfl⟩
      · exact ⟨args, arg, [], vs, mid, front, back, rfl, hfront,
          performs_evalArgs_singleton_error.1 hback, rfl⟩
  · rintro ⟨before, arg, after, vs, mid, front, back, rfl, hfront, hback, rfl⟩
    refine performs_evalArgs_append_error.2 (.inr ⟨vs, mid, front, back, hfront, ?_, rfl⟩)
    rw [← List.singleton_append]
    exact performs_evalArgs_append_error.2 (.inl (performs_evalArgs_singleton_error.2 hback))

/-- A thread that has failed in its arguments has spawned, claimed and printed what the arguments up
to the first that fails do on their way, and nothing else. -/
theorem System.Counted.evalArgs_error_of_run {stack : Stack} {s last : System} {id : ThreadId}
    {t t' : Thread} {ids : List ThreadId} {args : List Expr} {g : List Value × Env → Result}
    (hs : s.Counted) (ht : s.thread id = some t)
    (hrest : t.rest = (evalArgs ev room ctx env args >>= fun values => .done (g values)))
    (hrun : s.run stack ids = some last) (ht' : last.thread id = some t')
    (hfails : t'.rest = .fail e) (hdelivered : t'.delivered = none) :
    ∃ before arg after vs mid front back, args = before ++ arg :: after ∧
      (evalArgs ev room ctx env before).Performs front (.ok (vs, mid)) ∧
      (ev (room.less 1) ctx mid arg).Performs back (.error e) ∧
      s.actsBy stack id ids = (front ++ back).filterMap Prog.Step.act? ∧
      t'.printed = ((front ++ back).filterMap Prog.Step.line?).reverse ++ t.printed := by
  obtain ⟨way, hpasses, hacts, hprinted⟩ := hs.passes_of_run ht hrun ht' hdelivered
  rw [hrest, hfails] at hpasses
  have hargs : (evalArgs ev room ctx env args).Performs way (.error e) :=
    Prog.performs_bind_done_error.1 hpasses
  obtain ⟨before, arg, after, vs, mid, front, back, rfl, hfront, hback, rfl⟩ :=
    performs_evalArgs_error.1 hargs
  exact ⟨before, arg, after, vs, mid, front, back, rfl, hfront, hback, hacts, hprinted⟩

/-! ### Builtins with two operands -/

/-- What a builtin with two operands does with their values. -/
def Builtin.operation? (room : Room) : Builtin → Option (Value → Value → Except Failure Value)
  | .add => some (arithmetic .add "+")
  | .sub => some (arithmetic .sub "-")
  | .eq => some fun v w => Failure.ofFault (return .bool (← v.equal (room.less 1) w))
  | .cons => some fun v w => do Failure.ofFault ((← expectVector "cons" 2 w).pushFront v)
  | .choose | .head | .tail => none

theorem Builtin.isSome_operation?_iff {b : Builtin} :
    (b.operation? room).isSome ↔ b.arity = 2 := by
  cases b <;> simp [operation?, arity, params]

/-- Evaluates two operands, the left one first. -/
def evalOperands (ev : Evaluator) (room : Room) (ctx : Context) (env : Env) (x y : Expr) :
    Prog Work (Value × Result) := do
  let r ← ev room ctx env x
  let s ← ev room ctx r.env y
  return (r.value, s)

theorem evalArgs_pair (ev : Evaluator) (room : Room) (ctx : Context) (env : Env) (x y : Expr) :
    evalArgs ev room ctx env [x, y] = (evalOperands ev (room.less 1) ctx env x y >>=
      fun operands => .done ([operands.1, operands.2.value], operands.2.env)) := by
  simp only [evalArgs, evalOperands, bind_assoc, pure_bind]
  rfl

theorem applyBuiltin_of_operation? {b : Builtin} {f : Value → Value → Except Failure Value}
    (hf : b.operation? room = some f) (x y : Expr) :
    applyBuiltin ev room ctx env b [x, y] = (evalOperands ev (room.less 2) ctx env x y >>=
      fun operands => .ofExcept ((f operands.1 operands.2.value).map (⟨·, operands.2.env⟩))) := by
  have hbinary : applyBuiltin ev room ctx env b [x, y] =
      applyBuiltin.binary ev room ctx env x y f := by
    cases b <;> cases hf <;> rfl
  have hlast : ∀ (o : Except Failure Value) (last : Env),
      (Prog.ofExcept o >>= fun v => .done ⟨v, last⟩ : Prog Work Result) =
        .ofExcept (o.map (⟨·, last⟩)) := by
    rintro (_ | _) _ <;> rfl
  simp only [hbinary, applyBuiltin.binary, evalOperands, bind_assoc, pure_bind, ← hlast]
  rfl

/-- A builtin with two operands ends with what its operation makes of their values. If the operands
give none it fails as they do, whatever the operation asks for. -/
theorem performs_applyBuiltin {b : Builtin} {f : Value → Value → Except Failure Value}
    (hf : b.operation? room = some f) {x y : Expr} {o : Except Failure Result} :
    (applyBuiltin ev room ctx env b [x, y]).Performs way o ↔
      (∃ e, (evalArgs ev (room.less 1) ctx env [x, y]).Performs way (.error e) ∧ o = .error e) ∨
      ∃ v w last, (evalArgs ev (room.less 1) ctx env [x, y]).Performs way (.ok ([v, w], last)) ∧
        o = (f v w).map (⟨·, last⟩) := by
  rw [applyBuiltin_of_operation? hf, evalArgs_pair, Room.less_less, Prog.performs_bind]
  simp only [Prog.performs_bind_done_ok, Prog.performs_bind_done_error]
  refine or_congr_right ?_
  constructor
  · rintro ⟨⟨v, s⟩, front, back, h, hback, rfl⟩
    obtain ⟨rfl, rfl⟩ := Prog.performs_ofExcept.1 hback
    rw [List.append_nil]
    exact ⟨v, s.value, s.env, ⟨(v, s), h, rfl⟩, rfl⟩
  · rintro ⟨v, w, last, ⟨operands, h, hoperands⟩, rfl⟩
    cases hoperands
    exact ⟨operands, way, [], h, Prog.performs_ofExcept.2 ⟨rfl, rfl⟩, (List.append_nil way).symm⟩

/-! ### Arguments from left to right -/

/-- **Arguments are evaluated from left to right, and a list of them splits anywhere.** A list in
two parts is evaluated as the first part and then, in the environment that this ends with, the
second one. It gives values exactly if both do, and then those of the first before those of the
second. Otherwise it fails as the first argument does that fails; all that it has done then is what
the arguments before and this one do, and in a run all that its thread has spawned, claimed and
printed. A builtin with two operands ends with what its operation makes of their values; if an
operand fails the builtin fails as that does, whatever the operation would have found wrong with the
other. -/
theorem evalArgs_left_to_right (ev : Evaluator) (room : Room) (ctx : Context) (env : Env) :
    (∀ xs ys, evalArgs ev room ctx env (xs ++ ys) = (do
      let (vs, mid) ← evalArgs ev room ctx env xs
      let (ws, last) ← evalArgs ev room ctx mid ys
      return (vs ++ ws, last))) ∧
    (∀ xs ys way us last, (evalArgs ev room ctx env (xs ++ ys)).Performs way (.ok (us, last)) ↔
      ∃ vs mid ws front back, (evalArgs ev room ctx env xs).Performs front (.ok (vs, mid)) ∧
        (evalArgs ev room ctx mid ys).Performs back (.ok (ws, last)) ∧
        us = vs ++ ws ∧ way = front ++ back) ∧
    (∀ args way e, (evalArgs ev room ctx env args).Performs way (.error e) ↔
      ∃ before arg after vs mid front back, args = before ++ arg :: after ∧
        (evalArgs ev room ctx env before).Performs front (.ok (vs, mid)) ∧
        (ev (room.less 1) ctx mid arg).Performs back (.error e) ∧ way = front ++ back) ∧
    (∀ stack s id t ids last t' args e, ∀ g : List Value × Env → Result, System.Counted s →
      s.thread id = some t →
      t.rest = (evalArgs ev room ctx env args >>= fun values => .done (g values)) →
      s.run stack ids = some last → last.thread id = some t' →
      t'.rest = .fail e → t'.delivered = none →
      ∃ before arg after vs mid front back, args = before ++ arg :: after ∧
        (evalArgs ev room ctx env before).Performs front (.ok (vs, mid)) ∧
        (ev (room.less 1) ctx mid arg).Performs back (.error e) ∧
        s.actsBy stack id ids = (front ++ back).filterMap Prog.Step.act? ∧
        t'.printed = ((front ++ back).filterMap Prog.Step.line?).reverse ++ t.printed) ∧
    (∀ b f, b.operation? room = some f → ∀ x y way,
      (∀ o, (applyBuiltin ev room ctx env b [x, y]).Performs way o ↔
        (∃ e, (evalArgs ev (room.less 1) ctx env [x, y]).Performs way (.error e) ∧
          o = .error e) ∨
        ∃ v w last, (evalArgs ev (room.less 1) ctx env [x, y]).Performs way (.ok ([v, w], last)) ∧
          o = (f v w).map (⟨·, last⟩)) ∧
      ∀ e, (evalArgs ev (room.less 1) ctx env [x, y]).Performs way (.error e) →
        ∀ o, (applyBuiltin ev room ctx env b [x, y]).Performs way o ↔ o = .error e) := by
  refine ⟨evalArgs_append ev room ctx env, fun _ _ _ _ _ => performs_evalArgs_append_ok,
    fun _ _ _ => performs_evalArgs_error,
    fun _ _ _ _ _ _ _ _ _ _ hs ht hrest hrun ht' hfails hdelivered =>
      hs.evalArgs_error_of_run ht hrest hrun ht' hfails hdelivered,
    fun b f hf x y way => ⟨fun _ => performs_applyBuiltin hf, fun e h o => ?_⟩⟩
  have hfails := (performs_applyBuiltin hf).2 (.inl ⟨e, h, rfl⟩)
  exact ⟨fun ho => ho.unique hfails, fun ho => ho ▸ hfails⟩

/-- Of three arguments the second one is a name that means nothing. The list fails with it, and has
spawned the first task but not the other. The same name on the right of an addition is what the
addition fails with, although it would refuse the left operand whatever stands on the right. -/
theorem evalArgs_left_to_right_undefined :
    (∀ task, (evalArgs (eval 2) none {} ⟨[]⟩
      [.spawn (.lit (.int 1)), .var "x", .spawn (.lit (.int 2))]).Performs
        [.spawn task ⟨.lit (.int 1), ⟨[]⟩, {}⟩] (.error (.language (.undefinedVariable "x")))) ∧
    (∀ w, arithmetic .add "+" (.bool true) w =
      .error (.language (operandMismatch "+" "argument 1" "Integer" (.bool true)))) ∧
    ∀ o, (applyBuiltin (eval 2) none {} ⟨[]⟩ .add [.lit (.bool true), .var "x"]).Performs [] o ↔
      o = .error (.language (.undefinedVariable "x")) := by
  obtain ⟨-, -, herror, -, hbuiltin⟩ := evalArgs_left_to_right (eval 2) none {} ⟨[]⟩
  have hname : (eval 2 none {} ⟨[]⟩ (.var "x")).Performs []
      (.error (.language (.undefinedVariable "x"))) := .here _
  refine ⟨fun task => ?_, fun w => rfl, ?_⟩
  · have hspawn : (evalArgs (eval 2) none {} ⟨[]⟩ [.spawn (.lit (.int 1))]).Performs
        [.spawn task ⟨.lit (.int 1), ⟨[]⟩, {}⟩] (.ok ([.future (.task task)], ⟨[]⟩)) :=
      .spawn task (.here _)
    exact (herror _ _ _).2 ⟨_, _, [.spawn (.lit (.int 2))], _, _, _, [], rfl, hspawn, hname, rfl⟩
  · have hleft : (evalArgs (eval 2) none {} ⟨[]⟩ [.lit (.bool true)]).Performs []
        (.ok ([.bool true], ⟨[]⟩)) := .here _
    exact (hbuiltin .add _ rfl _ _ []).2 _
      ((herror _ _ _).2 ⟨_, _, [], _, _, [], [], rfl, hleft, hname, rfl⟩)

end ForkJoin

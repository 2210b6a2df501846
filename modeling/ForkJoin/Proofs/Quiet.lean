import ForkJoin.Proofs.Nodes

/-!
# Programs without their lines

What a program does besides printing. The lines are dropped, in the program and in the works that it
spawns, and what is left is compared with the program of the same expression without debug output:
they are equal (`quiets_eval`). So tracing is all that debug output adds to an evaluation, wherever
the lines stand between its other acts.

Dropping the lines is a homomorphism of programs (`quiet_bind`), so the equation for an evaluation
is put together from those for its parts. Nothing is asked of expressions and values.
-/

namespace ForkJoin

def Context.quiet (ctx : Context) : Context :=
  { ctx with debug := false }

def Work.quiet (work : Work) : Work :=
  { work with context := work.context.quiet }

/-- A program that does the same and prints nothing. -/
def Prog.quiet {α : Type} : Prog Work α → Prog Work α
  | .done a => .done a
  | .fail e => .fail e
  | .emit _ rest => rest.quiet
  | .spawn work rest => .spawn work.quiet fun id => (rest id).quiet
  | .claim x rest => .claim x rest.quiet
  | .await x rest => .await x fun v => (rest v).quiet

namespace Prog

variable {α β : Type}

@[simp] theorem quiet_bind (p : Prog Work α) (f : α → Prog Work β) :
    (p >>= f).quiet = p.quiet >>= fun a => (f a).quiet := by
  simp only [bind_eq]
  induction p with
  | done a => rfl
  | fail e => rfl
  | emit line rest ih => exact ih
  | spawn work rest ih => simp only [bind, quiet, ih]
  | claim x rest ih => simp only [bind, quiet, ih]
  | await x rest ih => simp only [bind, quiet, ih]

@[simp] theorem quiet_pure (a : α) : (pure a : Prog Work α).quiet = pure a := rfl

@[simp] theorem quiet_ofPart (a : Except Fault α) : (ofPart a).quiet = ofPart a := by
  cases a <;> rfl

@[simp] theorem quiet_ofExcept (a : Except Failure α) : (ofExcept a).quiet = ofExcept a := by
  cases a <;> rfl

theorem ended?_quiet {p : Prog Work α} {o : Except Failure α} :
    p.quiet.ended? = some o ↔ ∃ q, p.Leads q ∧ q.ended? = some o := by
  induction p with
  | emit line rest ih =>
    refine ih.trans ⟨fun ⟨q, hq, ho⟩ => ⟨q, .emit hq, ho⟩, ?_⟩
    rintro ⟨q, hq, ho⟩
    cases hq with
    | here => cases ho
    | emit hq => exact ⟨q, hq, ho⟩
  | done | fail | spawn | claim | await =>
    refine ⟨fun h => ⟨_, .here _, h⟩, ?_⟩
    rintro ⟨q, hq, ho⟩
    cases hq
    exact ho

end Prog

@[simp] theorem Context.quiet_trace (ctx : Context) (message : String) :
    (ctx.trace message).quiet = .done () := by
  unfold trace
  split <;> rfl

@[simp] theorem Context.trace_quiet (ctx : Context) (message : String) :
    (ctx.quiet.trace message : Prog Work Unit) = .done () := rfl

def Evaluator.Quiets (ev ev' : Evaluator) : Prop :=
  ∀ room ctx env e, (ev room ctx env e).quiet = ev' room ctx.quiet env e

section

variable {ev ev' : Evaluator} {room : Room} {ctx : Context} {env : Env}

theorem quiet_evalPart (h : ev.Quiets ev') (e : Except Fault Expr) :
    (evalPart ev room ctx env e).quiet = evalPart ev' room ctx.quiet env e := by
  simp only [evalPart, Prog.quiet_bind, Prog.quiet_ofPart, h room ctx]

@[simp] theorem quiet_syncValue (v : Value) :
    (syncValue v : Prog Work Value).quiet = syncValue v := by
  unfold syncValue
  split
  · rfl
  · split
    · simp only [Prog.quiet_bind, Prog.quiet_ofPart]
      rfl
    · rfl

theorem quiet_evalArgs (h : ev.Quiets ev') (args : List Expr) :
    (evalArgs ev room ctx env args).quiet = evalArgs ev' room ctx.quiet env args := by
  induction args generalizing env with
  | nil => rfl
  | cons arg args ih =>
    simp only [evalArgs, Prog.quiet_bind, h (room.less 1) ctx, ih, Prog.quiet_pure]

theorem quiet_prepareCall (h : ev.Quiets ev') (f : Procedure) (args : Args) :
    (prepareCall ev room ctx env f args).quiet = prepareCall ev' room ctx.quiet env f args := by
  simp only [prepareCall, Prog.quiet_bind, Prog.quiet_ofPart]
  refine bind_congr fun name => bind_congr fun arity => bind_congr fun got => ?_
  split
  · rfl
  · simp only [Prog.quiet_bind, quiet_evalArgs h, Prog.quiet_ofPart, Prog.quiet_pure]

theorem quiet_applyFunction (h : ev.Quiets ev') (f : Procedure) (args : Args) :
    (applyFunction ev room ctx env f args).quiet = applyFunction ev' room ctx.quiet env f args := by
  simp only [applyFunction, Prog.quiet_bind, quiet_prepareCall h, Context.quiet_trace,
    quiet_evalPart h, Prog.quiet_pure, Context.trace_quiet]

theorem quiet_unary (h : ev.Quiets ev') (x : Expr) (f : Value → Except Failure Value) :
    (applyBuiltin.unary ev room ctx env x f).quiet =
      applyBuiltin.unary ev' room ctx.quiet env x f := by
  simp only [applyBuiltin.unary, Prog.quiet_bind, h (room.less 1) ctx, Prog.quiet_ofExcept,
    Prog.quiet_pure]

theorem quiet_binary (h : ev.Quiets ev') (x y : Expr) (f : Value → Value → Except Failure Value) :
    (applyBuiltin.binary ev room ctx env x y f).quiet =
      applyBuiltin.binary ev' room ctx.quiet env x y f := by
  simp only [applyBuiltin.binary, Prog.quiet_bind, h (room.less 2) ctx, Prog.quiet_ofExcept,
    Prog.quiet_pure]

theorem quiet_applyBuiltin (h : ev.Quiets ev') (b : Builtin) (args : List Expr) :
    (applyBuiltin ev room ctx env b args).quiet = applyBuiltin ev' room ctx.quiet env b args := by
  unfold applyBuiltin
  split
  · exact quiet_binary h _ _ _
  · exact quiet_binary h _ _ _
  · exact quiet_binary h _ _ _
  · exact quiet_binary h _ _ _
  · simp only [Prog.quiet_bind, h (room.less 1) ctx, Prog.quiet_ofExcept]
  · exact quiet_unary h _ _
  · exact quiet_unary h _ _
  · rfl

theorem quiet_callBuiltin (h : ev.Quiets ev') (b : Builtin) (args : Args) :
    (callBuiltin ev room ctx env b args).quiet = callBuiltin ev' room ctx.quiet env b args := by
  unfold callBuiltin
  split
  · exact quiet_applyBuiltin h b _
  · simp only [Prog.quiet_bind, Prog.quiet_ofPart]
    refine bind_congr fun got => ?_
    split
    · rfl
    · exact quiet_applyBuiltin h b _

theorem quiet_apply (h : ev.Quiets ev') (f : Procedure) (args : Args) :
    (apply ev room ctx env f args).quiet = apply ev' room ctx.quiet env f args := by
  simp only [apply, Prog.quiet_bind, Prog.quiet_ofPart]
  refine bind_congr fun name => bind_congr fun b => ?_
  cases b with
  | some b =>
    simp only [Prog.quiet_bind, Context.quiet_trace, quiet_callBuiltin h, Context.trace_quiet]
  | none => exact quiet_applyFunction h f args

/-- The rules for a node trace, and nothing in them looks at whether they do. -/
theorem quiets_evalNode (h : ev.Quiets ev') : Evaluator.Quiets (evalNode ev) (evalNode ev') := by
  intro room ctx env e
  have hpart : ∀ room env part, (evalPart ev room ctx env part).quiet =
      evalPart ev' room ctx.quiet env part := fun _ _ part => quiet_evalPart h part
  simp only [evalNode, Prog.quiet_bind, Prog.quiet_ofPart, Context.quiet_trace, Context.trace_quiet]
  refine bind_congr fun node => bind_congr fun _ => ?_
  cases node with
  | lit value => simp only [Prog.quiet_bind, Prog.quiet_ofPart, Prog.quiet_pure]
  | var name =>
    simp only [Prog.quiet_bind, Prog.quiet_ofPart]
    refine bind_congr fun name => bind_congr fun key => ?_
    split <;> rfl
  | app callee args =>
    simp only [Prog.quiet_bind, hpart]
    refine bind_congr fun f => ?_
    split
    · simp only [Prog.quiet_bind, Prog.quiet_ofPart, quiet_apply h]
    · rfl
  | letIn name value body =>
    simp only [Prog.quiet_bind, Prog.quiet_ofPart, hpart, Prog.quiet_pure]
    rfl
  | cond test yes no => simp only [Prog.quiet_bind, Prog.quiet_ofExcept, hpart]
  | spawn body =>
    simp only [Prog.quiet_bind, Prog.quiet_ofPart]
    refine bind_congr fun body => congrArg (Prog.spawn (Work.quiet ⟨body, env, ctx⟩)) ?_
    refine funext fun id => ?_
    cases ctx.debug <;> simp [Prog.bind, Prog.quiet, Context.quiet]
  | sync body => simp only [Prog.quiet_bind, quiet_syncValue, hpart, Prog.quiet_pure]
  | unknown type => rfl

theorem quiets_eval (limit : Nat) : Evaluator.Quiets (eval limit) (eval limit) := by
  induction limit with
  | zero => exact fun _ _ _ _ => rfl
  | succ limit ih =>
    intro room ctx env e
    unfold eval
    split
    · exact quiets_evalNode ih room ctx env e
    · rfl

end

theorem Stack.quiet_eval (stack : Stack) (ctx : Context) (env : Env) (e : Expr) :
    (stack.eval ctx env e).quiet = stack.eval ctx.quiet env e :=
  quiets_eval stack.depth stack.room ctx env e

end ForkJoin

import ForkJoin.Proofs.Labels
import ForkJoin.Proofs.Nodes

/-!
# What an evaluation prints

With tracing on an evaluation prints messages, as its context writes them, and it announces the
tasks that it spawns. `Prog.Traces` says so of a program: every spawn is announced in the very next
act, nothing else is announced, and what is spawned is told to trace too. Every evaluation is such a
program (`traces_eval`), whatever the expression is and whatever values it is handed on the way.
-/

namespace ForkJoin

/-- What an evaluation traces: which node it looks at and which function it calls. -/
inductive Message : String → Prop
  | node (type : String) : Message ("Evaluating: " ++ type)
  | builtin (name : String) : Message ("Builtin: " ++ name)
  | call (name : String) : Message ("Calling: " ++ name)

namespace Message

variable {message : String}

theorem not_startsWith_task (h : Message message) : ¬message.startsWith "[task " := by
  rw [String.startsWith_string_iff]
  cases h <;> simp

theorem not_startsWith_spawned (h : Message message) (id : ThreadId) :
    ¬(id.line message).startsWith "Spawned task " := by
  cases id with
  | main =>
    rw [String.startsWith_string_iff]
    cases h <;> simp [ThreadId.line]
  | helper n | child p n => exact ThreadId.not_startsWith_spawned_mark _ _

theorem not_isFinal {p : ThreadId} {n : Nat} (h : Message message) :
    ¬(ThreadId.child p n).IsFinal ((ThreadId.child p n).line message) := by
  rintro (heq | ⟨reason, heq⟩) <;>
  · have hlist := congrArg String.toList ((String.append_right_inj _).1 heq)
    cases h <;> simp at hlist

end Message

/-! ### Programs that trace -/

namespace Prog

variable {α β : Type} {ctx : Context}

/-- A program that prints messages in a context and announces what it spawns, at once. `pending` is
the task that was just spawned, if there is one. -/
inductive Traces (ctx : Context) : Option ThreadId → Prog Work α → Prop
  | done (a : α) : Traces ctx none (.done a)
  | fail (e : Failure) : Traces ctx none (.fail e)
  | message {message : String} {rest : Prog Work α} (hmessage : Message message)
      (hrest : Traces ctx none rest) : Traces ctx none (.emit (ctx.line message) rest)
  | announce {id : ThreadId} {rest : Prog Work α} (hrest : Traces ctx none rest) :
      Traces ctx (some id) (.emit id.spawnLine rest)
  | spawn {work : Work} {rest : ThreadId → Prog Work α} (hcontext : work.context = ctx)
      (hrest : ∀ id, Traces ctx (some id) (rest id)) : Traces ctx none (.spawn work rest)
  | claim {x : CellId} {rest : Prog Work α} (hrest : Traces ctx none rest) :
      Traces ctx none (.claim x rest)
  | await {x : CellId} {rest : Value → Prog Work α} (hrest : ∀ v, Traces ctx none (rest v)) :
      Traces ctx none (.await x rest)

theorem Traces.bind {p : Prog Work α} {f : α → Prog Work β} {pending : Option ThreadId}
    (hp : p.Traces ctx pending) (hf : ∀ a, (f a).Traces ctx none) :
    (p >>= f).Traces ctx pending := by
  change (p.bind f).Traces ctx pending
  induction hp with
  | done a => exact hf a
  | fail e => exact .fail e
  | message hmessage _ ih => exact .message hmessage ih
  | announce _ ih => exact .announce ih
  | spawn hcontext _ ih => exact .spawn hcontext ih
  | claim _ ih => exact .claim ih
  | await _ ih => exact .await ih

theorem traces_ofPart (x : Except Fault α) : (ofPart x).Traces ctx none := by
  cases x with
  | ok a => exact .done a
  | error f => exact .fail _

theorem traces_ofExcept (x : Except Failure α) : (ofExcept x).Traces ctx none := by
  cases x with
  | ok a => exact .done a
  | error e => exact .fail e

theorem traces_trace (hdebug : ctx.debug = true) {message : String} (h : Message message) :
    (ctx.trace message).Traces ctx none := by
  rw [Context.trace, if_pos hdebug]
  exact .message h (.done ())

end Prog

def Evaluator.Traces (ev : Evaluator) : Prop :=
  ∀ room ctx env e, ctx.debug = true → (ev room ctx env e).Traces ctx none

section

variable {ev : Evaluator} {room : Room} {ctx : Context} {env : Env}

theorem traces_syncValue (v : Value) : (syncValue v : Prog Work Value).Traces ctx none := by
  have htake : ∀ x, (Prog.claim x (.await x .done) : Prog Work Value).Traces ctx none :=
    fun x => .claim (.await .done)
  unfold syncValue
  split
  · exact htake _
  · split
    · exact (Prog.traces_ofPart _).bind htake
    · exact .fail _

variable (hev : ev.Traces) (hdebug : ctx.debug = true)

include hev hdebug

theorem traces_evalPart (e : Except Fault Expr) : (evalPart ev room ctx env e).Traces ctx none :=
  (Prog.traces_ofPart e).bind fun part => hev room ctx env part hdebug

theorem traces_evalArgs (args : List Expr) : (evalArgs ev room ctx env args).Traces ctx none := by
  induction args generalizing env with
  | nil => exact .done _
  | cons arg args ih =>
    exact (hev _ ctx env arg hdebug).bind fun first => ih.bind fun r => .done _

theorem traces_applyFunction (f : Procedure) (args : Args) :
    (applyFunction ev room ctx env f args).Traces ctx none := by
  have hcall : (prepareCall ev room ctx env f args).Traces ctx none := by
    refine (Prog.traces_ofPart _).bind fun name => (Prog.traces_ofPart _).bind fun arity => ?_
    refine (Prog.traces_ofPart _).bind fun got => ?_
    split
    · exact .fail _
    · exact (traces_evalArgs hev hdebug _).bind fun r => (Prog.traces_ofPart _).bind fun _ =>
        .done _
  refine hcall.bind fun call => (Prog.traces_trace hdebug (.call _)).bind fun _ => ?_
  exact (traces_evalPart hev hdebug _).bind fun r => .done _

theorem traces_applyBuiltin (b : Builtin) (args : List Expr) :
    (applyBuiltin ev room ctx env b args).Traces ctx none := by
  have hunary : ∀ x f, (applyBuiltin.unary ev room ctx env x f).Traces ctx none := fun x f =>
    (hev _ ctx env x hdebug).bind fun r => (Prog.traces_ofExcept _).bind fun v => .done _
  have hbinary : ∀ x y f, (applyBuiltin.binary ev room ctx env x y f).Traces ctx none :=
    fun x y f => (hev _ ctx env x hdebug).bind fun r => (hev _ ctx r.env y hdebug).bind fun s =>
      (Prog.traces_ofExcept _).bind fun v => .done _
  unfold applyBuiltin
  split
  case h_1 | h_2 | h_3 | h_4 => exact hbinary _ _ _
  case h_5 test yes no =>
    exact (hev _ ctx env test hdebug).bind fun r => (Prog.traces_ofExcept _).bind fun b =>
      hev _ ctx r.env _ hdebug
  case h_6 | h_7 => exact hunary _ _
  case h_8 => exact .fail _

theorem traces_callBuiltin (b : Builtin) (args : Args) :
    (callBuiltin ev room ctx env b args).Traces ctx none := by
  unfold callBuiltin
  split
  · exact traces_applyBuiltin hev hdebug b _
  · refine (Prog.traces_ofPart _).bind fun got => ?_
    split
    · exact .fail _
    · exact traces_applyBuiltin hev hdebug b _

theorem traces_apply (f : Procedure) (args : Args) :
    (apply ev room ctx env f args).Traces ctx none := by
  refine (Prog.traces_ofPart _).bind fun name => (Prog.traces_ofPart _).bind fun b => ?_
  cases b with
  | some b =>
    exact (Prog.traces_trace hdebug (.builtin _)).bind fun _ => traces_callBuiltin hev hdebug b args
  | none => exact traces_applyFunction hev hdebug f args

omit hdebug in
theorem traces_evalNode : (evalNode ev).Traces := by
  intro room ctx env e hdebug
  have hpart : ∀ room env part, (evalPart ev room ctx env part).Traces ctx none :=
    fun _ _ part => traces_evalPart hev hdebug part
  refine (Prog.traces_ofPart _).bind fun node => ?_
  refine (Prog.traces_trace hdebug (.node _)).bind fun _ => ?_
  cases node with
  | lit value => exact (Prog.traces_ofPart value).bind fun v => .done _
  | var name =>
    refine (Prog.traces_ofPart name).bind fun name => (Prog.traces_ofPart _).bind fun key => ?_
    split
    · exact .done _
    · exact .fail _
  | app callee args =>
    refine (hpart _ _ callee).bind fun f => ?_
    split
    · exact (Prog.traces_ofPart _).bind fun procedure => (Prog.traces_ofPart args).bind fun args =>
        traces_apply hev hdebug procedure args
    · exact .fail _
  | letIn name value body =>
    refine (hpart _ _ value).bind fun bound => (Prog.traces_ofPart name).bind fun name => ?_
    exact (Prog.traces_ofPart _).bind fun key => (hpart _ _ body).bind fun r => .done _
  | cond test yes no =>
    exact (hpart _ _ test).bind fun r => (Prog.traces_ofExcept _).bind fun b => hpart _ _ _
  | spawn body =>
    refine (Prog.traces_ofPart body).bind fun body => .spawn rfl fun id => ?_
    simp only [hdebug, if_true]
    exact .announce (.done _)
  | sync body =>
    exact (hpart _ _ body).bind fun r => (traces_syncValue r.value).bind fun v => .done _
  | unknown type => exact .fail _

end

theorem traces_eval (limit : Nat) : (eval limit).Traces := by
  induction limit with
  | zero => exact fun room ctx env e hdebug => .fail _
  | succ limit ih =>
    intro room ctx env e hdebug
    unfold eval
    split
    · exact traces_evalNode ih room ctx env e hdebug
    · exact .fail _

end ForkJoin

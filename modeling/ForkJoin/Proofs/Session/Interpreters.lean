import ForkJoin.Proofs.Bindings
import ForkJoin.Proofs.Flat.Compaction
import ForkJoin.Proofs.Session.Turns

/-!
# What commands do to interpreters

A command touches one interpreter at most, and that in two ways only: it defines names, or it takes
in the environment that an evaluation has ended with. Both are done in one assignment after
everything that can fail, and both put more bindings over what was there. So between two commands
the environment of an interpreter is a single frame, names stay bound, and an evaluation that does
not succeed has changed nothing, however far it came.

That an evaluation only adds to its environment is `Env.Grows`; that the main thread ends with what
its program returns, whatever tasks do meanwhile, is `System.returns_of_run`.
-/

namespace ForkJoin

namespace Env

def Binds (env : Env) (name : Name) : Prop :=
  (env.get? name).isSome

instance (env : Env) (name : Name) : Decidable (env.Binds name) :=
  inferInstanceAs (Decidable ((env.get? name).isSome = true))

theorem get?_compact (env : Env) (name : Name) : env.compact.get? name = env.get? name := by
  rw [← get?_flatten, flatten_compact, get?_flatten]

theorem Binds.bind {env : Env} {other : Name} (h : env.Binds other) (name : Name) (v : Value) :
    (env.bind name v).Binds other := by
  unfold Binds
  rw [get?_bind]
  split
  · rfl
  · exact h

theorem Binds.compact {env : Env} {name : Name} (h : env.Binds name) : env.compact.Binds name := by
  unfold Binds
  rwa [get?_compact]

theorem Grows.binds {kind : Name → Value → Prop} {env env' : Env} (h : env.Grows kind env')
    {name : Name} (hname : env.Binds name) : env'.Binds name := by
  induction h with
  | refl => exact hname
  | bind _ _ ih => exact ih.bind _ _

theorem builtins_binds (b : Builtin) : builtins.Binds b.name := by
  cases b <;> decide +kernel

end Env

/-! ### Interpreters -/

namespace Interpreter

variable {stack : Stack} {steps : Nat} {policy : Policy} {i i' : Interpreter}

/-- An interpreter after some definitions and successful evaluations. -/
inductive Updated (policy : Policy) (i : Interpreter) : Interpreter → Prop
  | refl : Updated policy i i
  | define {i' : Interpreter} (h : Updated policy i i') (name : Name) (v : Value) :
      Updated policy i (i'.define policy name v)
  | conclude {i' : Interpreter} {e : Expr} {r : Result} (h : Updated policy i i')
      (hr : (i'.program policy e).Returns r) : Updated policy i (i'.conclude policy (.ok r)).1

theorem Updated.installDemos (policy : Policy) (i : Interpreter) :
    i.Updated policy (i.installDemos policy) := by
  have hfold : ∀ (ds : List Definition) (i' : Interpreter), i.Updated policy i' →
      i.Updated policy (ds.foldl (install policy) i') := by
    intro ds
    induction ds with
    | nil => exact fun _ h => h
    | cons d ds ih => exact fun i' h => ih _ (h.define _ _)
  exact hfold Definition.demos i .refl

theorem Updated.binds (h : i.Updated ⟨stack, steps, .compact⟩ i') {name : Name}
    (hname : i.env.Binds name) : i'.env.Binds name := by
  induction h with
  | refl => exact hname
  | define _ other v ih => exact (ih.bind other v).compact
  | conclude _ hr ih => exact (((framed_eval _).grows hr).binds ih).compact

theorem Updated.exists_frame (h : i.Updated ⟨stack, steps, .compact⟩ i')
    (hframe : ∃ f, i.env = .root f) : ∃ f, i'.env = .root f := by
  cases h with
  | refl => exact hframe
  | define | conclude => exact ⟨_, rfl⟩

theorem bindings_conclude_of_scoped {e : Expr} {r : Result}
    (hscoped : i.context.scopedLet = true)
    (hr : (i.program ⟨stack, steps, .compact⟩ e).Returns r) :
    (i.conclude ⟨stack, steps, .compact⟩ (.ok r)).1.bindings = i.bindings := by
  have henv : r.env = i.env := by
    refine ((framed_eval _).grows hr).eq_of_none fun _ _ hleaves => ?_
    rw [hleaves.1] at hscoped
    cases hscoped
  change r.env.compact.flatten = i.env.flatten
  rw [Env.flatten_compact, henv]

/-- An interpreter differs from another one at most in the functions that demos use. -/
structure DemosInstalled (i i' : Interpreter) : Prop where
  demo : ∀ d ∈ Definition.demos, i'.env.get? d.name = some d.value
  other : ∀ name : Name, (∀ d ∈ Definition.demos, name.key ≠ .text d.name) →
    i'.env.get? name = i.env.get? name

theorem demosInstalled (i : Interpreter) (stack : Stack) (steps : Nat) :
    i.DemosInstalled (i.installDemos ⟨stack, steps, .compact⟩) := by
  constructor
  · intro d hd
    simp only [Definition.demos, List.mem_cons, List.not_mem_nil, or_false] at hd
    rcases hd with rfl | rfl | rfl | rfl <;>
      simp [installDemos, install, define, Definition.demos, Env.get?_compact, Env.get?_bind,
        Definition.double, Definition.recursivePmap, Definition.pmap, Definition.spawnMap]
  · intro name hname
    simp only [Definition.demos, List.forall_mem_cons] at hname
    obtain ⟨hdouble, hrecursive, hpmap, hspawn, -⟩ := hname
    simp [installDemos, install, define, Definition.demos, Env.get?_compact, Env.get?_bind,
      hdouble, hrecursive, hpmap, hspawn]

end Interpreter

/-! ### Sessions -/

theorem Pool.returns_of_runs {stack : Stack} {p p' : Pool} {q : Prog Work Result} {r : Result}
    (h : (p.startMain q).Runs stack p') (hended : p'.main.rest.ended? = some (.ok r)) :
    q.Returns r := by
  obtain ⟨ids, hrun⟩ := h
  rw [← p'.ended?_main] at hended
  refine System.returns_of_run (t := { p.main with rest := q }) ?_ hrun hended
  rw [Pool.startMain_system, System.thread_setThread, if_pos rfl]

namespace Session

variable {policy : Policy} {s s' : Session} {on : Name}

theorem interpreter_setInterpreter (s : Session) (on name : Name) (i : Interpreter) :
    (s.setInterpreter on i).interpreter name = if name = on then i else s.interpreter name := by
  by_cases h : name = on
  · subst h
    simp [interpreter, setInterpreter]
  · have hfilter : (s.interpreters.filter (·.1 != on)).lookup name =
        s.interpreters.lookup name := by
      induction s.interpreters with
      | nil => rfl
      | cons entry rest ih =>
        obtain ⟨first, i'⟩ := entry
        by_cases hfirst : first = on
        · subst hfirst
          simp [List.lookup_cons, beq_false_of_ne h, ih]
        · simp [hfirst, List.lookup_cons, ih]
    simp [interpreter, setInterpreter, List.lookup_cons, beq_false_of_ne h, h, hfilter]

/-- A session in which one interpreter was updated and the others were left alone. -/
structure Updates (policy : Policy) (on : Name) (s s' : Session) : Prop where
  demos : s'.demos = s.demos
  other : ∀ name, name ≠ on → s'.interpreter name = s.interpreter name
  updated : (s.interpreter on).Updated policy (s'.interpreter on)

theorem Updates.of_eq (hdemos : s'.demos = s.demos) (hcontext : s'.context = s.context)
    (hinterpreters : s'.interpreters = s.interpreters) : Updates policy on s s' := by
  have hsame : ∀ name, s'.interpreter name = s.interpreter name := by
    intro name
    rw [interpreter, interpreter, hinterpreters, hcontext]
  exact ⟨hdemos, fun name _ => hsame name, hsame on ▸ .refl⟩

theorem Updates.set {i : Interpreter} (h : (s.interpreter on).Updated policy i) :
    Updates policy on s (s.setInterpreter on i) := by
  refine ⟨rfl, fun name hname => ?_, ?_⟩
  · rw [interpreter_setInterpreter, if_neg hname]
  · rwa [interpreter_setInterpreter, if_pos rfl]

theorem runMain_updates {p : Prog Work Result} :
    Updates policy on s (s.runMain policy p replyValue).1 := by
  unfold runMain
  dsimp only
  split
  · exact .of_eq rfl rfl rfl
  · unfold replyValue
    split <;> exact .of_eq rfl rfl rfl

/-- An evaluation blocks, or its interpreter takes in what the main thread has ended with. -/
theorem evalAmid_eq (order : List ThreadId) (policy : Policy) (s : Session) (on : Name) (e : Expr) :
    let i := s.interpreter on
    let p := s.pool.startMain (i.program policy e)
    let p' := (p.serve policy.stack order).runUntilOver policy.stack policy.steps .main
    s.evalAmid order policy on e = p'.main.rest.ended?.elim ({ s with pool := p' }, .ok .blocked)
      fun o => (({ s with pool := p' } : Session).setInterpreter on (i.conclude policy o).1,
        (i.conclude policy o).2.map .value) := by
  intro i p p'
  unfold evalAmid
  dsimp only
  split
  · rename_i hended
    change p'.main.rest.ended? = none at hended
    rw [hended]
    rfl
  · rename_i o hended
    change p'.main.rest.ended? = some o at hended
    rw [hended]
    rfl

/-- An evaluation succeeds and updates its interpreter with what its program returns, or it updates
none. -/
theorem evalAmid_cases (order : List ThreadId) (policy : Policy) (s : Session) (on : Name)
    (e : Expr) :
    let a := s.evalAmid order policy on e
    let i := s.interpreter on
    a.1.demos = s.demos ∧
      ((∃ r, (i.program policy e).Returns r ∧ a.2 = .ok (.value r.value) ∧
          ∀ name, a.1.interpreter name =
            if name = on then (i.conclude policy (.ok r)).1 else s.interpreter name) ∨
        ((∀ v, a.2 ≠ .ok (.value v)) ∧ ∀ name, a.1.interpreter name = s.interpreter name)) := by
  intro a i
  let p := s.pool.startMain (i.program policy e)
  let p' := (p.serve policy.stack order).runUntilOver policy.stack policy.steps .main
  have hruns : p.Runs policy.stack p' :=
    (p.runs_serve order).trans (Pool.runs_runUntilOver _ policy.steps .main)
  have ha : a = p'.main.rest.ended?.elim _ _ := s.evalAmid_eq order policy on e
  clear_value a
  subst ha
  cases hended : p'.main.rest.ended? with
  | none => exact ⟨rfl, .inr ⟨nofun, fun name => rfl⟩⟩
  | some o =>
    cases o with
    | error failure =>
      refine ⟨rfl, .inr ⟨nofun, fun name => ?_⟩⟩
      rw [Option.elim_some, interpreter_setInterpreter]
      split
      · rename_i hname
        exact hname ▸ rfl
      · rfl
    | ok r =>
      refine ⟨rfl, .inl ⟨r, Pool.returns_of_runs hruns hended, rfl, fun name => ?_⟩⟩
      exact interpreter_setInterpreter _ on name _

theorem evalAmid_updates (order : List ThreadId) (policy : Policy) (s : Session) (on : Name)
    (e : Expr) : Updates policy on s (s.evalAmid order policy on e).1 := by
  obtain ⟨hdemos, ⟨r, hr, -, hinterpreter⟩ | ⟨-, hinterpreter⟩⟩ :=
    s.evalAmid_cases order policy on e
  · refine ⟨hdemos, fun name hname => by rw [hinterpreter, if_neg hname], ?_⟩
    rw [hinterpreter, if_pos rfl]
    exact .conclude .refl hr
  · exact ⟨hdemos, fun name _ => hinterpreter name, hinterpreter on ▸ .refl⟩

theorem Updates.trans_evalAmid {order : List ThreadId} {e : Expr} (h : Updates policy on s s') :
    Updates policy on s (s'.evalAmid order policy on e).1 := by
  obtain ⟨hdemos, hcases⟩ := s'.evalAmid_cases order policy on e
  refine ⟨hdemos.trans h.demos, fun name hname => ?_, ?_⟩
  · rw [(evalAmid_updates order policy s' on e).other name hname, h.other name hname]
  · rcases hcases with ⟨r, hr, -, hinterpreter⟩ | ⟨-, hinterpreter⟩
    · rw [hinterpreter, if_pos rfl]
      exact h.updated.conclude hr
    · rw [hinterpreter]
      exact h.updated

theorem prepareDemo_updated (policy : Policy) (demos : List Demo) (i : Interpreter) (demo : Datum)
    (numbers : List Datum) : i.Updated policy (i.prepareDemo policy demos demo numbers).1 := by
  unfold Interpreter.prepareDemo
  split
  · exact .refl
  · exact .refl
  · split
    · exact .refl
    · exact .installDemos policy i

theorem performAmid_updates (order : List ThreadId) (policy : Policy) (s : Session) (on : Name)
    {c : Command} (hc : c.Plain) : Updates policy on s (s.performAmid order policy on c).1 := by
  cases c with
  | eval e => exact evalAmid_updates order policy s on e
  | runDemo demo numbers =>
    have hset := Updates.set (prepareDemo_updated policy s.demos (s.interpreter on) demo numbers)
    dsimp only [performAmid]
    split
    · exact hset
    · exact hset.trans_evalAmid
  | define name v =>
    dsimp only [performAmid, perform]
    split
    · exact .set (.define .refl _ v)
    · exact .of_eq rfl rfl rfl
  | defineFunction name params body =>
    dsimp only [performAmid, perform, defineFunction]
    split
    · exact .set (.define .refl _ _)
    · exact .of_eq rfl rfl rfl
  | installDemos => exact .set (.installDemos policy _)
  | sync name =>
    dsimp only [performAmid, perform]
    split
    · exact .of_eq rfl rfl rfl
    · exact runMain_updates
  | claim name => exact runMain_updates
  | write name o =>
    dsimp only [performAmid, perform]
    split <;> exact .of_eq rfl rfl rfl
  | join waiter =>
    dsimp only [performAmid, perform, replyValue]
    split
    · exact .of_eq rfl rfl rfl
    · split
      · exact .of_eq rfl rfl rfl
      · split <;> exact .of_eq rfl rfl rfl
  | lookup | bindings | compare | unwrap | newCell | claimLater | state | describe =>
    exact .of_eq rfl rfl rfl
  | spawnTask | message | run => exact hc.elim

/-- The session in which a request is performed. -/
def opened (stack : Stack) (s : Session) (r : Request) : Session :=
  let s : Session := { s with pool := s.pool.serve stack r.before }
  r.command.cell?.elim s s.mention

theorem request_eq (stack : Stack) (tidy : Env → Env) (s : Session) (r : Request) :
    let policy : Policy := ⟨stack, r.turns, tidy⟩
    let a := (s.opened stack r).performAmid r.during policy r.on r.command
    s.request stack tidy r = (a.1.settle policy, a.2) := rfl

theorem opened_demos (stack : Stack) (s : Session) (r : Request) :
    (s.opened stack r).demos = s.demos := by
  unfold opened
  cases r.command.cell? <;> rfl

theorem opened_interpreter (stack : Stack) (s : Session) (r : Request) (name : Name) :
    (s.opened stack r).interpreter name = s.interpreter name := by
  unfold opened
  cases r.command.cell? <;> rfl

/-- Whatever is served before, during and after a command, it updates its own interpreter only. -/
theorem request_updates (stack : Stack) (tidy : Env → Env) (s : Session) {r : Request}
    (hr : r.command.Plain) :
    Updates ⟨stack, r.turns, tidy⟩ r.on s (s.request stack tidy r).1 := by
  obtain ⟨hdemos, hother, hupdated⟩ :=
    performAmid_updates r.during ⟨stack, r.turns, tidy⟩ (s.opened stack r) r.on hr
  refine ⟨hdemos.trans (s.opened_demos stack r), fun name hname => ?_, ?_⟩
  · exact (hother name hname).trans (s.opened_interpreter stack r name)
  · rw [s.opened_interpreter] at hupdated
    exact hupdated

end Session

/-! ### Whole sessions -/

/-- An interpreter between two commands: its environment is a single frame, in which the names of
all builtins are bound. -/
structure Interpreter.Compacted (i : Interpreter) : Prop where
  frame : ∃ f, i.env = .root f
  builtin : ∀ b : Builtin, i.env.Binds b.name

theorem Interpreter.Updated.compacted {stack : Stack} {steps : Nat} {i i' : Interpreter}
    (h : i.Updated ⟨stack, steps, .compact⟩ i') (hi : i.Compacted) : i'.Compacted :=
  ⟨h.exists_frame hi.frame, fun b => h.binds (hi.builtin b)⟩

/-- What a command, answered with a reply, leaves of the bindings of an interpreter. -/
structure Interpreter.Kept (c : Command) (demos : List Demo) (reply : Except Failure Reply)
    (i i' : Interpreter) : Prop extends i'.Compacted where
  binds : ∀ name, i.env.Binds name → i'.env.Binds name
  /-- An evaluation without a value changes nothing, whatever it has bound before. -/
  failed_eval : ∀ e, c = .eval e → (∀ v, reply ≠ .ok (.value v)) → i' = i
  scoped_eval : ∀ e, c = .eval e → i.context.scopedLet = true → i'.bindings = i.bindings
  /-- A demo that there is not, or that is given no number, is refused. -/
  refused_demo : ∀ demo numbers, c = .runDemo demo numbers →
    (∀ d, Demo.find? demos demo ≠ .ok (some d)) ∨ numbers = [] → (∃ e, reply = .error e) ∧ i' = i
  failed_demo : ∀ demo numbers, c = .runDemo demo numbers → (∀ v, reply ≠ .ok (.value v)) →
    i' = i ∨ i.DemosInstalled i'

namespace Session

variable {s : Session}

theorem compacted_of_new (hnew : s.interpreters = []) (name : Name) :
    (s.interpreter name).Compacted := by
  have hfresh : s.interpreter name = { context := s.context } := by
    rw [interpreter, hnew]
    rfl
  rw [hfresh]
  exact ⟨⟨_, rfl⟩, Env.builtins_binds⟩

theorem request_compacted (stack : Stack) {r : Request} (hr : r.command.Plain)
    (hs : ∀ name, (s.interpreter name).Compacted) (name : Name) :
    ((s.request stack Env.compact r).1.interpreter name).Compacted := by
  have hupdates := request_updates stack Env.compact s hr
  by_cases hname : name = r.on
  · subst hname
    exact hupdates.updated.compacted (hs r.on)
  · rw [hupdates.other name hname]
    exact hs name

theorem serve_compacted (stack : Stack) {rs : List Request} (hrs : ∀ r ∈ rs, r.command.Plain)
    (hs : ∀ name, (s.interpreter name).Compacted) (name : Name) :
    ((s.serve stack Env.compact rs).2.interpreter name).Compacted := by
  induction rs generalizing s with
  | nil => exact hs name
  | cons r rs ih =>
    obtain ⟨hr, hrs⟩ := List.forall_mem_cons.1 hrs
    exact ih hrs (request_compacted stack hr hs)

section Request

variable {stack : Stack} {r : Request}

theorem request_eval {e : Expr} (hc : r.command = .eval e) :
    let a := s.request stack Env.compact r
    ((∀ v, a.2 ≠ .ok (.value v)) → ∀ name, a.1.interpreter name = s.interpreter name) ∧
      ∀ name, (s.interpreter name).context.scopedLet = true →
        (a.1.interpreter name).bindings = (s.interpreter name).bindings := by
  intro a
  have ha : a = (((s.opened stack r).evalAmid r.during ⟨stack, r.turns, .compact⟩ r.on e).1.settle
      ⟨stack, r.turns, .compact⟩,
        ((s.opened stack r).evalAmid r.during ⟨stack, r.turns, .compact⟩ r.on e).2) := by
    rw [show a = s.request stack Env.compact r from rfl, request_eq, hc]
    rfl
  obtain ⟨-, hcases⟩ :=
    (s.opened stack r).evalAmid_cases r.during ⟨stack, r.turns, .compact⟩ r.on e
  simp only [opened_interpreter] at hcases
  clear_value a
  subst ha
  rcases hcases with ⟨result, hresult, hvalue, hinterpreter⟩ | ⟨-, hinterpreter⟩
  · refine ⟨fun hfailed => absurd hvalue (hfailed _), fun name hscoped => ?_⟩
    refine (congrArg Interpreter.bindings (hinterpreter name)).trans ?_
    split
    · rename_i hname
      subst hname
      exact Interpreter.bindings_conclude_of_scoped hscoped hresult
    · rfl
  · exact ⟨fun _ => hinterpreter, fun name _ => congrArg Interpreter.bindings (hinterpreter name)⟩

theorem prepareDemo_cases (policy : Policy) (demos : List Demo) (i : Interpreter) (demo : Datum)
    (numbers : List Datum) :
    let a := i.prepareDemo policy demos demo numbers
    (a.1 = i ∧ ∃ e, a.2 = .error e) ∨
      (a.1 = i.installDemos policy ∧ numbers ≠ [] ∧ ∃ d, Demo.find? demos demo = .ok (some d)) := by
  intro a
  have ha : a = i.prepareDemo policy demos demo numbers := rfl
  unfold Interpreter.prepareDemo at ha
  split at ha
  · exact .inl (by rw [ha]; exact ⟨rfl, _, rfl⟩)
  · exact .inl (by rw [ha]; exact ⟨rfl, _, rfl⟩)
  · rename_i d hfound
    split at ha
    · exact .inl (by rw [ha]; exact ⟨rfl, _, rfl⟩)
    · rename_i hnumbers
      refine .inr ⟨by rw [ha], ?_, d, hfound⟩
      rintro rfl
      exact hnumbers rfl

def prepared (policy : Policy) (s : Session) (on : Name) (demo : Datum) (numbers : List Datum) :
    Session × Except Failure Expr :=
  let (i, program) := (s.interpreter on).prepareDemo policy s.demos demo numbers
  (s.setInterpreter on i, program)

theorem request_runDemo_eq {demo : Datum} {numbers : List Datum}
    (hc : r.command = .runDemo demo numbers) :
    let policy : Policy := ⟨stack, r.turns, .compact⟩
    let ready := (s.opened stack r).prepared policy r.on demo numbers
    s.request stack Env.compact r = match ready.2 with
      | .error e => (ready.1.settle policy, .error e)
      | .ok e => ((ready.1.evalAmid r.during policy r.on e).1.settle policy,
          (ready.1.evalAmid r.during policy r.on e).2) := by
  rw [request_eq, hc]
  dsimp only [performAmid, prepared]
  generalize ((s.opened stack r).interpreter r.on).prepareDemo ⟨stack, r.turns, .compact⟩
    (s.opened stack r).demos demo numbers = ready
  obtain ⟨i, _ | e⟩ := ready
  · rfl
  · rfl

/-- A demo that is refused changes no interpreter; otherwise the functions that demos use are
installed before its program is evaluated. -/
theorem opened_prepared_cases (stack : Stack) (s : Session) (r : Request) (demo : Datum)
    (numbers : List Datum) :
    let ready := (s.opened stack r).prepared ⟨stack, r.turns, .compact⟩ r.on demo numbers
    ((∃ e, ready.2 = .error e) ∧ ∀ name, ready.1.interpreter name = s.interpreter name) ∨
      (numbers ≠ [] ∧ (∃ d, Demo.find? s.demos demo = .ok (some d)) ∧
        ∀ name, ready.1.interpreter name = s.interpreter name ∨
          (s.interpreter name).DemosInstalled (ready.1.interpreter name)) := by
  dsimp only [prepared]
  simp only [interpreter_setInterpreter, opened_interpreter, opened_demos]
  rcases prepareDemo_cases ⟨stack, r.turns, .compact⟩ s.demos (s.interpreter r.on) demo numbers with
    ⟨hsame, hprogram⟩ | ⟨hinstalled, hnumbers, hfound⟩
  · refine .inl ⟨hprogram, fun name => ?_⟩
    split
    · rename_i hname
      rw [hsame, hname]
    · rfl
  · refine .inr ⟨hnumbers, hfound, fun name => ?_⟩
    split
    · rename_i hname
      rw [hinstalled, hname]
      exact .inr (Interpreter.demosInstalled _ stack r.turns)
    · exact .inl rfl

theorem request_refused_demo {demo : Datum} {numbers : List Datum}
    (hc : r.command = .runDemo demo numbers)
    (hrefused : (∀ d, Demo.find? s.demos demo ≠ .ok (some d)) ∨ numbers = []) :
    (∃ e, (s.request stack Env.compact r).2 = .error e) ∧
      ∀ name, (s.request stack Env.compact r).1.interpreter name = s.interpreter name := by
  rcases opened_prepared_cases stack s r demo numbers with
    ⟨⟨e, hprogram⟩, hsame⟩ | ⟨hnumbers, ⟨d, hfound⟩, -⟩
  · rw [request_runDemo_eq hc, hprogram]
    exact ⟨⟨e, rfl⟩, hsame⟩
  · rcases hrefused with hunknown | hempty
    · exact absurd hfound (hunknown d)
    · exact absurd hempty hnumbers

theorem request_failed_demo {demo : Datum} {numbers : List Datum}
    (hc : r.command = .runDemo demo numbers)
    (hfailed : ∀ v, (s.request stack Env.compact r).2 ≠ .ok (.value v)) (name : Name) :
    (s.request stack Env.compact r).1.interpreter name = s.interpreter name ∨
      (s.interpreter name).DemosInstalled
        ((s.request stack Env.compact r).1.interpreter name) := by
  let policy : Policy := ⟨stack, r.turns, .compact⟩
  let ready := (s.opened stack r).prepared policy r.on demo numbers
  have hready : ready.1.interpreter name = s.interpreter name ∨
      (s.interpreter name).DemosInstalled (ready.1.interpreter name) := by
    rcases opened_prepared_cases stack s r demo numbers with
      ⟨-, hsame⟩ | ⟨-, -, hdemos⟩
    · exact .inl (hsame name)
    · exact hdemos name
  have hsame : (s.request stack Env.compact r).1.interpreter name = ready.1.interpreter name := by
    rw [request_runDemo_eq hc] at hfailed ⊢
    cases hprogram : ready.2 with
    | error e => rfl
    | ok e =>
      rw [hprogram] at hfailed
      obtain ⟨-, ⟨result, -, hvalue, -⟩ | ⟨-, hinterpreter⟩⟩ :=
        ready.1.evalAmid_cases r.during policy r.on e
      · exact absurd hvalue (hfailed _)
      · exact hinterpreter name
  rwa [hsame]

end Request

/-- In a session that starts with new interpreters, whatever is asked of them, whatever fails and
however threads are served meanwhile: after every command the environment of every interpreter is a
single frame in which no name has become unbound, the names of the builtins among them. An
evaluation that does not succeed leaves every binding as it was, and so does every evaluation with
scoped bindings. A demo that is refused changes nothing, and one that fails nothing but the
functions that demos use. -/
theorem interpreters_kept (stack : Stack) (s : Session) (hnew : s.interpreters = [])
    (rs : List Request) (hrs : ∀ r ∈ rs, r.command.Plain) (r : Request) (hr : r.command.Plain)
    (name : Name) :
    let before := (s.serve stack Env.compact rs).2
    let answer := before.request stack Env.compact r
    Interpreter.Kept r.command before.demos answer.2 (before.interpreter name)
      (answer.1.interpreter name) := by
  intro before answer
  have hbefore : ∀ name, (before.interpreter name).Compacted :=
    serve_compacted stack hrs (compacted_of_new hnew)
  have hupdates := request_updates stack Env.compact before hr
  refine ⟨request_compacted stack hr hbefore name, ?_, ?_, ?_, ?_, ?_⟩
  · intro bound hbound
    by_cases hname : name = r.on
    · subst hname
      exact hupdates.updated.binds hbound
    · rwa [hupdates.other name hname]
  · exact fun e hc hfailed => (request_eval hc).1 hfailed name
  · exact fun e hc hscoped => (request_eval hc).2 name hscoped
  · intro demo numbers hc hrefused
    obtain ⟨herror, hsame⟩ := request_refused_demo hc hrefused
    exact ⟨herror, hsame name⟩
  · exact fun demo numbers hc hfailed => request_failed_demo hc hfailed name

/-- A `let` shadows a name that was defined, and the task that the body waits for fails. -/
theorem interpreters_kept_failing_task :
    let define : Request := { on := "i", command := .define "x" (.int 1) }
    let eval : Request :=
      { on := "i", command := .eval (.letIn "x" (.lit (.int 2)) (.sync (.spawn (.var "y")))) }
    let before := (serve ⟨9, none⟩ Env.compact {} [define]).2
    let answer := before.request ⟨9, none⟩ Env.compact eval
    (({} : Session).interpreters = [] ∧ (∀ r ∈ [define], r.command.Plain) ∧ eval.command.Plain) ∧
      answer.2 = .error (.language (.undefinedVariable "y")) ∧
      Interpreter.Kept eval.command before.demos answer.2 (before.interpreter "i")
        (answer.1.interpreter "i") := by
  intro define eval before answer
  have hplain : ∀ r ∈ [define], r.command.Plain := by
    simp [define, Command.Plain]
  have hfails : answer.2 = .error (.language (.undefinedVariable "y")) := by rfl
  exact ⟨⟨rfl, hplain, trivial⟩, hfails,
    interpreters_kept ⟨9, none⟩ {} rfl [define] hplain eval trivial "i"⟩

end Session

end ForkJoin

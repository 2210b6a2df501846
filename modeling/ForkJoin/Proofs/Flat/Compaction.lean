import ForkJoin.Proofs.Flat.Alike
import ForkJoin.Session

/-!
# Compaction does not show

After every change an interpreter puts one frame in the place of its chain. Here it is compared with
one that keeps the chain as it grows. The two are related by what their environments flatten to, and
everything that a session does with interpreters, threads and cells keeps them so, also where
commands fail and where tasks that were given older chains go on later.

What an interpreter does between two changes is known from `Prog.Alike`. Of compaction itself only one
thing is needed, that it does not change what an environment flattens to; so the result is stated for
any two ways of tidying that have this property.
-/

namespace ForkJoin

namespace Frame

theorem Distinct.update {f : Frame} (hf : f.Distinct) (top : Frame) : (f.update top).Distinct := by
  obtain ⟨entries⟩ := top
  induction entries with
  | nil => exact hf
  | cons entry entries ih => exact ih.insert entry.1 entry.2

theorem Distinct.empty_update {f : Frame} (hf : f.Distinct) : ({} : Frame).update f = f := by
  obtain ⟨entries⟩ := f
  induction entries with
  | nil => rfl
  | cons entry entries ih =>
    obtain ⟨name, value⟩ := entry
    obtain ⟨hfirst, hrest⟩ := List.pairwise_cons.1 hf
    have hnone : Frame.entry? ⟨entries⟩ name = none := by
      refine List.find?_eq_none.2 fun other hother => ?_
      simpa using Ne.symm (hfirst other hother)
    have hwritten : (Frame.mk entries).written name = name := by rw [written, hnone]; rfl
    have hkept : entries.filter (·.1.key ≠ name.key) = entries := by
      refine List.filter_eq_self.2 fun other hother => ?_
      exact decide_eq_true (Ne.symm (hfirst other hother))
    have hupdate : ({} : Frame).update ⟨(name, value) :: entries⟩ =
        (({} : Frame).update ⟨entries⟩).insert name value := rfl
    rw [hupdate, ih hrest, Frame.insert, hwritten, hkept]

end Frame

namespace Env

theorem distinct_flatten (env : Env) : env.flatten.Distinct := by
  obtain ⟨frames⟩ := env
  induction frames with
  | nil => exact List.Pairwise.nil
  | cons f frames ih => exact ih.update f

theorem flatten_compact (env : Env) : env.compact.flatten = env.flatten :=
  env.distinct_flatten.empty_update

theorem lookup_congr {env env' : Env} (h : env.flatten = env'.flatten) (name : Name) :
    env.lookup name = env'.lookup name := by
  rw [← meaning_flatten, ← meaning_flatten, h]

end Env

/-! ### Interpreters -/

/-- Interpreters with the same settings whose environments flatten to the same map. -/
structure Interpreter.Alike (i i' : Interpreter) : Prop where
  env : i.env.flatten = i'.env.flatten
  context : i.context = i'.context

/-- Policies that differ at most in how environments are tidied, where neither way of tidying changes
what an environment flattens to. -/
structure Policy.Alike (policy policy' : Policy) : Prop where
  stack : policy.stack = policy'.stack
  steps : policy.steps = policy'.steps
  tidy : ∀ env, (policy.tidy env).flatten = env.flatten
  tidy' : ∀ env, (policy'.tidy env).flatten = env.flatten

namespace Interpreter.Alike

variable {i i' : Interpreter} {policy policy' : Policy}

theorem refl (i : Interpreter) : i.Alike i :=
  ⟨rfl, rfl⟩

theorem program (h : i.Alike i') (hp : policy.Alike policy') (e : Expr) :
    (i.program policy e).Alike (i'.program policy' e) := by
  unfold Interpreter.program
  rw [hp.stack, h.context]
  exact alike_eval policy'.stack i'.context e h.env

theorem define (h : i.Alike i') (hp : policy.Alike policy') (name : Name) (v : Value) :
    (i.define policy name v).Alike (i'.define policy' name v) := by
  have hbind : ∀ env : Env, (env.bind name v).flatten = env.flatten.insert name v := fun _ => rfl
  refine ⟨?_, h.context⟩
  simp only [Interpreter.define, hp.tidy, hp.tidy', hbind, h.env]

theorem installDemos (h : i.Alike i') (hp : policy.Alike policy') :
    (i.installDemos policy).Alike (i'.installDemos policy') := by
  unfold Interpreter.installDemos
  induction Definition.demos generalizing i i' with
  | nil => exact h
  | cons d definitions ih => exact ih (h.define hp d.name d.value)

theorem lookup_eq (h : i.Alike i') (name : Datum) : i.lookup name = i'.lookup name := by
  simp only [Interpreter.lookup, Env.lookup_congr h.env]

theorem conclude (h : i.Alike i') (hp : policy.Alike policy') {o o' : Except Failure Result}
    (ho : o.map Result.flatten = o'.map Result.flatten) :
    (i.conclude policy o).1.Alike (i'.conclude policy' o').1 ∧
      (i.conclude policy o).2 = (i'.conclude policy' o').2 := by
  cases o with
  | error e =>
    cases o' with
    | error e' => exact ⟨h, by rw [Except.error.inj ho]; rfl⟩
    | ok r' => cases ho
  | ok r =>
    cases o' with
    | error e' => cases ho
    | ok r' =>
      obtain ⟨hvalue, henv⟩ := Prod.mk.inj (Except.ok.inj ho)
      refine ⟨⟨?_, h.context⟩, congrArg Except.ok hvalue⟩
      simp only [Interpreter.conclude, hp.tidy, hp.tidy', henv]

theorem prepareDemo (h : i.Alike i') (hp : policy.Alike policy') (demos : List Demo)
    (name : Datum) (numbers : List Datum) :
    (i.prepareDemo policy demos name numbers).1.Alike
        (i'.prepareDemo policy' demos name numbers).1 ∧
      (i.prepareDemo policy demos name numbers).2 =
        (i'.prepareDemo policy' demos name numbers).2 := by
  unfold Interpreter.prepareDemo
  split
  · exact ⟨h, rfl⟩
  · exact ⟨h, rfl⟩
  · split
    · exact ⟨h, rfl⟩
    · exact ⟨h.installDemos hp, rfl⟩

end Interpreter.Alike

/-! ### Sessions -/

structure Session.Alike (s s' : Session) : Prop where
  context : s.context = s'.context
  demos : s.demos = s'.demos
  pool : s.pool.Alike s'.pool
  interpreters : List.Forall₂ (fun a b => a.1 = b.1 ∧ a.2.Alike b.2) s.interpreters s'.interpreters
  cells : s.cells = s'.cells
  waiters : s.waiters = s'.waiters
  made : s.made = s'.made

/-- A reply as it is seen from outside: bindings are shown without the number of their frames, a
result without the layers of its environment. -/
def Reply.shown : Reply → Reply
  | .bindings f _ => .bindings f true
  | .result r => .result ⟨r.value, r.env.compact⟩
  | reply => reply

structure Session.Answers (a a' : Session × Except Failure Reply) : Prop where
  session : a.1.Alike a'.1
  reply : a.2.map Reply.shown = a'.2.map Reply.shown

namespace Session.Alike

variable {s s' : Session} {policy policy' : Policy}

theorem refl (s : Session) : s.Alike s := by
  refine ⟨rfl, rfl, .refl s.pool, ?_, rfl, rfl, rfl⟩
  exact List.forall₂_same.2 fun entry _ => ⟨rfl, .refl entry.2⟩

theorem interpreter (h : s.Alike s') (name : Name) :
    (s.interpreter name).Alike (s'.interpreter name) := by
  have hlookup : ∀ {is is' : List (Name × Interpreter)},
      List.Forall₂ (fun a b => a.1 = b.1 ∧ a.2.Alike b.2) is is' →
      Option.Rel Interpreter.Alike (is.lookup name) (is'.lookup name) := by
    intro is is' hall
    induction hall with
    | nil => exact .none
    | @cons a b is is' hab hall ih =>
      obtain ⟨first, i⟩ := a
      obtain ⟨first', i'⟩ := b
      obtain ⟨rfl, hi⟩ := hab
      simp only [List.lookup_cons]
      split
      · exact .some hi
      · exact ih
  have hrel := hlookup h.interpreters
  unfold Session.interpreter
  rw [← h.context]
  generalize s.interpreters.lookup name = i at hrel ⊢
  generalize s'.interpreters.lookup name = i' at hrel ⊢
  cases hrel with
  | none => exact .refl _
  | some hi => exact hi

theorem setInterpreter {i i' : Interpreter} (h : s.Alike s') (name : Name) (hi : i.Alike i') :
    (s.setInterpreter name i).Alike (s'.setInterpreter name i') := by
  have hfilter : List.Forall₂ (fun a b => a.1 = b.1 ∧ a.2.Alike b.2)
      (s.interpreters.filter (·.1 != name)) (s'.interpreters.filter (·.1 != name)) := by
    refine List.rel_filter (fun a b hab => ?_) h.interpreters
    dsimp only
    rw [hab.1]
  exact ⟨h.context, h.demos, h.pool, .cons ⟨rfl, hi⟩ hfilter, h.cells, h.waiters, h.made⟩

theorem setPool {pool pool' : Pool} (h : s.Alike s') (hpool : pool.Alike pool') :
    ({ s with pool } : Session).Alike { s' with pool := pool' } :=
  ⟨h.context, h.demos, hpool, h.interpreters, h.cells, h.waiters, h.made⟩

theorem settle (h : s.Alike s') (hp : policy.Alike policy') :
    (s.settle policy).Alike (s'.settle policy') := by
  unfold Session.settle
  rw [hp.stack, hp.steps]
  exact h.setPool (h.pool.settle policy'.stack policy'.steps)

theorem cellId_eq (h : s.Alike s') (name : Name) : s.cellId name = s'.cellId name := by
  rw [Session.cellId, Session.cellId, h.cells]

theorem nameCell (h : s.Alike s') (name : Name) (id : CellId) :
    (s.nameCell name id).Alike (s'.nameCell name id) :=
  ⟨h.context, h.demos, h.pool, h.interpreters, by rw [Session.nameCell, Session.nameCell, h.cells],
    h.waiters, h.made⟩

theorem mention (h : s.Alike s') (name : Name) : (s.mention name).Alike (s'.mention name) := by
  unfold Session.mention
  rw [h.cellId_eq]
  exact h.nameCell name _

theorem mentionCell (h : s.Alike s') (c : Command) :
    (c.cell?.elim s s.mention).Alike (c.cell?.elim s' s'.mention) := by
  cases c.cell? with
  | none => exact h
  | some name => exact h.mention name

theorem cell_eq (h : s.Alike s') (name : Name) : s.cell name = s'.cell name := by
  rw [Session.cell, Session.cell, h.cellId_eq, h.pool.system.cell]

theorem view_eq (h : s.Alike s') : s.pool.system.view = s'.pool.system.view := by
  funext id
  rw [System.view, System.view, h.pool.system.cell]

theorem state_eq (h : s.Alike s') (name : Name) : s.state name = s'.state name := by
  rw [Session.state, Session.state, h.view_eq, h.cellId_eq]

theorem setCell (h : s.Alike s') (id : CellId) (c : Cell) :
    (s.setCell id c).Alike (s'.setCell id c) :=
  h.setPool (h.pool.setCell id c)

theorem makeCell (h : s.Alike s') (name : Name) (label : Datum) :
    (s.makeCell name label).1.Alike (s'.makeCell name label).1 := by
  unfold Session.makeCell
  dsimp only
  rw [← h.made]
  refine Alike.setCell (Alike.nameCell ?_ name _) _ _
  exact ⟨h.context, h.demos, h.pool, h.interpreters, h.cells, h.waiters, rfl⟩

theorem addHelper {t t' : Thread} (h : s.Alike s') (ht : t.Alike t') :
    (s.addHelper t).1.Alike (s'.addHelper t').1 ∧ (s.addHelper t).2 = (s'.addHelper t').2 := by
  unfold Session.addHelper
  dsimp only
  rw [← h.made]
  exact ⟨⟨h.context, h.demos, h.pool.add ht, h.interpreters, h.cells, h.waiters, rfl⟩, rfl⟩

/-- Where the main thread runs alike programs, and its results are taken in alike, the answers are
alike. -/
theorem runMain {p p' : Prog Work Result}
    {reply reply' : Session → Except Failure Result → Session × Except Failure Reply}
    (h : s.Alike s') (hp : policy.Alike policy') (hprog : p.Alike p')
    (hreply : ∀ s s' o o', s.Alike s' → o.map Result.flatten = o'.map Result.flatten →
      Answers (reply s o) (reply' s' o')) :
    Answers (s.runMain policy p reply) (s'.runMain policy' p' reply') := by
  have hrun := h.pool.runMain hprog policy.stack policy.steps
  unfold Session.runMain
  rw [← hp.stack, ← hp.steps]
  generalize s.pool.runMain policy.stack policy.steps p = a at hrun ⊢
  generalize s'.pool.runMain policy.stack policy.steps p' = a' at hrun ⊢
  obtain ⟨pool, o⟩ := a
  obtain ⟨pool', o'⟩ := a'
  obtain ⟨hpool, ho⟩ := hrun
  cases o with
  | none =>
    cases o' with
    | none => exact ⟨h.setPool hpool, rfl⟩
    | some o' => cases ho
  | some o =>
    cases o' with
    | none => cases ho
    | some o' => exact hreply _ _ o o' (h.setPool hpool) (Option.some.inj ho)

theorem replyValue (h : s.Alike s') {o o' : Except Failure Result}
    (ho : o.map Result.flatten = o'.map Result.flatten) :
    Answers (s.replyValue o) (s'.replyValue o') := by
  cases o with
  | error e =>
    cases o' with
    | error e' => exact ⟨h, congrArg Except.error (Except.error.inj ho)⟩
    | ok r' => cases ho
  | ok r =>
    cases o' with
    | error e' => cases ho
    | ok r' =>
      have hvalue := (Prod.mk.inj (Except.ok.inj ho)).1
      exact ⟨h, congrArg (fun v => Except.ok (Reply.value v)) hvalue⟩

theorem eval (h : s.Alike s') (hp : policy.Alike policy') (on : Name) (e : Expr) :
    Answers (s.eval policy on e) (s'.eval policy' on e) := by
  have hi := h.interpreter on
  unfold Session.eval
  refine h.runMain hp (hi.program hp e) fun s s' o o' hs ho => ?_
  obtain ⟨hinterpreter, hanswer⟩ := hi.conclude hp ho
  refine ⟨hs.setInterpreter on hinterpreter, ?_⟩
  dsimp only
  rw [hanswer]

theorem settleState (h : s.Alike s') (hp : policy.Alike policy') (name : Name)
    (reply : CellState → Reply) :
    Answers (s.settleState policy name reply) (s'.settleState policy' name reply) := by
  have hsettled := h.settle hp
  refine ⟨hsettled, ?_⟩
  unfold Session.settleState
  dsimp only
  rw [hsettled.state_eq]

end Session.Alike

/-- The commands that hand over no work from outside: those to interpreters and those to cells. -/
def Command.Plain : Command → Prop
  | .spawnTask _ _ _ _ | .message _ _ _ _ | .run _ => False
  | _ => True

namespace Session.Alike

variable {s s' : Session} {policy policy' : Policy}

theorem perform (h : s.Alike s') (hp : policy.Alike policy') (on : Name) {c : Command}
    (hc : c.Plain) : Answers (s.perform policy on c) (s'.perform policy' on c) := by
  have hi := h.interpreter on
  cases c with
  | eval e => exact h.eval hp on e
  | define name v =>
    dsimp only [Session.perform]
    split
    · exact ⟨h.setInterpreter on (hi.define hp _ v), rfl⟩
    · exact ⟨h, rfl⟩
  | defineFunction name params body =>
    dsimp only [Session.perform, Session.defineFunction]
    split
    · exact ⟨h.setInterpreter on (hi.define hp _ _), rfl⟩
    · exact ⟨h, rfl⟩
  | lookup name => exact ⟨h, by simp only [Session.perform, hi.lookup_eq]⟩
  | bindings =>
    refine ⟨h, ?_⟩
    have hbindings : (s.interpreter on).bindings = (s'.interpreter on).bindings := hi.env
    simp only [Session.perform, Except.map, Reply.shown, hbindings]
  | compare x y => exact ⟨h, by simp only [Session.perform, hi.lookup_eq, hp.stack]⟩
  | unwrap name => exact ⟨h, by simp only [Session.perform, hi.lookup_eq, hp.stack, h.view_eq]⟩
  | sync name =>
    dsimp only [Session.perform]
    rw [← hi.lookup_eq]
    split
    · exact ⟨h, rfl⟩
    · exact h.runMain hp (.refl _) fun s s' o o' hs ho => hs.replyValue ho
  | installDemos => exact ⟨h.setInterpreter on (hi.installDemos hp), rfl⟩
  | runDemo demo numbers =>
    obtain ⟨hprepared, hprogram⟩ := hi.prepareDemo hp s.demos demo numbers
    have hset := h.setInterpreter on hprepared
    dsimp only [Session.perform]
    rw [← h.demos, ← hprogram]
    split
    · exact ⟨hset, rfl⟩
    · exact hset.eval hp on _
  | newCell name label => exact (h.makeCell name label).settleState hp name .state
  | write name o =>
    dsimp only [Session.perform]
    rw [← h.cell_eq, ← h.cellId_eq]
    split
    · exact (h.setCell _ _).settleState hp name .state
    · exact ⟨h, rfl⟩
  | claim name =>
    dsimp only [Session.perform]
    rw [← h.cellId_eq]
    exact h.runMain hp (.refl _) fun s s' o o' hs ho => hs.replyValue ho
  | claimLater name waiter =>
    have hrest : (Thread.mk (.take (s.cellId name)) 0 none none []).Alike
        ⟨.take (s'.cellId name), 0, none, none, []⟩ := by
      rw [h.cellId_eq]
      exact .refl _
    obtain ⟨hadded, hid⟩ := h.addHelper hrest
    dsimp only [Session.perform]
    rw [← hid]
    refine settleState ?_ hp name .state
    exact ⟨hadded.context, hadded.demos, hadded.pool, hadded.interpreters, hadded.cells,
      congrArg (_ :: ·) hadded.waiters, hadded.made⟩
  | join waiter =>
    dsimp only [Session.perform]
    rw [← h.waiters]
    split
    · exact ⟨h, rfl⟩
    · rename_i id _
      have hended := h.pool.system.ended?_eq id
      generalize (s.pool.system.thread id).bind (·.rest.ended?) = o at hended ⊢
      generalize (s'.pool.system.thread id).bind (·.rest.ended?) = o' at hended ⊢
      cases o with
      | none =>
        cases o' with
        | none => exact ⟨h, rfl⟩
        | some o' => cases hended
      | some o =>
        cases o' with
        | none => cases hended
        | some o' => exact h.replyValue (Option.some.inj hended)
  | state name => exact h.settleState hp name .state
  | describe name => exact ⟨h, by simp only [Session.perform, h.cell_eq]⟩
  | spawnTask | message | run => exact hc.elim

end Session.Alike

/-! ### Whole sessions -/

namespace Session

/-- An evaluation of the main thread during which some threads are served out of turn first. -/
def evalAmid (order : List ThreadId) (policy : Policy) (s : Session) (on : Name) (e : Expr) :
    Session × Except Failure Reply :=
  let i := s.interpreter on
  let pool := (s.pool.startMain (i.program policy e)).serve policy.stack order
  let pool := pool.runUntilOver policy.stack policy.steps .main
  match pool.main.rest.ended? with
  | none => ({ s with pool }, .ok .blocked)
  | some o =>
    let (i, answer) := i.conclude policy o
    (({ s with pool } : Session).setInterpreter on i, answer.map .value)

def performAmid (order : List ThreadId) (policy : Policy) (s : Session) (on : Name) :
    Command → Session × Except Failure Reply
  | .eval e => s.evalAmid order policy on e
  | .runDemo demo numbers =>
    let (i, program) := (s.interpreter on).prepareDemo policy s.demos demo numbers
    let s := s.setInterpreter on i
    match program with
    | .error e => (s, .error e)
    | .ok e => s.evalAmid order policy on e
  | c => s.perform policy on c

/-- A command to an interpreter, the threads that are served out of turn before it and while it is
evaluated, and the number of turns that are then taken in turn before it is answered. -/
structure Request where
  on : Name
  command : Command
  before : List ThreadId := []
  during : List ThreadId := []
  turns : Nat := 1000000000000

def request (stack : Stack) (tidy : Env → Env) (s : Session) (r : Request) :
    Session × Except Failure Reply :=
  let policy : Policy := ⟨stack, r.turns, tidy⟩
  let s : Session := { s with pool := s.pool.serve stack r.before }
  let s := r.command.cell?.elim s s.mention
  let (s, reply) := s.performAmid r.during policy r.on r.command
  (s.settle policy, reply)

/-- The replies to a list of requests, and the session after them. -/
def serve (stack : Stack) (tidy : Env → Env) :
    Session → List Request → List (Except Failure Reply) × Session
  | s, [] => ([], s)
  | s, r :: rs =>
    let (next, reply) := s.request stack tidy r
    let (replies, last) := next.serve stack tidy rs
    (reply :: replies, last)

/-- Where no thread is served out of turn, a request is a step of the session. -/
theorem request_eq_step (stack : Stack) (tidy : Env → Env) (s : Session) (on : Name) (c : Command)
    (turns : Nat) :
    s.request stack tidy ⟨on, c, [], [], turns⟩ = s.step ⟨stack, turns, tidy⟩ on c := by
  cases c <;> rfl

end Session

namespace Session.Alike

variable {s s' : Session} {policy policy' : Policy}

theorem evalAmid (h : s.Alike s') (hp : policy.Alike policy') (order : List ThreadId) (on : Name)
    (e : Expr) : Answers (s.evalAmid order policy on e) (s'.evalAmid order policy' on e) := by
  have hi := h.interpreter on
  have hpool := ((h.pool.startMain (hi.program hp e)).serve policy.stack order).runUntilOver
    policy.stack policy.steps .main
  have hended := hpool.main.ended?_eq
  unfold Session.evalAmid
  dsimp only
  rw [← hp.stack, ← hp.steps]
  generalize Pool.runUntilOver _ _ _ (Pool.serve _ (s.pool.startMain _) _) = pool at hpool hended ⊢
  generalize Pool.runUntilOver _ _ _ (Pool.serve _ (s'.pool.startMain _) _) = pool'
    at hpool hended ⊢
  generalize pool.main.rest.ended? = o at hended ⊢
  generalize pool'.main.rest.ended? = o' at hended ⊢
  cases o with
  | none =>
    cases o' with
    | none => exact ⟨h.setPool hpool, rfl⟩
    | some o' => cases hended
  | some o =>
    cases o' with
    | none => cases hended
    | some o' =>
      obtain ⟨hinterpreter, hanswer⟩ := hi.conclude hp (Option.some.inj hended)
      refine ⟨(h.setPool hpool).setInterpreter on hinterpreter, ?_⟩
      dsimp only
      rw [hanswer]

theorem performAmid (h : s.Alike s') (hp : policy.Alike policy') (order : List ThreadId)
    (on : Name) {c : Command} (hc : c.Plain) :
    Answers (s.performAmid order policy on c) (s'.performAmid order policy' on c) := by
  cases c with
  | eval e => exact h.evalAmid hp order on e
  | runDemo demo numbers =>
    obtain ⟨hprepared, hprogram⟩ := (h.interpreter on).prepareDemo hp s.demos demo numbers
    have hset := h.setInterpreter on hprepared
    dsimp only [Session.performAmid]
    rw [← h.demos, ← hprogram]
    split
    · exact ⟨hset, rfl⟩
    · exact hset.evalAmid hp order on _
  | spawnTask | message | run => exact hc.elim
  | _ => exact h.perform hp on hc

theorem request {tidy tidy' : Env → Env} (h : s.Alike s') (stack : Stack)
    (htidy : ∀ env, (tidy env).flatten = env.flatten)
    (htidy' : ∀ env, (tidy' env).flatten = env.flatten) {r : Session.Request}
    (hr : r.command.Plain) : Answers (s.request stack tidy r) (s'.request stack tidy' r) := by
  have hp : Policy.Alike ⟨stack, r.turns, tidy⟩ ⟨stack, r.turns, tidy'⟩ :=
    ⟨rfl, rfl, htidy, htidy'⟩
  have hserved := h.setPool (h.pool.serve stack r.before)
  have hperformed := (hserved.mentionCell r.command).performAmid hp r.during r.on hr
  exact ⟨hperformed.session.settle hp, hperformed.reply⟩

theorem serve {tidy tidy' : Env → Env} (h : s.Alike s') (stack : Stack)
    (htidy : ∀ env, (tidy env).flatten = env.flatten)
    (htidy' : ∀ env, (tidy' env).flatten = env.flatten) {rs : List Session.Request}
    (hrs : ∀ r ∈ rs, r.command.Plain) :
    (s.serve stack tidy rs).1.map (Except.map Reply.shown) =
        (s'.serve stack tidy' rs).1.map (Except.map Reply.shown) ∧
      (s.serve stack tidy rs).2.Alike (s'.serve stack tidy' rs).2 := by
  induction rs generalizing s s' with
  | nil => exact ⟨rfl, h⟩
  | cons r rs ih =>
    obtain ⟨hr, hrs⟩ := List.forall_mem_cons.1 hrs
    have hanswer := h.request stack htidy htidy' hr
    obtain ⟨hreplies, hlast⟩ := ih hanswer.session hrs
    exact ⟨congrArg₂ List.cons hanswer.reply hreplies, hlast⟩

end Session.Alike

/-- **Compaction does not show.** Take any session, any list of commands to its interpreters and its
cells, and any order in which the threads are served before, during and after each command, all of
them or only some. If every interpreter compacts its environment, or every one leaves its chain as it
grows, the replies are the same, each interpreter shows the same bindings after them, and each thread
has ended with the same outcome, or has not ended either way. -/
theorem Session.compaction_unobservable (stack : Stack) (s : Session) {rs : List Session.Request}
    (hrs : ∀ r ∈ rs, r.command.Plain) :
    (s.serve stack Env.compact rs).1.map (Except.map Reply.shown) =
        (s.serve stack id rs).1.map (Except.map Reply.shown) ∧
      (∀ name, ((s.serve stack Env.compact rs).2.interpreter name).bindings =
        ((s.serve stack id rs).2.interpreter name).bindings) ∧
      ∀ thread, ((s.serve stack Env.compact rs).2.pool.system.thread thread).bind Thread.outcome? =
        ((s.serve stack id rs).2.pool.system.thread thread).bind Thread.outcome? := by
  obtain ⟨hreplies, hlast⟩ :=
    (Alike.refl s).serve stack Env.flatten_compact (fun _ => rfl) hrs
  exact ⟨hreplies, fun name => (hlast.interpreter name).env,
    fun thread => hlast.pool.system.outcome?_eq thread⟩

/-- A binding that shadows another one, a task that waits for a cell from outside, and the write that
it waits for. -/
theorem Session.compaction_unobservable_blocked_task :
    let rs : List Session.Request :=
      [{ on := "i", command := .define "x" (.future (.external "c" 0)) },
       { on := "i", command := .eval (.letIn "y" (.spawn (.sync (.var "x"))) (.lit (.int 1))) },
       { on := "i", command := .define "x" (.int 2), before := [.child .main 1] },
       { on := "i", command := .write "c" (.ok (.int 7)) },
       { on := "i", command := .eval (.sync (.var "y")) },
       { on := "i", command := .bindings }]
    (∀ r ∈ rs, r.command.Plain) ∧
      ((Session.serve ⟨9, none⟩ Env.compact {} rs).1.map (Except.map Reply.shown) =
        (Session.serve ⟨9, none⟩ id {} rs).1.map (Except.map Reply.shown)) := by
  intro rs
  have hrs : ∀ r ∈ rs, r.command.Plain := by
    simp [rs, Command.Plain]
  exact ⟨hrs, (Session.compaction_unobservable ⟨9, none⟩ {} hrs).1⟩

end ForkJoin

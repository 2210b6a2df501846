import ForkJoin.Proofs.Session.Interpreters

/-!
# Stages of a session

A session answers one command after another and serves its threads in between. Here it is taken
apart into events: a thread makes a step, the main thread is given something to do, an interpreter
defines a name or takes in what the main thread has ended with, and the outside makes a cell, writes
to one or claims one. Events may come in any order. What a stage has of a session is what events act
on, its threads and cells and its interpreters, and not the books that it keeps on turns and names.

Whatever is asked of a session, its stage goes through a run of events (`Session.exists_run_serve`).
So what holds for all runs of events holds for all sessions, however their threads are served.
-/

namespace ForkJoin

/-- The threads and cells of a session, and its interpreters by name. -/
structure Stage where
  system : System
  interpreter : Name → Interpreter

inductive Event where
  | step (id : ThreadId)
  /-- The main thread starts to evaluate an expression with an interpreter. -/
  | evaluate (on : Name) (e : Expr)
  /-- The main thread starts to wait for a future. -/
  | sync (v : Value)
  /-- An interpreter takes in what the main thread has ended with. -/
  | conclude (on : Name)
  | define (on name : Name) (v : Value)
  | make (name : Name) (generation : Nat) (label : Datum)
  | write (name : Name) (generation : Nat) (o : Outcome)
  /-- A thread from outside is started, which claims a cell. -/
  | claimLater (n : Nat) (x : CellId)

namespace Stage

def start (s : Stage) (p : Prog Work Result) : Stage :=
  { s with
    system := s.system.setThread .main { (s.system.thread .main).getD .idle with rest := p } }

def setInterpreter (s : Stage) (on : Name) (i : Interpreter) : Stage :=
  { s with interpreter := fun name => if name = on then i else s.interpreter name }

/-- What an event makes of a stage, if it can happen there. -/
def next (stack : Stack) (tidy : Env → Env) (s : Stage) : Event → Option Stage
  | .step id => (s.system.step stack id).map fun system => { s with system }
  | .evaluate on e => some (s.start ((s.interpreter on).program { stack, tidy } e))
  | .sync v => some (s.start (do return .ofValue (← syncValue v)))
  | .conclude on => (s.system.ended? .main).map fun o =>
    s.setInterpreter on ((s.interpreter on).conclude { stack, tidy } o).1
  | .define on name v =>
    some (s.setInterpreter on ((s.interpreter on).define { stack, tidy } name v))
  | .make name generation label =>
    if (s.system.cell (.external name generation)).isSome then none
    else some { s with system := s.system.setCell (.external name generation) { label } }
  | .write name generation o => do
    let c ← s.system.cell (.external name generation)
    let c ← (c.write o).toOption
    return { s with system := s.system.setCell (.external name generation) c }
  | .claimLater n x =>
    if (s.system.thread (.helper n)).isSome then none
    else some { s with system := s.system.setThread (.helper n) { rest := .take x } }

/-- A run: the events of a list happen one after another. -/
def run (stack : Stack) (tidy : Env → Env) : Stage → List Event → Option Stage
  | s, [] => some s
  | s, ev :: evs => (s.next stack tidy ev).bind (·.run stack tidy evs)

def fresh (ctx : Context) : Stage where
  system := .initial
  interpreter _ := { context := ctx }

variable {stack : Stack} {tidy : Env → Env} {s s' s'' : Stage} {ev : Event} {evs more : List Event}

@[simp] theorem run_nil (s : Stage) : s.run stack tidy [] = some s := rfl

theorem run_cons_eq_some_iff : s.run stack tidy (ev :: evs) = some s' ↔
    ∃ mid, s.next stack tidy ev = some mid ∧ mid.run stack tidy evs = some s' :=
  Option.bind_eq_some_iff

theorem run_append_eq_some_iff : s.run stack tidy (evs ++ more) = some s'' ↔
    ∃ s', s.run stack tidy evs = some s' ∧ s'.run stack tidy more = some s'' := by
  induction evs generalizing s with
  | nil => simp
  | cons ev evs ih =>
    simp only [List.cons_append, run_cons_eq_some_iff, ih]
    constructor
    · rintro ⟨mid, hnext, s', hrun, hmore⟩
      exact ⟨s', ⟨mid, hnext, hrun⟩, hmore⟩
    · rintro ⟨s', ⟨mid, hnext, hrun⟩, hmore⟩
      exact ⟨mid, hnext, s', hrun, hmore⟩

theorem run_concat_eq_some_iff : s.run stack tidy (evs ++ [ev]) = some s'' ↔
    ∃ s', s.run stack tidy evs = some s' ∧ s'.next stack tidy ev = some s'' := by
  simp [run_append_eq_some_iff, run_cons_eq_some_iff]

theorem run_steps {ids : List ThreadId} {system : System}
    (h : s.system.run stack ids = some system) :
    s.run stack tidy (ids.map .step) = some { s with system } := by
  induction ids generalizing s with
  | nil =>
    cases h
    rfl
  | cons id ids ih =>
    obtain ⟨mid, hstep, hrest⟩ := System.run_cons_eq_some_iff.1 h
    refine run_cons_eq_some_iff.2 ⟨{ s with system := mid }, ?_, ih hrest⟩
    simp [next, hstep]

def Reaches (stack : Stack) (tidy : Env → Env) (s s' : Stage) : Prop :=
  ∃ evs, s.run stack tidy evs = some s'

theorem Reaches.refl (s : Stage) : s.Reaches stack tidy s :=
  ⟨[], rfl⟩

theorem Reaches.trans (h : s.Reaches stack tidy s') (h' : s'.Reaches stack tidy s'') :
    s.Reaches stack tidy s'' := by
  obtain ⟨evs, hrun⟩ := h
  obtain ⟨more, hmore⟩ := h'
  exact ⟨evs ++ more, run_append_eq_some_iff.2 ⟨s', hrun, hmore⟩⟩

theorem reaches_of_next (ev : Event) (h : s.next stack tidy ev = some s') :
    s.Reaches stack tidy s' :=
  ⟨[ev], run_cons_eq_some_iff.2 ⟨s', h, rfl⟩⟩

theorem setInterpreter_self (s : Stage) (on : Name) :
    s.setInterpreter on (s.interpreter on) = s := by
  refine congrArg (Stage.mk s.system) (funext fun name => ?_)
  split
  · rename_i hname
    rw [hname]
  · rfl

theorem setInterpreter_setInterpreter (s : Stage) (on : Name) (i i' : Interpreter) :
    (s.setInterpreter on i).setInterpreter on i' = s.setInterpreter on i' := by
  refine congrArg (Stage.mk s.system) (funext fun name => ?_)
  dsimp only [setInterpreter]
  split <;> rfl

theorem reaches_install (steps : Nat) (ds : List Definition) (s : Stage) (on : Name) :
    s.Reaches stack tidy
      (s.setInterpreter on (ds.foldl (.install ⟨stack, steps, tidy⟩) (s.interpreter on))) := by
  induction ds generalizing s with
  | nil =>
    rw [List.foldl_nil, setInterpreter_self]
    exact .refl s
  | cons d ds ih =>
    let i := (s.interpreter on).install ⟨stack, steps, tidy⟩ d
    have hrest := ih (s.setInterpreter on i)
    rw [setInterpreter_setInterpreter] at hrest
    have hon : (s.setInterpreter on i).interpreter on = i := if_pos rfl
    rw [hon] at hrest
    exact (reaches_of_next (.define on d.name d.value) rfl).trans hrest

end Stage

/-! ### Sessions as stages -/

namespace Session

def stage (s : Session) : Stage where
  system := s.pool.system
  interpreter := s.interpreter

theorem stage_mention (s : Session) (c : Command) : (c.cell?.elim s s.mention).stage = s.stage := by
  cases c.cell? <;> rfl

theorem stage_setInterpreter (s : Session) (on : Name) (i : Interpreter) :
    (s.setInterpreter on i).stage = s.stage.setInterpreter on i := by
  unfold stage Stage.setInterpreter
  exact congrArg _ (funext fun name => interpreter_setInterpreter s on name i)

end Session

/-- Systems with the same cells and the same threads from outside. -/
structure System.SameOutside (s s' : System) : Prop where
  cell : ∀ name generation, (s'.cell (.external name generation)).isSome =
    (s.cell (.external name generation)).isSome
  helper : ∀ n, (s'.thread (.helper n)).isSome = (s.thread (.helper n)).isSome

namespace System.SameOutside

variable {stack : Stack} {s s' s'' : System} {id : ThreadId}

theorem refl (s : System) : s.SameOutside s :=
  ⟨fun _ _ => rfl, fun _ => rfl⟩

theorem trans (h : s.SameOutside s') (h' : s'.SameOutside s'') : s.SameOutside s'' :=
  ⟨fun name generation => (h'.cell name generation).trans (h.cell name generation),
    fun n => (h'.helper n).trans (h.helper n)⟩

theorem of_step (h : s.step stack id = some s') : s.SameOutside s' := by
  obtain ⟨t, m, ht, hm, rfl⟩ := step_eq_some_iff.1 h
  constructor
  · intro name generation
    cases hchange : m.change with
    | keep => simp [after, hchange, Change.on]
    | take x | put x o =>
      by_cases hx : CellId.external name generation = x
      · simp [after, hchange, Change.on, hx]
      · simp [after, hchange, Change.on, hx]
    | make x label =>
      have hx : CellId.external name generation ≠ x := by
        rw [(hm.of_make hchange).1]
        simp
      simp [after, hchange, Change.on, hx]
  · intro n
    by_cases hid : ThreadId.helper n = id
    · subst hid
      simp [after, ht]
    · have hstarted : m.started? (.helper n) = none := hm.started?_eq_none (by simp)
      simp [after, hid, hstarted]

theorem of_run {ids : List ThreadId} (h : s.run stack ids = some s') : s.SameOutside s' :=
  run_induction (P := s.SameOutside) (fun _ _ _ hsame hstep => hsame.trans (of_step hstep))
    (.refl s) h

theorem setMain (s : System) (t : Thread) : s.SameOutside (s.setThread .main t) :=
  ⟨fun _ _ => rfl, fun _ => rfl⟩

theorem setCell {x : CellId} (hx : (s.cell x).isSome) (c : Cell) :
    s.SameOutside (s.setCell x c) := by
  refine ⟨fun name generation => ?_, fun _ => rfl⟩
  rw [cell_setCell]
  split
  · rename_i heq
    rw [heq, hx]
    rfl
  · rfl

end System.SameOutside

/-! ### Books -/

namespace Session

/-- A session that has its books in order: named cells are cells from outside and are there, and
what will be made next is new. -/
structure Booked (s : Session) : Prop where
  named : ∀ name x, s.cells.lookup name = some x →
    ∃ outer generation, x = .external outer generation ∧ (s.pool.system.cell x).isSome
  first : ∀ name, (s.pool.system.cell (.external name 0)).isSome
  newCell : ∀ name generation, s.made < generation →
    (s.pool.system.cell (.external name generation)).isSome = false
  newHelper : ∀ n, s.made < n → (s.pool.system.thread (.helper n)).isSome = false

namespace Booked

variable {s s' : Session}

theorem new (ctx : Context) (demos : List Demo) :
    ({ context := ctx, demos } : Session).Booked where
  named name x h := by cases h
  first name := rfl
  newCell name generation h := by
    cases generation with
    | zero => exact absurd h (Nat.lt_irrefl 0)
    | succ n => rfl
  newHelper n h := rfl

theorem cellId (h : s.Booked) (name : Name) : ∃ outer generation,
    s.cellId name = .external outer generation ∧ (s.pool.system.cell (s.cellId name)).isSome := by
  unfold Session.cellId
  cases hlookup : s.cells.lookup name.key with
  | none => exact ⟨name, 0, rfl, h.first name⟩
  | some x => exact h.named name.key x hlookup

theorem of_same (h : s.Booked) (hsame : s.pool.system.SameOutside s'.pool.system)
    (hcells : s'.cells = s.cells) (hmade : s'.made = s.made) : s'.Booked where
  named name x hlookup := by
    rw [hcells] at hlookup
    obtain ⟨outer, generation, rfl, hx⟩ := h.named name x hlookup
    exact ⟨outer, generation, rfl, (hsame.cell outer generation).trans hx⟩
  first name := (hsame.cell name 0).trans (h.first name)
  newCell name generation hlt :=
    (hsame.cell name generation).trans (h.newCell name generation (hmade ▸ hlt))
  newHelper n hlt := (hsame.helper n).trans (h.newHelper n (hmade ▸ hlt))

theorem nameCell (h : s.Booked) {name : Name} {x : CellId} (hx : ∃ outer generation,
    x = .external outer generation ∧ (s.pool.system.cell x).isSome) :
    (s.nameCell name x).Booked := by
  refine ⟨fun other y hlookup => ?_, h.first, h.newCell, h.newHelper⟩
  have hfilter : ∀ entries : List (Name × CellId), other ≠ name.key →
      (entries.filter (·.1 != name.key)).lookup other = entries.lookup other := by
    intro entries hother
    induction entries with
    | nil => rfl
    | cons entry rest ih =>
      obtain ⟨first, z⟩ := entry
      by_cases hfirst : first = name.key
      · subst hfirst
        simp [List.lookup_cons, beq_false_of_ne hother, ih]
      · simp [hfirst, List.lookup_cons, ih]
  simp only [Session.nameCell, List.lookup_cons] at hlookup
  split at hlookup
  · cases hlookup
    exact hx
  · rename_i hother
    rw [hfilter s.cells fun heq => by simp [heq] at hother] at hlookup
    exact h.named other y hlookup

end Booked

/-! ### Commands as runs of events -/

/-- A session that keeps its books in order comes to another one, whose books are in order as well,
by a run of events. -/
def Comes (stack : Stack) (tidy : Env → Env) (s s' : Session) : Prop :=
  s.Booked → s'.Booked ∧ s.stage.Reaches stack tidy s'.stage

variable {stack : Stack} {tidy : Env → Env} {steps : Nat} {s s' s'' : Session} {on : Name}

theorem Comes.refl (s : Session) : s.Comes stack tidy s :=
  fun hs => ⟨hs, .refl s.stage⟩

theorem Comes.trans (h : s.Comes stack tidy s') (h' : s'.Comes stack tidy s'') :
    s.Comes stack tidy s'' := by
  intro hs
  obtain ⟨hs', hreaches⟩ := h hs
  obtain ⟨hs'', hreaches'⟩ := h' hs'
  exact ⟨hs'', hreaches.trans hreaches'⟩

theorem comes_of_runs {pool : Pool} (h : s.pool.Runs stack pool) :
    s.Comes stack tidy { s with pool } := by
  obtain ⟨ids, hrun⟩ := h
  exact fun hs => ⟨hs.of_same (.of_run hrun) rfl rfl, ids.map .step, Stage.run_steps hrun⟩

theorem comes_settle (policy : Policy) (s : Session) :
    s.Comes policy.stack tidy (s.settle policy) :=
  comes_of_runs (s.pool.runs_settle policy.steps)

theorem comes_mention (c : Command) : s.Comes stack tidy (c.cell?.elim s s.mention) := by
  intro hs
  rw [stage_mention]
  refine ⟨?_, .refl s.stage⟩
  cases c.cell? with
  | none => exact hs
  | some name => exact hs.nameCell (hs.cellId name)

theorem comes_setInterpreter {i : Interpreter} (ev : Event)
    (h : s.stage.next stack tidy ev = some (s.stage.setInterpreter on i)) :
    s.Comes stack tidy (s.setInterpreter on i) := by
  intro hs
  refine ⟨⟨hs.named, hs.first, hs.newCell, hs.newHelper⟩, ?_⟩
  rw [stage_setInterpreter]
  exact Stage.reaches_of_next ev h

theorem comes_define (name : Name) (v : Value) :
    s.Comes stack tidy
      (s.setInterpreter on ((s.interpreter on).define ⟨stack, steps, tidy⟩ name v)) :=
  comes_setInterpreter (.define on name v) rfl

theorem comes_installDemos :
    s.Comes stack tidy
      (s.setInterpreter on ((s.interpreter on).installDemos ⟨stack, steps, tidy⟩)) := by
  intro hs
  refine ⟨⟨hs.named, hs.first, hs.newCell, hs.newHelper⟩, ?_⟩
  rw [stage_setInterpreter]
  exact Stage.reaches_install steps Definition.demos s.stage on

theorem comes_prepareDemo (steps : Nat) (s : Session) (on : Name) (demo : Datum)
    (numbers : List Datum) :
    s.Comes stack tidy (s.setInterpreter on
      ((s.interpreter on).prepareDemo ⟨stack, steps, tidy⟩ s.demos demo numbers).1) := by
  rcases prepareDemo_cases ⟨stack, steps, tidy⟩ s.demos (s.interpreter on) demo numbers with
    ⟨hsame, -⟩ | ⟨hinstalled, -⟩
  · intro hs
    refine ⟨⟨hs.named, hs.first, hs.newCell, hs.newHelper⟩, ?_⟩
    rw [stage_setInterpreter, hsame]
    exact (s.stage.setInterpreter_self on).symm ▸ .refl s.stage
  · rw [hinstalled]
    exact comes_installDemos

theorem stage_startMain (s : Session) (p : Prog Work Result) :
    ({ s with pool := s.pool.startMain p } : Session).stage = s.stage.start p := by
  have hmain : (s.pool.system.thread .main).getD .idle = s.pool.main := by
    rw [s.pool.thread_main]
    rfl
  unfold stage Stage.start
  dsimp only
  rw [hmain, Pool.startMain_system]
  rfl

theorem comes_startMain {p : Prog Work Result} (ev : Event)
    (h : s.stage.next stack tidy ev = some (s.stage.start p)) :
    s.Comes stack tidy { s with pool := s.pool.startMain p } := by
  intro hs
  refine ⟨hs.of_same ?_ rfl rfl, ?_⟩
  · dsimp only
    rw [Pool.startMain_system]
    exact .setMain _ _
  · rw [stage_startMain]
    exact Stage.reaches_of_next ev h

theorem comes_conclude {o : Except Failure Result} (ho : s.pool.main.rest.ended? = some o) :
    s.Comes stack tidy
      (s.setInterpreter on ((s.interpreter on).conclude ⟨stack, steps, tidy⟩ o).1) := by
  refine comes_setInterpreter (.conclude on) ?_
  have hended : s.stage.system.ended? .main = some o := (s.pool.ended?_main).trans ho
  simp only [Stage.next, hended]
  rfl

/-- An evaluation is started, threads make steps, and what it has ended with is taken in. -/
theorem comes_evalAmid (order : List ThreadId) (e : Expr) :
    s.Comes stack tidy (s.evalAmid order ⟨stack, steps, tidy⟩ on e).1 := by
  let policy : Policy := ⟨stack, steps, tidy⟩
  let p := s.pool.startMain ((s.interpreter on).program policy e)
  let p' := (p.serve stack order).runUntilOver stack steps .main
  have hstart : s.Comes stack tidy { s with pool := p } :=
    comes_startMain (.evaluate on e) rfl
  have hruns : ({ s with pool := p } : Session).Comes stack tidy { s with pool := p' } :=
    comes_of_runs ((p.runs_serve order).trans (Pool.runs_runUntilOver _ steps .main))
  have ha : s.evalAmid order policy on e = p'.main.rest.ended?.elim _ _ :=
    s.evalAmid_eq order policy on e
  rw [ha]
  cases hended : p'.main.rest.ended? with
  | none => exact hstart.trans hruns
  | some o => exact (hstart.trans hruns).trans (comes_conclude hended)

theorem comes_runMain {p : Prog Work Result} (ev : Event)
    (h : s.stage.next stack tidy ev = some (s.stage.start p)) :
    s.Comes stack tidy (s.runMain ⟨stack, steps, tidy⟩ p replyValue).1 := by
  have hruns : ({ s with pool := s.pool.startMain p } : Session).Comes stack tidy
      { s with pool := (s.pool.startMain p).runUntilOver stack steps .main } :=
    comes_of_runs (Pool.runs_runUntilOver _ steps .main)
  have hall := (comes_startMain ev h).trans hruns
  unfold runMain replyValue
  dsimp only [Pool.runMain]
  split
  · exact hall
  · split <;> exact hall

theorem comes_makeCell (name : Name) (label : Datum) :
    s.Comes stack tidy (s.makeCell name label).1 := by
  intro hs
  let x : CellId := .external name (s.made + 1)
  let t : Session := { s with made := s.made + 1, pool := s.pool.setCell x { label } }
  have hcell : ∀ y, t.pool.system.cell y =
      if y = x then some { label } else s.pool.system.cell y := by
    intro y
    rw [show t.pool = s.pool.setCell x { label } from rfl, Pool.setCell_system,
      System.cell_setCell]
  have hthread : t.pool.system.thread = s.pool.system.thread := by
    rw [show t.pool = s.pool.setCell x { label } from rfl, Pool.setCell_system,
      System.thread_setCell]
  have hkept : ∀ y, (s.pool.system.cell y).isSome → (t.pool.system.cell y).isSome := by
    intro y hy
    rw [hcell]
    split
    · rfl
    · exact hy
  have ht : t.Booked := by
    refine ⟨fun other y hlookup => ?_, fun other => hkept _ (hs.first other), ?_, ?_⟩
    · obtain ⟨outer, generation, rfl, hy⟩ := hs.named other y hlookup
      exact ⟨outer, generation, rfl, hkept _ hy⟩
    · intro other generation hlt
      have hne : CellId.external other generation ≠ x := fun heq =>
        absurd (CellId.external.inj heq).2 (Nat.ne_of_gt hlt)
      rw [hcell, if_neg hne]
      exact hs.newCell other generation (Nat.lt_of_succ_lt hlt)
    · intro n hlt
      rw [hthread]
      exact hs.newHelper n (Nat.lt_of_succ_lt hlt)
  refine ⟨ht.nameCell ⟨name, s.made + 1, rfl, ?_⟩, ?_⟩
  · rw [hcell, if_pos rfl]
    rfl
  · have hnew : (s.stage.system.cell x).isSome = false :=
      hs.newCell name (s.made + 1) (Nat.lt_succ_self _)
    have hstage : (s.makeCell name label).1.stage =
        { s.stage with system := s.stage.system.setCell x { label } } :=
      congrArg (Stage.mk · s.interpreter) (s.pool.setCell_system x { label })
    refine Stage.reaches_of_next (.make name (s.made + 1) label) ?_
    rw [hstage]
    exact if_neg (Bool.eq_false_iff.1 hnew)

theorem comes_setCell {x : CellId} {o : Outcome} {c c' : Cell}
    (hx : ∃ outer generation, x = .external outer generation)
    (hcell : s.pool.system.cell x = some c) (hwrite : c.write o = .ok c') :
    s.Comes stack tidy (s.setCell x c') := by
  intro hs
  have hsystem : (s.setCell x c').pool.system = s.pool.system.setCell x c' :=
    s.pool.setCell_system x c'
  refine ⟨hs.of_same ?_ rfl rfl, ?_⟩
  · rw [hsystem]
    exact .setCell (Option.isSome_of_eq_some hcell) c'
  · obtain ⟨outer, generation, rfl⟩ := hx
    have hstage : (s.setCell (.external outer generation) c').stage =
        { s.stage with system := s.stage.system.setCell (.external outer generation) c' } :=
      congrArg (Stage.mk · s.interpreter) hsystem
    have hcell' : s.stage.system.cell (.external outer generation) = some c := hcell
    refine Stage.reaches_of_next (.write outer generation o) ?_
    rw [hstage]
    simp [Stage.next, hcell', hwrite, Except.toOption]

theorem comes_claimLater (x : CellId) (name : Name) :
    let a := s.addHelper { rest := .take x }
    s.Comes stack tidy { a.1 with waiters := (name, a.2) :: a.1.waiters } := by
  intro a hs
  have hsystem : a.1.pool.system =
      s.pool.system.setThread (.helper (s.made + 1)) { rest := .take x } :=
    s.pool.add_system _ _
  have ht : a.1.Booked := by
    refine ⟨fun other y hlookup => ?_, fun other => ?_, fun other generation hlt => ?_, ?_⟩
    · rw [hsystem]
      exact hs.named other y hlookup
    · rw [hsystem]
      exact hs.first other
    · rw [hsystem]
      exact hs.newCell other generation (Nat.lt_of_succ_lt hlt)
    · intro n hlt
      have hne : ThreadId.helper n ≠ .helper (s.made + 1) := fun heq =>
        absurd (ThreadId.helper.inj heq) (Nat.ne_of_gt hlt)
      rw [hsystem, System.thread_setThread, if_neg hne]
      exact hs.newHelper n (Nat.lt_of_succ_lt hlt)
  refine ⟨⟨ht.named, ht.first, ht.newCell, ht.newHelper⟩, ?_⟩
  have hnew : (s.stage.system.thread (.helper (s.made + 1))).isSome = false :=
    hs.newHelper _ (Nat.lt_succ_self _)
  have hstage : Stage.mk a.1.pool.system s.interpreter =
      { s.stage with
        system := s.stage.system.setThread (.helper (s.made + 1)) { rest := .take x } } :=
    congrArg (Stage.mk · s.interpreter) hsystem
  refine Stage.reaches_of_next (.claimLater (s.made + 1) x) ?_
  refine Eq.trans ?_ (congrArg some hstage.symm)
  exact if_neg (Bool.eq_false_iff.1 hnew)

/-- A plain command is a run of events, whatever threads are served meanwhile. -/
theorem comes_performAmid (order : List ThreadId) {c : Command} (hc : c.Plain) :
    s.Comes stack tidy (s.performAmid order ⟨stack, steps, tidy⟩ on c).1 := by
  cases c with
  | eval e => exact comes_evalAmid order e
  | runDemo demo numbers =>
    have hprepared : s.Comes stack tidy _ := comes_prepareDemo steps s on demo numbers
    dsimp only [performAmid]
    split
    · exact hprepared
    · exact hprepared.trans (comes_evalAmid order _)
  | define name v =>
    dsimp only [performAmid, perform]
    split
    · exact comes_define _ v
    · exact .refl s
  | defineFunction name params body =>
    dsimp only [performAmid, perform, defineFunction]
    split
    · exact comes_define _ _
    · exact .refl s
  | installDemos => exact comes_installDemos
  | sync name =>
    dsimp only [performAmid, perform]
    split
    · exact .refl s
    · rename_i v _
      exact comes_runMain (.sync v) rfl
  | claim name => exact comes_runMain (.sync (.future (s.cellId name))) rfl
  | newCell name label =>
    exact (comes_makeCell name label).trans (comes_settle ⟨stack, steps, tidy⟩ _)
  | write name o =>
    intro hs
    obtain ⟨outer, generation, hx, hsome⟩ := hs.cellId name
    obtain ⟨c, hcell⟩ := Option.isSome_iff_exists.1 hsome
    have hname : s.cell name = c := by
      rw [Session.cell, hcell]
      rfl
    revert hs
    change s.Comes stack tidy _
    dsimp only [performAmid, perform]
    rw [hname]
    split
    · rename_i c' hwrite
      exact (comes_setCell ⟨outer, generation, hx⟩ hcell hwrite).trans
        (comes_settle ⟨stack, steps, tidy⟩ _)
    · exact .refl s
  | claimLater name waiter =>
    exact (comes_claimLater (s.cellId name) waiter.key).trans
      (comes_settle ⟨stack, steps, tidy⟩ _)
  | state name => exact comes_settle ⟨stack, steps, tidy⟩ s
  | join waiter =>
    dsimp only [performAmid, perform, replyValue]
    split
    · exact .refl s
    · split
      · exact .refl s
      · split <;> exact .refl s
  | lookup | bindings | compare | unwrap | describe => exact .refl s
  | spawnTask | message | run => exact hc.elim

theorem comes_request {r : Request} (hr : r.command.Plain) :
    s.Comes stack tidy (s.request stack tidy r).1 := by
  have hserved : s.Comes stack tidy { s with pool := s.pool.serve stack r.before } :=
    comes_of_runs (s.pool.runs_serve r.before)
  have hopened : s.Comes stack tidy (s.opened stack r) := hserved.trans (comes_mention r.command)
  exact (hopened.trans (comes_performAmid r.during hr)).trans
    (comes_settle ⟨stack, r.turns, tidy⟩ _)

/-- Whatever is asked of a new session, and however its threads are served, its stage goes through
a run of events. -/
theorem comes_serve (stack : Stack) (tidy : Env → Env) {rs : List Request}
    (hrs : ∀ r ∈ rs, r.command.Plain) : s.Comes stack tidy (s.serve stack tidy rs).2 := by
  induction rs generalizing s with
  | nil => exact .refl s
  | cons r rs ih =>
    obtain ⟨hr, hrs⟩ := List.forall_mem_cons.1 hrs
    exact (comes_request hr).trans (ih hrs)

theorem exists_run_serve (stack : Stack) (tidy : Env → Env) (ctx : Context) (demos : List Demo)
    {rs : List Request} (hrs : ∀ r ∈ rs, r.command.Plain) :
    (Stage.fresh ctx).Reaches stack tidy
      (({ context := ctx, demos } : Session).serve stack tidy rs).2.stage :=
  (comes_serve stack tidy hrs (.new ctx demos)).2

end Session

end ForkJoin

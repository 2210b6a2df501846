import ForkJoin.Proofs.Quiet
import ForkJoin.Proofs.Session.Stage

/-!
# Debug output

A stage of a session and the stage without its debug output go through the same events, apart from
steps in which a thread prints a line. In one direction every run is followed with those steps left
out (`run_quiet`); in the other every run is followed with lines printed in between
(`exists_run_of_quiet`). So debug output changes nothing that threads end with or hold in cells, and
keeps no thread from going on.
-/

namespace ForkJoin

def Interpreter.quiet (i : Interpreter) : Interpreter :=
  { i with context := i.context.quiet }

def Thread.quiet (t : Thread) : Thread :=
  { t with
    rest := t.rest.quiet
    delivery := t.delivery.map ({ · with announce := false })
    printed := [] }

def Thread.prints (t : Thread) : Bool :=
  match t.rest with
  | .emit _ _ => true
  | _ => false

def Move.quiet (m : Move) : Move :=
  { m with thread := m.thread.quiet, start := m.start.map fun (id, t) => (id, t.quiet) }

def System.quiet (s : System) : System :=
  { s with thread := fun id => (s.thread id).map Thread.quiet }

def System.prints (s : System) (id : ThreadId) : Bool :=
  (s.thread id).any Thread.prints

def Stage.quiet (s : Stage) : Stage where
  system := s.system.quiet
  interpreter name := (s.interpreter name).quiet

namespace Thread

variable {stack : Stack} {cell : CellId → Option Cell} {id : ThreadId} {t : Thread} {m : Move}

theorem quiet_task (stack : Stack) (id : ThreadId) (work : Work) :
    (Thread.task stack id work).quiet = .task stack id work.quiet := by
  simp only [task, quiet, Stack.quiet_eval]
  rfl

theorem quiet_announced (t : Thread) (d : Delivery) (o : Outcome)
    (result : Option (Except Fault Unit)) :
    ({ t.announced d o with delivered := result } : Thread).quiet =
      { t.quiet.announced { d with announce := false } o with delivered := result } := by
  unfold announced
  split <;> rfl

theorem prints_quiet (t : Thread) : t.quiet.prints = false := by
  have hquiet : ∀ (p : Prog Work Result) line q, p.quiet ≠ .emit line q := by
    intro p line q
    induction p with
    | emit _ _ ih => exact ih
    | done | fail | spawn | claim | await => exact nofun
  unfold prints
  split
  case h_1 line rest hrest => exact absurd hrest (hquiet t.rest line rest)
  case h_2 => rfl

theorem prints_of_outcome? {o : Outcome} (h : t.outcome? = some o) : t.prints = false := by
  unfold prints
  split
  case h_1 hrest =>
    rw [outcome?, hrest] at h
    cases h
  case h_2 => rfl

theorem outcome?_quiet {o : Outcome} (h : t.outcome? = some o) : t.quiet.outcome? = some o := by
  unfold outcome? at h
  split at h
  case h_1 r hrest => simpa [outcome?, quiet, hrest, Prog.quiet] using h
  case h_2 e hrest => simpa [outcome?, quiet, hrest, Prog.quiet] using h
  case h_3 => cases h

theorem due?_quiet {d : Delivery} (h : t.due? = some d) :
    t.quiet.due? = some { d with announce := false } := by
  unfold due? at h ⊢
  split at h
  case h_1 hdelivered => simp [quiet, hdelivered, h]
  case h_2 => cases h

/-- A move prints a line, or the thread without debug output makes it as well. -/
theorem Moves.quiet (hm : t.Moves stack cell id m) :
    (t.prints = true ∧ m.thread.quiet = t.quiet ∧ m.change = .keep ∧ m.start = none) ∨
      (t.prints = false ∧ t.quiet.Moves stack cell id m.quiet) := by
  cases hm with
  | print hrest =>
    refine .inl ⟨by rw [prints, hrest], ?_, rfl, rfl⟩
    simp only [Thread.quiet, hrest, Prog.quiet]
    rfl
  | spawn hrest =>
    refine .inr ⟨by rw [prints, hrest], ?_⟩
    have hquiet : t.quiet.rest = _ := congrArg Prog.quiet hrest
    have hspawn : t.quiet.Moves stack cell id _ := .spawn hquiet
    simp only [Move.quiet, Option.map_some, quiet_task]
    exact hspawn
  | take hrest hcell hfree =>
    exact .inr ⟨by rw [prints, hrest], .take (congrArg Prog.quiet hrest) hcell hfree⟩
  | refuse hrest hcell htaken =>
    exact .inr ⟨by rw [prints, hrest], .refuse (congrArg Prog.quiet hrest) hcell htaken⟩
  | @receive wanted rest c o hrest hcell hwritten =>
    refine .inr ⟨by rw [prints, hrest], ?_⟩
    have hreceive : t.quiet.Moves stack cell id _ :=
      .receive (congrArg Prog.quiet hrest) hcell hwritten
    cases o <;> exact hreceive
  | deliver hended hdue hcell hempty =>
    refine .inr ⟨prints_of_outcome? hended, ?_⟩
    simp only [Move.quiet, quiet_announced]
    exact .deliver (outcome?_quiet hended) (due?_quiet hdue) hcell hempty
  | late hended hdue hcell hwritten =>
    refine .inr ⟨prints_of_outcome? hended, ?_⟩
    simp only [Move.quiet, quiet_announced]
    exact .late (outcome?_quiet hended) (due?_quiet hdue) hcell hwritten
  | lost hended hdue hcell =>
    refine .inr ⟨prints_of_outcome? hended, ?_⟩
    simp only [Move.quiet, quiet_announced]
    exact .lost (outcome?_quiet hended) (due?_quiet hdue) hcell

theorem isOver_quiet (h : t.isOver) : t.quiet.isOver := by
  obtain ⟨ho, hdue⟩ := isOver_iff.1 h
  obtain ⟨o, ho⟩ := Option.isSome_iff_exists.1 ho
  refine isOver_iff.2 ⟨by rw [outcome?_quiet ho]; rfl, ?_⟩
  unfold due? at hdue ⊢
  split at hdue
  case h_1 hdelivered => simp [quiet, hdelivered, hdue]
  case h_2 hdelivered => simp [quiet, hdelivered]

theorem waits_quiet (h : t.Waits cell) : t.quiet.Waits cell := by
  unfold Waits at h
  split at h
  case h_1 hrest | h_2 hrest => simpa only [Waits, quiet, hrest, Prog.quiet] using h
  case h_3 => exact h.elim

end Thread

namespace System

variable {stack : Stack} {s s' : System} {id : ThreadId}

theorem quiet_setThread (s : System) (id : ThreadId) (t : Thread) :
    (s.setThread id t).quiet = s.quiet.setThread id t.quiet := by
  refine congrArg (System.mk · s.cell) (funext fun other => ?_)
  dsimp only [setThread, quiet]
  split <;> rfl

theorem quiet_after (s : System) (id : ThreadId) (m : Move) :
    (s.after id m).quiet = s.quiet.after id m.quiet := by
  refine congrArg (System.mk · (m.change.on s.cell)) (funext fun other => ?_)
  dsimp only [after, quiet]
  split
  · rfl
  · cases hstart : m.start with
    | none => simp [Move.started?, Move.quiet, hstart]
    | some new =>
      by_cases hnew : other = new.1 <;> simp [Move.started?, Move.quiet, hstart, hnew]

theorem isSome_quiet_thread (s : System) (id : ThreadId) :
    (s.quiet.thread id).isSome = (s.thread id).isSome :=
  Option.isSome_map

theorem ended?_quiet {o : Except Failure Result} : s.quiet.ended? id = some o ↔
    ∃ t p, s.thread id = some t ∧ t.rest.Leads p ∧ p.ended? = some o := by
  constructor
  · intro h
    obtain ⟨t', ht', ho⟩ := Option.bind_eq_some_iff.1 h
    obtain ⟨t, ht, rfl⟩ := Option.map_eq_some_iff.1 ht'
    obtain ⟨p, hp, ho⟩ := Prog.ended?_quiet.1 ho
    exact ⟨t, p, ht, hp, ho⟩
  · rintro ⟨t, p, ht, hp, ho⟩
    refine Option.bind_eq_some_iff.2 ⟨t.quiet, congrArg (Option.map Thread.quiet) ht, ?_⟩
    exact Prog.ended?_quiet.2 ⟨p, hp, ho⟩

theorem ended?_quiet_of_ended? {o : Except Failure Result} (h : s.ended? id = some o) :
    s.quiet.ended? id = some o := by
  obtain ⟨t, ht, ho⟩ := Option.bind_eq_some_iff.1 h
  exact ended?_quiet.2 ⟨t, t.rest, ht, .here _, ho⟩

theorem step_quiet (h : s.step stack id = some s') :
    (s.prints id = true ∧ s'.quiet = s.quiet) ∨
      (s.prints id = false ∧ s.quiet.step stack id = some s'.quiet) := by
  obtain ⟨t, m, ht, hm, rfl⟩ := step_eq_some_iff.1 h
  have hprints : s.prints id = t.prints := by rw [prints, ht, Option.any_some]
  rw [hprints, quiet_after]
  refine hm.quiet.imp ?_ ?_
  · rintro ⟨hemits, hsame, hkeep, hnone⟩
    refine ⟨hemits, ?_⟩
    have hcell : m.quiet.change.on s.quiet.cell = s.cell := by
      rw [Move.quiet, hkeep]
      rfl
    unfold after
    rw [hcell]
    refine congrArg (System.mk · s.cell) (funext fun other => ?_)
    by_cases hother : other = id
    · subst hother
      simp [ht, Move.quiet, hsame]
    · simp [Move.started?, Move.quiet, hnone, hother, quiet]
  · rintro ⟨hemits, hquiet⟩
    exact ⟨hemits, step_of_moves (congrArg (Option.map Thread.quiet) ht) hquiet⟩

theorem step_quiet_eq_none (h : s.step stack id = none) : s.quiet.step stack id = none := by
  refine step_eq_none_iff.2 fun t' ht' => ?_
  obtain ⟨t, ht, rfl⟩ := Option.map_eq_some_iff.1 ht'
  exact (step_eq_none_iff.1 h t ht).imp Thread.isOver_quiet Thread.waits_quiet

theorem quiet_eq_of_run {ids : List ThreadId} (hs : s.quiet = s)
    (hrun : s.run stack ids = some s') : s'.quiet = s' := by
  refine run_induction (P := fun s => s.quiet = s) (fun s id s' hs hstep => ?_) hs hrun
  have hprints : s.quiet.prints id = false := by
    have hthread : s.quiet.thread id = (s.thread id).map Thread.quiet := rfl
    rw [prints, hthread]
    cases s.thread id with
    | none => rfl
    | some t => exact t.prints_quiet
  rw [hs] at hprints
  rcases step_quiet hstep with ⟨hprints', -⟩ | ⟨-, hquiet⟩
  · rw [hprints] at hprints'
    cases hprints'
  · rw [hs, hstep] at hquiet
    exact (Option.some.inj hquiet).symm

end System

/-! ### Stages without debug output -/

namespace Stage

variable {stack : Stack} {tidy : Env → Env} {s s' q : Stage} {ev : Event} {evs more : List Event}

def prints (s : Stage) : Event → Bool
  | .step id => s.system.prints id
  | _ => false

/-- The events of a run apart from the steps in which a thread prints a line, in order. -/
def muted (stack : Stack) (tidy : Env → Env) : Stage → List Event → List Event
  | _, [] => []
  | s, ev :: evs =>
    (if s.prints ev then [] else [ev]) ++
      ((s.next stack tidy ev).map (·.muted stack tidy evs)).getD []

theorem muted_cons (h : s.next stack tidy ev = some s') (evs : List Event) :
    s.muted stack tidy (ev :: evs) =
      (if s.prints ev then [] else [ev]) ++ s'.muted stack tidy evs := by
  rw [muted, h]
  rfl

theorem muted_append (h : s.run stack tidy evs = some s') (more : List Event) :
    s.muted stack tidy (evs ++ more) = s.muted stack tidy evs ++ s'.muted stack tidy more := by
  induction evs generalizing s with
  | nil =>
    cases h
    rfl
  | cons ev evs ih =>
    obtain ⟨next, hnext, hrest⟩ := run_cons_eq_some_iff.1 h
    rw [List.cons_append, muted_cons hnext, muted_cons hnext, ih hrest, List.append_assoc]

theorem quiet_start (s : Stage) (p : Prog Work Result) :
    (s.start p).quiet = s.quiet.start p.quiet := by
  have hmain : (s.system.quiet.thread .main).getD .idle =
      ((s.system.thread .main).getD .idle).quiet := by
    change (Option.map Thread.quiet _).getD .idle = _
    cases s.system.thread .main <;> rfl
  refine congrArg (Stage.mk · s.quiet.interpreter) ?_
  change (System.setThread _ _ _).quiet = _
  rw [System.quiet_setThread]
  exact congrArg (s.system.quiet.setThread .main) (congrArg ({ · with rest := p.quiet }) hmain.symm)

theorem quiet_claimLater (s : Stage) (n : Nat) (x : CellId) :
    ({ s with system := s.system.setThread (.helper n) { rest := .take x } } : Stage).quiet =
      { s.quiet with system := s.quiet.system.setThread (.helper n) { rest := .take x } } := by
  unfold quiet
  dsimp only
  rw [System.quiet_setThread]
  rfl

theorem quiet_setInterpreter (s : Stage) (on : Name) (i : Interpreter) :
    (s.setInterpreter on i).quiet = s.quiet.setInterpreter on i.quiet := by
  refine congrArg (Stage.mk s.system.quiet) (funext fun name => ?_)
  dsimp only [setInterpreter]
  split <;> rfl

/-- An event prints a line, or it happens without debug output as well. -/
theorem next_quiet (h : s.next stack tidy ev = some s') :
    (s.prints ev = true ∧ s'.quiet = s.quiet) ∨
      (s.prints ev = false ∧ s.quiet.next stack tidy ev = some s'.quiet) := by
  cases ev with
  | step id =>
    obtain ⟨system, hstep, rfl⟩ := Option.map_eq_some_iff.1 h
    refine (System.step_quiet hstep).imp ?_ ?_
    · exact fun ⟨hprints, hsame⟩ => ⟨hprints, congrArg (Stage.mk · s.quiet.interpreter) hsame⟩
    · exact fun ⟨hprints, hquiet⟩ => ⟨hprints, Option.map_eq_some_iff.2 ⟨_, hquiet, rfl⟩⟩
  | evaluate on e =>
    cases h
    refine .inr ⟨rfl, ?_⟩
    rw [quiet_start, Interpreter.program, Stack.quiet_eval]
    rfl
  | sync v =>
    cases h
    refine .inr ⟨rfl, ?_⟩
    rw [quiet_start, Prog.quiet_bind, quiet_syncValue]
    rfl
  | conclude on =>
    obtain ⟨o, ho, rfl⟩ := Option.map_eq_some_iff.1 h
    refine .inr ⟨rfl, Option.map_eq_some_iff.2 ⟨o, System.ended?_quiet_of_ended? ho, ?_⟩⟩
    rw [quiet_setInterpreter]
    cases o <;> rfl
  | define on name v =>
    cases h
    refine .inr ⟨rfl, ?_⟩
    rw [quiet_setInterpreter]
    rfl
  | make name generation label =>
    simp only [next] at h
    split at h
    · cases h
    · rename_i hnew
      cases h
      exact .inr ⟨rfl, if_neg hnew⟩
  | write name generation o =>
    obtain ⟨c, hc, h⟩ := Option.bind_eq_some_iff.1 h
    obtain ⟨c', hwrite, h⟩ := Option.bind_eq_some_iff.1 h
    cases h
    refine .inr ⟨rfl, Option.bind_eq_some_iff.2 ⟨c, hc, ?_⟩⟩
    exact Option.bind_eq_some_iff.2 ⟨c', hwrite, rfl⟩
  | claimLater n x =>
    simp only [next] at h
    split at h
    · cases h
    · rename_i hnew
      cases h
      refine .inr ⟨rfl, ?_⟩
      rw [quiet_claimLater]
      exact if_neg fun hsome => hnew ((s.system.isSome_quiet_thread _).symm.trans hsome)

/-- A run goes through without debug output, apart from the steps that print. -/
theorem run_quiet (h : s.run stack tidy evs = some s') :
    s.quiet.run stack tidy (s.muted stack tidy evs) = some s'.quiet := by
  induction evs generalizing s with
  | nil =>
    cases h
    rfl
  | cons ev evs ih =>
    obtain ⟨next, hnext, hrest⟩ := run_cons_eq_some_iff.1 h
    rw [muted_cons hnext]
    rcases next_quiet hnext with ⟨hprints, hsame⟩ | ⟨hprints, hquiet⟩
    · rw [if_pos hprints, ← hsame]
      exact ih hrest
    · rw [if_neg (by simp [hprints])]
      exact run_cons_eq_some_iff.2 ⟨next.quiet, hquiet, ih hrest⟩

/-! ### Debug output around the events of a quiet run -/

end Stage

/-- The thread that an event waits for; that is the main thread unless another one makes a step. -/
def Event.actor : Event → ThreadId
  | .step id => id
  | _ => .main

namespace Stage

variable {stack : Stack} {tidy : Env → Env} {s q : Stage} {ev : Event} {evs : List Event}

/-- A thread can print the lines that stand before its other acts, and nothing else happens. -/
theorem exists_run_printing (stack : Stack) (tidy : Env → Env) (s : Stage) (id : ThreadId) :
    ∃ evs s', s.run stack tidy evs = some s' ∧ s.muted stack tidy evs = [] ∧
      s'.quiet = s.quiet ∧ s'.system.prints id = false := by
  cases ht : s.system.thread id with
  | none => exact ⟨[], s, rfl, rfl, rfl, by rw [System.prints, ht]; rfl⟩
  | some t =>
    generalize hrest : t.rest = p
    induction p generalizing s t with
    | emit line rest ih =>
      have hm : t.Moves stack s.system.cell id _ := .print hrest
      have hstep := System.step_of_moves ht hm
      obtain ⟨next, hnext, t', ht', hrest'⟩ : ∃ next, s.next stack tidy (.step id) = some next ∧
          ∃ t', next.system.thread id = some t' ∧ t'.rest = rest :=
        ⟨_, Option.map_eq_some_iff.2 ⟨_, hstep, rfl⟩, _, System.after_thread_self, rfl⟩
      have hprints : s.prints (.step id) = true := by
        simp [prints, System.prints, ht, Thread.prints, hrest]
      have hsame : next.quiet = s.quiet := by
        rcases next_quiet hnext with ⟨-, hsame⟩ | ⟨hno, -⟩
        · exact hsame
        · rw [hprints] at hno
          cases hno
      obtain ⟨evs, s', hrun, hmuted, hquiet, hdone⟩ := ih next t' ht' hrest'
      refine ⟨.step id :: evs, s', run_cons_eq_some_iff.2 ⟨next, hnext, hrun⟩, ?_,
        hquiet.trans hsame, hdone⟩
      rw [muted_cons hnext, if_pos hprints, hmuted]
      rfl
    | done | fail | spawn | claim | await =>
      refine ⟨[], s, rfl, rfl, rfl, ?_⟩
      simp [System.prints, ht, Thread.prints, hrest]

/-- An event that happens without debug output happens with it, unless its thread has a line to
print first. -/
theorem exists_next_of_quiet (hready : s.system.prints ev.actor = false)
    (h : s.quiet.next stack tidy ev = some q) :
    ∃ s', s.next stack tidy ev = some s' ∧ s'.quiet = q ∧ s.prints ev = false := by
  have hprints : s.prints ev = false := by
    cases ev with
    | step id => exact hready
    | evaluate | sync | conclude | define | make | write | claimLater => rfl
  suffices hsome : ∃ s', s.next stack tidy ev = some s' by
    obtain ⟨s', hnext⟩ := hsome
    refine ⟨s', hnext, ?_, hprints⟩
    rcases next_quiet hnext with ⟨hyes, -⟩ | ⟨-, hquiet⟩
    · rw [hprints] at hyes
      cases hyes
    · exact Option.some.inj (hquiet.symm.trans h)
  cases ev with
  | step id =>
    obtain ⟨system, hquiet, -⟩ := Option.map_eq_some_iff.1 h
    cases hstep : s.system.step stack id with
    | none =>
      have hnone : s.quiet.system.step stack id = none := System.step_quiet_eq_none hstep
      rw [hnone] at hquiet
      cases hquiet
    | some system => exact ⟨_, Option.map_eq_some_iff.2 ⟨system, hstep, rfl⟩⟩
  | conclude on =>
    obtain ⟨o, hended, -⟩ := Option.map_eq_some_iff.1 h
    obtain ⟨t, p, ht, hleads, hp⟩ := System.ended?_quiet.1 hended
    have hnow : s.system.ended? .main = some o := by
      generalize hrest : t.rest = r at hleads
      cases hleads with
      | here => exact Option.bind_eq_some_iff.2 ⟨t, ht, hrest ▸ hp⟩
      | emit =>
        have hyes : s.system.prints .main = true := by
          simp [System.prints, ht, Thread.prints, hrest]
        exact absurd (hyes.symm.trans hready) (by decide)
    exact ⟨_, Option.map_eq_some_iff.2 ⟨o, hnow, rfl⟩⟩
  | evaluate on e | sync v | define on name v => exact ⟨_, rfl⟩
  | make name generation label =>
    simp only [next] at h
    split at h
    · cases h
    · rename_i hnew
      exact ⟨_, if_neg hnew⟩
  | write name generation o =>
    obtain ⟨c, hc, h⟩ := Option.bind_eq_some_iff.1 h
    obtain ⟨c', hwrite, -⟩ := Option.bind_eq_some_iff.1 h
    exact ⟨_, Option.bind_eq_some_iff.2 ⟨c, hc, Option.bind_eq_some_iff.2 ⟨c', hwrite, rfl⟩⟩⟩
  | claimLater n x =>
    simp only [next] at h
    split at h
    · cases h
    · rename_i hnew
      exact ⟨_, if_neg fun hsome => hnew ((s.system.isSome_quiet_thread _).trans hsome)⟩

/-- Every run without debug output is what is left of a run with it. -/
theorem exists_run_of_quiet (h : s.quiet.run stack tidy evs = some q) :
    ∃ more s', s.run stack tidy more = some s' ∧ s.muted stack tidy more = evs ∧ s'.quiet = q := by
  induction evs generalizing s with
  | nil =>
    cases h
    exact ⟨[], s, rfl, rfl, rfl⟩
  | cons ev evs ih =>
    obtain ⟨mid, hmid, hrest⟩ := run_cons_eq_some_iff.1 h
    obtain ⟨lines, ready, hlines, hnone, hsame, hready⟩ :=
      s.exists_run_printing stack tidy ev.actor
    rw [← hsame] at hmid
    obtain ⟨next, hnext, rfl, hprints⟩ := exists_next_of_quiet hready hmid
    obtain ⟨more, last, hrun, hmuted, hq⟩ := ih hrest
    have hafter : ready.run stack tidy (ev :: more) = some last :=
      run_cons_eq_some_iff.2 ⟨next, hnext, hrun⟩
    refine ⟨lines ++ ev :: more, last, run_append_eq_some_iff.2 ⟨ready, hlines, hafter⟩, ?_, hq⟩
    rw [muted_append hlines, hnone, muted_cons hnext, hprints, hmuted]
    rfl

/-! ### Sessions with and without debug output -/

/-- What a stage and one without debug output have in common: the bindings of interpreters, all that
cells hold, the tasks, and what threads have ended with, up to lines that are still to be printed.
Where the first has no step left, neither has the second, and that has printed nothing. -/
structure Undisturbed (stack : Stack) (a b : Stage) : Prop where
  env : ∀ name, (b.interpreter name).env = (a.interpreter name).env
  cell : b.system.cell = a.system.cell
  task : ∀ id, (b.system.thread id).isSome = (a.system.thread id).isSome
  ended : ∀ id o, b.system.ended? id = some o ↔
    ∃ t p, a.system.thread id = some t ∧ t.rest.Leads p ∧ p.ended? = some o
  stuck : ∀ id, a.system.step stack id = none → b.system.step stack id = none
  silent : ∀ id t, b.system.thread id = some t → t.printed = []

theorem undisturbed_quiet (stack : Stack) (a : Stage) : a.Undisturbed stack a.quiet where
  env _ := rfl
  cell := rfl
  task id := a.system.isSome_quiet_thread id
  ended _ _ := System.ended?_quiet
  stuck _ h := System.step_quiet_eq_none h
  silent id t ht := by
    obtain ⟨t, -, rfl⟩ := Option.map_eq_some_iff.1 ht
    rfl

theorem quiet_initial (interpreter : Name → Interpreter) :
    (Stage.mk .initial interpreter).quiet = ⟨.initial, fun name => (interpreter name).quiet⟩ := by
  refine congrArg (Stage.mk · _) (congrArg (System.mk · System.firstCell) (funext fun id => ?_))
  dsimp only [System.initial]
  split <;> rfl

/-- Debug output changes no result. Two new sessions are compared whose interpreters differ in
nothing but whether they trace. Every run of the one is a run of the other when the steps that print
lines are left out, and every run of the other is what is left of a run of the one in this way; and
the two stages that are reached have everything in common but what was printed, which in the other
is nothing. -/
theorem debug_unobservable (stack : Stack) (tidy : Env → Env) (interpreter : Name → Interpreter) :
    let loud : Stage := ⟨.initial, interpreter⟩
    let still : Stage := ⟨.initial, fun name =>
      { interpreter name with context := { (interpreter name).context with debug := false } }⟩
    (∀ evs a, loud.run stack tidy evs = some a →
      ∃ b, still.run stack tidy (loud.muted stack tidy evs) = some b ∧ a.Undisturbed stack b) ∧
    ∀ evs b, still.run stack tidy evs = some b →
      ∃ more a, loud.run stack tidy more = some a ∧ loud.muted stack tidy more = evs ∧
        a.Undisturbed stack b := by
  intro loud still
  have hstill : still = loud.quiet := (quiet_initial interpreter).symm
  rw [hstill]
  constructor
  · intro evs a ha
    exact ⟨a.quiet, run_quiet ha, undisturbed_quiet stack a⟩
  · intro evs b hb
    obtain ⟨more, a, ha, hmuted, rfl⟩ := exists_run_of_quiet hb
    exact ⟨more, a, ha, hmuted, undisturbed_quiet stack a⟩

/-- A task that is spawned and waited for. Its spawner prints three lines; the second run has none,
and the lines can be put back into it. -/
theorem debug_unobservable_sync_spawn :
    let loud : Stage := ⟨.initial, fun _ => { context := { debug := true } }⟩
    let still : Stage := ⟨.initial, fun _ => { context := { debug := false } }⟩
    let task : ThreadId := .child .main 1
    let start : Event := .evaluate "i" (.sync (.spawn (.lit (.int 1))))
    let evs : List Event := [start, .step .main, .step .main, .step .main, .step .main, .step .main,
      .step task, .step task, .step .main]
    ∃ a b t, loud.run ⟨3, none⟩ Env.compact evs = some a ∧ a.system.thread .main = some t ∧
      t.printed.length = 3 ∧
      still.run ⟨3, none⟩ Env.compact [start, .step .main, .step .main, .step task, .step .main] =
        some b ∧ a.Undisturbed ⟨3, none⟩ b ∧
      ∃ more a', loud.run ⟨3, none⟩ Env.compact more = some a' ∧ a'.Undisturbed ⟨3, none⟩ b := by
  intro loud still task start evs
  obtain ⟨hloud, hstill⟩ :=
    debug_unobservable ⟨3, none⟩ Env.compact fun _ => { context := { debug := true } }
  obtain ⟨a, ha, t, ht, hprinted⟩ : ∃ a, loud.run ⟨3, none⟩ Env.compact evs = some a ∧
      ∃ t, a.system.thread .main = some t ∧ t.printed.length = 3 := ⟨_, rfl, _, rfl, rfl⟩
  obtain ⟨b, hb, hsame⟩ := hloud evs a ha
  obtain ⟨more, a', ha', -, hsame'⟩ := hstill _ b hb
  exact ⟨a, b, t, ha, ht, hprinted, hb, hsame, more, a', ha', hsame'⟩

end Stage

end ForkJoin

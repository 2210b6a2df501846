import ForkJoin.System

/-!
# Steps and runs

What a step of a thread can do, said once. A step of the system is stated as a `Move`: what becomes
of the thread, the one change to the cells, and the thread that it starts. A change is what is done
to a cell and not the cell that comes out of it, so two changes can be compared and exchanged
without knowing what the cells hold. `System.step_eq_some_iff` says that the moves of a thread,
listed case by case in `Thread.Moves`, are exactly its steps; the other modules on systems know steps
only through it.

A run is a list of threads that make a step each, in any order. The requests to a cell in a run are
the writes and the claims that the threads try, refused or not.
-/

namespace ForkJoin

def Prog.resume {ω α : Type} (rest : Value → Prog ω α) : Outcome → Prog ω α
  | .ok v => rest v
  | .error e => .fail e

theorem Prog.resume_bind {ω α β : Type} (rest : Value → Prog ω α) (f : α → Prog ω β)
    (o : Outcome) : resume (fun v => (rest v).bind f) o = (resume rest o).bind f := by
  cases o <;> rfl

namespace Thread

/-- What a thread has ended with, as it is delivered. -/
def outcome? (t : Thread) : Option Outcome :=
  match t.rest with
  | .done r => some (.ok r.value)
  | .fail e => some (.error e)
  | _ => none

def due? (t : Thread) : Option Delivery :=
  match t.delivered with
  | none => t.delivery
  | some _ => none

theorem delivery_of_due? {t : Thread} {d : Delivery} (h : t.due? = some d) :
    t.delivery = some d := by
  unfold due? at h
  split at h
  · exact h
  · cases h

def announced (t : Thread) (d : Delivery) (o : Outcome) : Thread :=
  if d.announce then t.print (announcement d.label o) else t

theorem exists_announced_eq (t : Thread) (d : Delivery) (o : Outcome) :
    ∃ printed, t.announced d o = { t with printed } := by
  unfold announced
  split
  · exact ⟨_, rfl⟩
  · exact ⟨_, rfl⟩

section Announced

variable (t : Thread) (d : Delivery) (o : Outcome)

@[simp]
theorem announced_rest : (t.announced d o).rest = t.rest := by
  obtain ⟨printed, h⟩ := t.exists_announced_eq d o
  rw [h]

@[simp]
theorem announced_spawned : (t.announced d o).spawned = t.spawned := by
  obtain ⟨printed, h⟩ := t.exists_announced_eq d o
  rw [h]

@[simp]
theorem announced_delivery : (t.announced d o).delivery = t.delivery := by
  obtain ⟨printed, h⟩ := t.exists_announced_eq d o
  rw [h]

end Announced

end Thread

/-! ### Moves -/

inductive Change where
  | keep
  | take (cell : CellId)
  | put (cell : CellId) (o : Outcome)
  | make (cell : CellId) (label : Datum)

def Change.on (change : Change) (cell : CellId → Option Cell) : CellId → Option Cell :=
  match change with
  | .keep => cell
  | .take x => fun y => if y = x then (cell x).map ({ · with claimed := true }) else cell y
  | .put x o => fun y => if y = x then (cell x).map ({ · with outcome := some o }) else cell y
  | .make x label => fun y => if y = x then some { label } else cell y

/-- What a step does: what becomes of its thread, what it changes about the cells, and the thread
that it starts. -/
structure Move where
  thread : Thread
  change : Change := .keep
  start : Option (ThreadId × Thread) := none

def Move.started? (m : Move) (id : ThreadId) : Option Thread :=
  m.start.bind fun (new, t) => if id = new then some t else none

def System.after (s : System) (id : ThreadId) (m : Move) : System where
  thread other := if other = id then some m.thread else (m.started? other).or (s.thread other)
  cell := m.change.on s.cell

/-- The moves of a thread among cells, case by case. -/
inductive Thread.Moves (stack : Stack) (cell : CellId → Option Cell) (id : ThreadId) (t : Thread) :
    Move → Prop
  | print {line : String} {rest : Prog Work Result} (hrest : t.rest = .emit line rest) :
      Moves stack cell id t { thread := { t with rest }.print line }
  | spawn {work : Work} {rest : ThreadId → Prog Work Result} (hrest : t.rest = .spawn work rest) :
      Moves stack cell id t
        { thread := { t with rest := rest (.child id (t.spawned + 1)), spawned := t.spawned + 1 },
          change := .make (.task (.child id (t.spawned + 1)))
            (.text (ThreadId.child id (t.spawned + 1)).label),
          start := some (.child id (t.spawned + 1),
            .task stack (.child id (t.spawned + 1)) work) }
  | take {wanted : CellId} {rest : Prog Work Result} {c : Cell} (hrest : t.rest = .claim wanted rest)
      (hcell : cell wanted = some c) (hfree : c.claimed = false) :
      Moves stack cell id t { thread := { t with rest }, change := .take wanted }
  | refuse {wanted : CellId} {rest : Prog Work Result} {c : Cell}
      (hrest : t.rest = .claim wanted rest) (hcell : cell wanted = some c)
      (htaken : c.claimed = true) :
      Moves stack cell id t { thread := { t with rest := .raise (.alreadyConsumed c.label) } }
  | receive {wanted : CellId} {rest : Value → Prog Work Result} {c : Cell} {o : Outcome}
      (hrest : t.rest = .await wanted rest) (hcell : cell wanted = some c)
      (hwritten : c.outcome = some o) :
      Moves stack cell id t { thread := { t with rest := .resume rest o } }
  | deliver {d : Delivery} {o : Outcome} {c : Cell} (hended : t.outcome? = some o)
      (hdue : t.due? = some d) (hcell : cell d.cell = some c) (hempty : c.outcome = none) :
      Moves stack cell id t
        { thread := { t.announced d o with delivered := some (.ok ()) }, change := .put d.cell o }
  | late {d : Delivery} {o o' : Outcome} {c : Cell} (hended : t.outcome? = some o)
      (hdue : t.due? = some d) (hcell : cell d.cell = some c) (hwritten : c.outcome = some o') :
      Moves stack cell id t
        { thread := { t.announced d o with delivered := some (.error (.alreadyPopulated c.label)) } }
  | lost {d : Delivery} {o : Outcome} (hended : t.outcome? = some o) (hdue : t.due? = some d)
      (hcell : cell d.cell = none) :
      Moves stack cell id t
        { thread := { t.announced d o with delivered := some (.error .outOfRange) } }

def Move.effect (cell : CellId → Option Cell) (m : Move) : Effect where
  thread := m.thread
  cells :=
    match m.change with
    | .keep => []
    | .take x | .put x _ | .make x _ => ((m.change.on cell x).map (x, ·)).toList
  starts := m.start.toList

namespace Thread

variable {cell : CellId → Option Cell} {id : ThreadId} {t : Thread} {stack : Stack}

theorem finish_eq_some_iff {o : Outcome} {e : Effect} :
    t.finish cell o = some e ↔ ∃ d, t.due? = some d ∧ t.deliver cell d o = e := by
  unfold finish due?
  cases t.delivered with
  | none => cases t.delivery <;> simp
  | some result => cases t.delivery <;> simp

theorem moves_of_deliver {d : Delivery} {o : Outcome} (hended : t.outcome? = some o)
    (hdue : t.due? = some d) :
    ∃ m, Moves stack cell id t m ∧ t.deliver cell d o = m.effect cell := by
  cases hcell : cell d.cell with
  | none => exact ⟨_, .lost hended hdue hcell, by simp [deliver, hcell, Move.effect, announced]⟩
  | some c =>
    cases hwritten : c.outcome with
    | none =>
      refine ⟨_, .deliver hended hdue hcell hwritten, ?_⟩
      simp [deliver, hcell, Cell.write, hwritten, Move.effect, Change.on, announced]
    | some o' =>
      refine ⟨_, .late hended hdue hcell hwritten, ?_⟩
      simp [deliver, hcell, Cell.write, hwritten, Move.effect, announced]

theorem moves_of_act {e : Effect} (hact : t.act stack cell id = some e) :
    ∃ m, Moves stack cell id t m ∧ e = m.effect cell := by
  unfold act at hact
  split at hact
  case h_1 r hrest =>
    obtain ⟨d, hdue, rfl⟩ := finish_eq_some_iff.1 hact
    exact moves_of_deliver (by rw [outcome?, hrest]) hdue
  case h_2 e hrest =>
    obtain ⟨d, hdue, rfl⟩ := finish_eq_some_iff.1 hact
    exact moves_of_deliver (by rw [outcome?, hrest]) hdue
  case h_3 line rest hrest =>
    cases hact
    exact ⟨_, .print hrest, rfl⟩
  case h_4 work rest hrest =>
    cases hact
    exact ⟨_, .spawn hrest, by simp [Move.effect, Change.on]⟩
  case h_5 wanted rest hrest =>
    split at hact
    · cases hact
    · rename_i c hcell
      cases hclaimed : c.claimed with
      | false =>
        simp only [Cell.claim, hclaimed, Bool.false_eq_true, if_false, Option.some.injEq] at hact
        subst hact
        exact ⟨_, .take hrest hcell hclaimed, by simp [Move.effect, Change.on, hcell]⟩
      | true =>
        simp only [Cell.claim, hclaimed, if_true, Option.some.injEq] at hact
        subst hact
        exact ⟨_, .refuse hrest hcell hclaimed, rfl⟩
  case h_6 wanted rest hrest =>
    split at hact
    · cases hact
    · rename_i v hwritten
      cases hact
      obtain ⟨c, hcell, hwritten⟩ := Option.bind_eq_some_iff.1 hwritten
      exact ⟨_, .receive hrest hcell hwritten, rfl⟩
    · rename_i e hwritten
      cases hact
      obtain ⟨c, hcell, hwritten⟩ := Option.bind_eq_some_iff.1 hwritten
      exact ⟨_, .receive hrest hcell hwritten, rfl⟩

theorem act_of_ended {d : Delivery} {o : Outcome} (hended : t.outcome? = some o)
    (hdue : t.due? = some d) : t.act stack cell id = some (t.deliver cell d o) := by
  unfold outcome? at hended
  split at hended
  case h_1 r hrest =>
    cases hended
    rw [act, hrest]
    exact finish_eq_some_iff.2 ⟨d, hdue, rfl⟩
  case h_2 e hrest =>
    cases hended
    rw [act, hrest]
    exact finish_eq_some_iff.2 ⟨d, hdue, rfl⟩
  case h_3 => cases hended

theorem Moves.act {m : Move} (hm : Moves stack cell id t m) :
    t.act stack cell id = some (m.effect cell) := by
  cases hm with
  | print hrest => simp [Thread.act, hrest, Move.effect]
  | spawn hrest => simp [Thread.act, hrest, Move.effect, Change.on]
  | take hrest hcell hfree =>
    simp [Thread.act, hrest, hcell, Cell.claim, hfree, Move.effect, Change.on]
  | refuse hrest hcell htaken => simp [Thread.act, hrest, hcell, Cell.claim, htaken, Move.effect]
  | @receive wanted rest c o hrest hcell hwritten =>
    cases o <;> simp [Thread.act, hrest, hcell, hwritten, Move.effect, Prog.resume]
  | deliver hended hdue hcell hempty =>
    rw [act_of_ended hended hdue]
    simp [Thread.deliver, hcell, Cell.write, hempty, Move.effect, Change.on, announced]
  | late hended hdue hcell hwritten =>
    rw [act_of_ended hended hdue]
    simp [Thread.deliver, hcell, Cell.write, hwritten, Move.effect, announced]
  | lost hended hdue hcell =>
    rw [act_of_ended hended hdue]
    simp [Thread.deliver, hcell, Move.effect, announced]

end Thread

namespace System

variable {stack : Stack} {s s' : System} {id : ThreadId} {t : Thread} {m : Move}

theorem foldl_setCell_effect (s : System) (m : Move) :
    (m.effect s.cell).cells.foldl (fun s (cell, c) => s.setCell cell c) s =
      { s with cell := m.change.on s.cell } := by
  obtain ⟨thread, change, start⟩ := m
  cases change with
  | keep => rfl
  | make x label => simp [Move.effect, Change.on, setCell]
  | take x | put x o =>
    cases hx : s.cell x with
    | none =>
      simp only [Move.effect, Change.on, hx, if_true, Option.map_none, Option.toList_none,
        List.foldl_nil]
      refine congrArg (System.mk s.thread) (funext fun y => ?_)
      by_cases hy : y = x <;> simp [hx, hy]
    | some c => simp [Move.effect, Change.on, hx, setCell]

theorem bring_effect (s : System) (id : ThreadId) (m : Move) :
    s.bring id (m.effect s.cell) = s.after id m := by
  rw [bring, foldl_setCell_effect]
  obtain ⟨thread, change, start⟩ := m
  cases start with
  | none => rfl
  | some new =>
    refine congrArg (System.mk · (change.on s.cell)) (funext fun other => ?_)
    by_cases hnew : other = new.1 <;> simp [Move.effect, Move.started?, hnew]

/-- The steps of a thread are its moves. -/
theorem step_eq_some_iff : s.step stack id = some s' ↔
    ∃ t m, s.thread id = some t ∧ t.Moves stack s.cell id m ∧ s' = s.after id m := by
  constructor
  · intro hstep
    obtain ⟨t, ht, hstep⟩ := Option.bind_eq_some_iff.1 hstep
    obtain ⟨e, hact, hbring⟩ := Option.bind_eq_some_iff.1 hstep
    obtain ⟨m, hm, rfl⟩ := Thread.moves_of_act hact
    refine ⟨t, m, ht, hm, ?_⟩
    rw [← bring_effect]
    exact (Option.some.inj hbring).symm
  · rintro ⟨t, m, ht, hm, rfl⟩
    rw [step, ht, ← bring_effect]
    simp [hm.act]

theorem step_of_moves (ht : s.thread id = some t) (hm : t.Moves stack s.cell id m) :
    s.step stack id = some (s.after id m) :=
  step_eq_some_iff.2 ⟨t, m, ht, hm, rfl⟩

/-! ### Runs -/

/-- A run: the threads of a list make a step each, in the order of the list. -/
def run (stack : Stack) : System → List ThreadId → Option System
  | s, [] => some s
  | s, id :: ids => (s.step stack id).bind (·.run stack ids)

@[simp] theorem run_nil (s : System) : s.run stack [] = some s := rfl

theorem run_cons_eq_some_iff {ids : List ThreadId} {last : System} :
    s.run stack (id :: ids) = some last ↔
      ∃ next, s.step stack id = some next ∧ next.run stack ids = some last :=
  Option.bind_eq_some_iff

theorem run_append_eq {ids : List ThreadId} (h : s.run stack ids = some s')
    (more : List ThreadId) : s.run stack (ids ++ more) = s'.run stack more := by
  induction ids generalizing s with
  | nil =>
    cases h
    rfl
  | cons id ids ih =>
    obtain ⟨next, hstep, hrest⟩ := run_cons_eq_some_iff.1 h
    rw [List.cons_append, run, hstep]
    exact ih hrest

theorem run_append {ids more : List ThreadId} {last : System} (h : s.run stack ids = some s')
    (hmore : s'.run stack more = some last) : s.run stack (ids ++ more) = some last :=
  (run_append_eq h more).trans hmore

def ended? (s : System) (id : ThreadId) : Option (Except Failure Result) :=
  (s.thread id).bind (·.rest.ended?)

/-- What every step keeps, every run keeps. -/
theorem run_induction {P : System → Prop} {ids : List ThreadId}
    (hP : ∀ s id s', P s → s.step stack id = some s' → P s') (hs : P s)
    (hrun : s.run stack ids = some s') : P s' := by
  induction ids generalizing s with
  | nil =>
    cases hrun
    exact hs
  | cons id ids ih =>
    obtain ⟨next, hstep, hrest⟩ := run_cons_eq_some_iff.1 hrun
    exact ih (hP s id next hs hstep) hrest

end System

/-- Whether a thread waits for a cell: to be written, or to be there at all. -/
def Thread.Waits (cell : CellId → Option Cell) (t : Thread) : Prop :=
  match t.rest with
  | .await wanted _ => (cell wanted).bind (·.outcome) = none
  | .claim wanted _ => cell wanted = none
  | _ => False

theorem Thread.isOver_iff {t : Thread} :
    t.isOver ↔ t.outcome?.isSome ∧ t.due? = none := by
  unfold isOver outcome? due?
  cases t.rest <;> cases t.delivery <;> cases t.delivered <;> simp [Prog.ended?]

theorem Thread.act_eq_none_iff {stack : Stack} {cell : CellId → Option Cell} {id : ThreadId}
    {t : Thread} : t.act stack cell id = none ↔ t.isOver ∨ t.Waits cell := by
  have hfinish : ∀ o, t.finish cell o = none ↔ t.due? = none := by
    intro o
    unfold finish due?
    cases t.delivery <;> cases t.delivered <;> simp
  rw [isOver_iff]
  cases hrest : t.rest with
  | done r => simp [act, Waits, outcome?, hrest, hfinish]
  | fail e => simp [act, Waits, outcome?, hrest, hfinish]
  | emit line rest => simp [act, Waits, outcome?, hrest]
  | spawn work rest => simp [act, Waits, outcome?, hrest]
  | claim wanted rest =>
    cases hcell : cell wanted with
    | none => simp [act, Waits, hrest, hcell]
    | some c => cases hclaim : c.claim <;> simp [act, Waits, outcome?, hrest, hcell, hclaim]
  | await wanted rest =>
    cases hwritten : (cell wanted).bind (·.outcome) with
    | none => simp only [act, Waits, hrest, hwritten, or_true]
    | some o => cases o <;> simp [act, Waits, outcome?, hrest, hwritten]

theorem Thread.Moves.not_over_or_waits {stack : Stack} {cell : CellId → Option Cell}
    {id : ThreadId} {t : Thread} {m : Move} (hm : Moves stack cell id t m) :
    ¬ (t.isOver ∨ t.Waits cell) := by
  intro hidle
  have hnone : t.act stack cell id = none := act_eq_none_iff.2 hidle
  rw [hm.act] at hnone
  cases hnone

namespace System

/-- Whether no thread has a step left: each is over or waits. -/
def Complete (s : System) : Prop :=
  ∀ id t, s.thread id = some t → t.isOver ∨ t.Waits s.cell

theorem step_eq_none_iff {stack : Stack} {s : System} {id : ThreadId} :
    s.step stack id = none ↔ ∀ t, s.thread id = some t → t.isOver ∨ t.Waits s.cell := by
  rw [step]
  cases ht : s.thread id with
  | none => simp
  | some t =>
    have hnone : t.act stack s.cell id = none ↔ t.isOver ∨ t.Waits s.cell :=
      Thread.act_eq_none_iff
    cases hact : t.act stack s.cell id <;> simpa [hact] using hnone

theorem complete_iff {s : System} (stack : Stack) :
    s.Complete ↔ ∀ id, s.step stack id = none := by
  simp only [Complete, step_eq_none_iff]

end System

/-! ### Requests -/

inductive Request where
  | write (o : Outcome)
  | claim

def Request.isClaim : Request → Bool
  | .write _ => false
  | .claim => true

def Request.outcome? : Request → Option Outcome
  | .write o => some o
  | .claim => none

/-- A cell after a request; one that is refused changes nothing. -/
def Cell.after (c : Cell) : Request → Cell
  | .write o => { c with outcome := c.outcome.or (some o) }
  | .claim => { c with claimed := true }

/-- What a thread asks in its next step, and of which cell. -/
def Thread.request? (t : Thread) : Option (CellId × Request) :=
  match t.rest with
  | .claim cell _ => some (cell, .claim)
  | _ => do return ((← t.due?).cell, .write (← t.outcome?))

namespace Thread

variable {t : Thread} {x : CellId} {o : Outcome}

theorem rest_of_claim (h : t.request? = some (x, .claim)) :
    ∃ rest, t.rest = .claim x rest := by
  unfold request? at h
  split at h
  case h_1 wanted rest hrest =>
    cases h
    exact ⟨rest, hrest⟩
  case h_2 =>
    obtain ⟨d, -, h⟩ := Option.bind_eq_some_iff.1 h
    obtain ⟨o, -, h⟩ := Option.bind_eq_some_iff.1 h
    cases h

theorem request?_of_due {d : Delivery} (hended : t.outcome? = some o)
    (hdue : t.due? = some d) : t.request? = some (d.cell, .write o) := by
  unfold request?
  split
  case h_1 wanted rest hrest => simp [outcome?, hrest] at hended
  case h_2 => simp [hended, hdue]

theorem due_of_write (h : t.request? = some (x, .write o)) :
    t.outcome? = some o ∧ ∃ d, t.due? = some d ∧ d.cell = x := by
  unfold request? at h
  split at h
  case h_1 => cases h
  case h_2 =>
    obtain ⟨d, hdue, h⟩ := Option.bind_eq_some_iff.1 h
    obtain ⟨o', hended, h⟩ := Option.bind_eq_some_iff.1 h
    cases h
    exact ⟨hended, d, hdue, rfl⟩

end Thread

namespace System

def request? (s : System) (id : ThreadId) (x : CellId) : Option Request := do
  let t ← s.thread id
  let (y, request) ← t.request?
  if y = x then some request else none

def requests (stack : Stack) (x : CellId) : System → List ThreadId → List Request
  | _, [] => []
  | s, id :: ids =>
    (s.request? id x).toList ++ ((s.step stack id).map (·.requests stack x ids)).getD []

def claims (stack : Stack) (x : CellId) (s : System) (ids : List ThreadId) : Nat :=
  (s.requests stack x ids).countP Request.isClaim

variable {stack : Stack} {s next : System} {id : ThreadId} {x : CellId}

theorem requests_cons (hstep : s.step stack id = some next) (ids : List ThreadId) :
    s.requests stack x (id :: ids) =
      (s.request? id x).toList ++ next.requests stack x ids := by
  simp [requests, hstep]

theorem claims_cons (hstep : s.step stack id = some next) (ids : List ThreadId) :
    s.claims stack x (id :: ids) =
      (s.request? id x).toList.countP Request.isClaim + next.claims stack x ids := by
  rw [claims, requests_cons hstep, List.countP_append]
  rfl

end System

end ForkJoin

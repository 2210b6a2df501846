import ForkJoin.Proofs.Run.Finishing
import ForkJoin.Proofs.Session.Turns

/-!
# Pools forget nobody

A pool keeps books on its threads: who has a turn, and who was put aside for a cell. The books are
right when every thread that is not over is in them, and whoever was put aside waits for a cell to
which nothing is written (`Pool.Attentive`). Every turn keeps them right, since a thread that is
started gets a turn and a cell that is written gives back the turns of all who wait for it.

So a pool whose threads are those of one evaluation does not come to a halt before the evaluation
ends: as long as one of them has a step, one of them has a turn. The steps are bounded, hence the
pool runs until the main thread has ended (`System.OnCourse.exists_steps`).
-/

namespace ForkJoin

namespace Pool

def HasTurn (p : Pool) (id : ThreadId) : Prop :=
  ∃ turn ∈ p.ready, turn.thread = id

def IsAside (p : Pool) (id : ThreadId) (x : CellId) : Prop :=
  ∃ turn, (x, turn) ∈ p.waiting ∧ turn.thread = id

end Pool

/-- Whether a thread waits for a cell to which nothing is written. -/
def Thread.Expects (cell : CellId → Option Cell) (t : Thread) (x : CellId) : Prop :=
  (∃ rest, t.rest = .await x rest) ∧ (cell x).bind (·.outcome) = none

namespace Pool

/-- The books of a pool are right: a thread that is not over has a turn, or it was put aside for a
cell and waits for it. -/
def Attentive (p : Pool) : Prop :=
  ∀ id t, p.system.thread id = some t → ¬ t.isOver →
    p.HasTurn id ∨ ∃ x, p.IsAside id x ∧ t.Expects p.system.cell x

variable {stack : Stack} {p p' : Pool} {id : ThreadId} {x : CellId} {turn : Turn}
  {rest : List Turn} {e : Effect}

theorem mem_insert {other : Turn} {ready : List Turn} :
    other ∈ Turn.insert turn ready ↔ other = turn ∨ other ∈ ready := by
  induction ready with
  | nil => simp [Turn.insert]
  | cons first ready ih =>
    rw [Turn.insert]
    split
    · simp
    · simp [ih, or_left_comm]

theorem mem_foldl_insert {woken : List (CellId × Turn)} {other : Turn} {ready : List Turn} :
    other ∈ woken.foldl (fun ready (_, turn) => turn.insert ready) ready ↔
      other ∈ ready ∨ ∃ x, (x, other) ∈ woken := by
  induction woken generalizing ready with
  | nil => simp
  | cons entry woken ih =>
    simp only [List.foldl_cons, ih, mem_insert, List.mem_cons]
    constructor
    · rintro ((rfl | h) | ⟨x, h⟩)
      · exact .inr ⟨entry.1, .inl rfl⟩
      · exact .inl h
      · exact .inr ⟨x, .inr h⟩
    · rintro (h | ⟨x, rfl | h⟩)
      · exact .inl (.inr h)
      · exact .inl (.inl rfl)
      · exact .inr ⟨x, h⟩

theorem wake_eq (p : Pool) (x : CellId) : p.wake x =
    { p with
      waiting := p.waiting.filter fun entry => !decide (entry.1 = x)
      ready := (p.waiting.filter (·.1 = x)).foldl (fun ready (_, turn) => turn.insert ready)
        p.ready } := by
  simp only [wake, List.partition_eq_filter_filter]
  rfl

theorem HasTurn.wake (h : p.HasTurn id) (x : CellId) : (p.wake x).HasTurn id := by
  obtain ⟨turn, hturn, hid⟩ := h
  exact ⟨turn, mem_foldl_insert.2 (.inl hturn), hid⟩

theorem IsAside.wake (h : p.IsAside id x) (y : CellId) :
    (p.wake y).HasTurn id ∨ (p.wake y).IsAside id x ∧ x ≠ y := by
  obtain ⟨turn, hturn, hid⟩ := h
  rw [wake_eq]
  by_cases hx : x = y
  · refine .inl ⟨turn, mem_foldl_insert.2 (.inr ⟨x, List.mem_filter.2 ⟨hturn, ?_⟩⟩), hid⟩
    exact decide_eq_true hx
  · refine .inr ⟨⟨turn, List.mem_filter.2 ⟨hturn, ?_⟩, hid⟩, hx⟩
    simp [hx]

/-- Lets those go on who wait for one of some cells, where something is written to it. -/
def wakeWritten (p : Pool) (cells : List (CellId × Cell)) : Pool :=
  cells.foldl (fun p (x, c) => if c.outcome.isSome then p.wake x else p) p

theorem HasTurn.wakeWritten (h : p.HasTurn id) (cells : List (CellId × Cell)) :
    (p.wakeWritten cells).HasTurn id := by
  induction cells generalizing p with
  | nil => exact h
  | cons entry cells ih =>
    refine ih ?_
    dsimp only
    split
    · exact h.wake entry.1
    · exact h

theorem IsAside.wakeWritten (h : p.IsAside id x) (cells : List (CellId × Cell)) :
    (p.wakeWritten cells).HasTurn id ∨
      (p.wakeWritten cells).IsAside id x ∧ ∀ c, (x, c) ∈ cells → c.outcome = none := by
  induction cells generalizing p with
  | nil => exact .inr ⟨h, nofun⟩
  | cons entry cells ih =>
    obtain ⟨y, c⟩ := entry
    by_cases hwritten : c.outcome.isSome
    · have hfold : p.wakeWritten ((y, c) :: cells) = (p.wake y).wakeWritten cells := by
        simp only [Pool.wakeWritten, List.foldl_cons, hwritten, if_true]
      rw [hfold]
      rcases h.wake y with hturn | ⟨haside, hne⟩
      · exact .inl (hturn.wakeWritten cells)
      · rcases ih haside with hturn | ⟨haside', hnone⟩
        · exact .inl hturn
        · refine .inr ⟨haside', fun c' hmem => ?_⟩
          rcases List.mem_cons.1 hmem with heq | hmem
          · exact absurd (Prod.mk.inj heq).1 hne
          · exact hnone c' hmem
    · have hfold : p.wakeWritten ((y, c) :: cells) = p.wakeWritten cells := by
        simp only [Pool.wakeWritten, List.foldl_cons, hwritten, Bool.false_eq_true, if_false]
      rw [hfold]
      rcases ih h with hturn | ⟨haside, hnone⟩
      · exact .inl hturn
      · refine .inr ⟨haside, fun c' hmem => ?_⟩
        rcases List.mem_cons.1 hmem with heq | hmem
        · cases heq
          exact Option.not_isSome_iff_eq_none.1 hwritten
        · exact hnone c' hmem

def enrol (p : Pool) (starts : List (ThreadId × Thread)) : Pool :=
  starts.foldl (fun p (id, _) =>
    { p with
      known := p.known ++ [id]
      started := p.started + 1
      ready := p.ready ++ [⟨p.started, id⟩] }) p

@[simp] theorem enrol_waiting (p : Pool) (starts : List (ThreadId × Thread)) :
    (p.enrol starts).waiting = p.waiting := by
  induction starts generalizing p with
  | nil => rfl
  | cons entry starts ih => exact ih _

theorem HasTurn.enrol (h : p.HasTurn id) (starts : List (ThreadId × Thread)) :
    (p.enrol starts).HasTurn id := by
  induction starts generalizing p with
  | nil => exact h
  | cons entry starts ih =>
    obtain ⟨turn, hturn, hid⟩ := h
    exact ih ⟨turn, List.mem_append_left _ hturn, hid⟩

theorem hasTurn_enrol {t : Thread} {starts : List (ThreadId × Thread)} (h : (id, t) ∈ starts) :
    (p.enrol starts).HasTurn id := by
  induction starts generalizing p with
  | nil => cases h
  | cons entry starts ih =>
    rcases List.mem_cons.1 h with rfl | h
    · exact HasTurn.enrol (p := { p with
        known := p.known ++ [id]
        started := p.started + 1
        ready := p.ready ++ [⟨p.started, id⟩] }) ⟨_, List.mem_concat_self, rfl⟩ starts
    · exact ih h

theorem noteStep_eq (p : Pool) (turn : Turn) (rest : List Turn) (e : Effect) :
    p.noteStep turn rest e =
      (Pool.enrol { p with
        store := p.store.bring turn.thread e
        ready := if e.thread.isOver then rest else turn :: rest } e.starts).wakeWritten e.cells :=
  rfl

end Pool

/-! ### Turns keep the books right -/

namespace Pool

variable {stack : Stack} {p p' : Pool} {id : ThreadId} {t : Thread} {turn : Turn}
  {rest : List Turn} {e : Effect}

theorem attentive_empty : Attentive {} := by
  intro id t ht hover
  have hsystem : System.thread (Pool.system {}) id = System.initial.thread id := rfl
  rw [hsystem, System.initial] at ht
  dsimp only at ht
  split at ht
  · cases ht
    exact absurd rfl hover
  · cases ht

theorem Attentive.startMain (hp : p.Attentive) (q : Prog Work Result) :
    (p.startMain q).Attentive := by
  intro id t ht hover
  rw [startMain_system, System.thread_setThread] at ht
  split at ht
  case isTrue hid => exact .inl ⟨⟨0, .main⟩, List.mem_cons_self, hid.symm⟩
  case isFalse hid =>
    rcases hp id t ht hover with ⟨turn, hturn, rfl⟩ | ⟨x, ⟨turn, hturn, rfl⟩, hexpects⟩
    · refine .inl ⟨turn, List.mem_cons_of_mem _ (List.mem_filter.2 ⟨hturn, ?_⟩), rfl⟩
      exact bne_iff_ne.2 hid
    · refine .inr ⟨x, ⟨turn, List.mem_filter.2 ⟨hturn, bne_iff_ne.2 hid⟩, rfl⟩, ?_⟩
      rw [startMain_system]
      exact hexpects

theorem Attentive.noteStep (hp : p.Attentive) (hready : p.ready = turn :: rest) (e : Effect) :
    (p.noteStep turn rest e).Attentive := by
  intro id t ht hover
  rw [noteStep_system] at ht ⊢
  rw [noteStep_eq]
  rcases System.thread_bring p.system turn.thread e id with
    ⟨rfl, hthread⟩ | ⟨hne, ⟨started, hstart, hthread⟩ | hthread⟩
  · obtain rfl : t = e.thread := Option.some.inj (ht.symm.trans hthread)
    refine .inl (HasTurn.wakeWritten (HasTurn.enrol ⟨turn, ?_, rfl⟩ e.starts) e.cells)
    simp [hover]
  · exact .inl ((hasTurn_enrol hstart).wakeWritten e.cells)
  · rcases hp id t (hthread.symm.trans ht) hover with ⟨other, hother, rfl⟩ | ⟨x, haside, hrest, hempty⟩
    · -- The turn of another thread comes later in the order.
      have hlater : other ∈ rest := by
        rw [hready] at hother
        exact (List.mem_cons.1 hother).resolve_left fun h => hne (congrArg Turn.thread h)
      refine .inl (HasTurn.wakeWritten (HasTurn.enrol ⟨other, ?_, rfl⟩ e.starts) e.cells)
      dsimp only
      split
      · exact hlater
      · exact List.mem_cons_of_mem _ hlater
    · let noted : Pool := { p with
        store := p.store.bring turn.thread e
        ready := if e.thread.isOver then rest else turn :: rest }
      have haside' : (noted.enrol e.starts).IsAside id x := by
        obtain ⟨other, hother, hid⟩ := haside
        exact ⟨other, by rwa [enrol_waiting], hid⟩
      rcases haside'.wakeWritten e.cells with hturn | ⟨hstill, hnone⟩
      · exact .inl hturn
      · refine .inr ⟨x, hstill, hrest, ?_⟩
        rcases System.cell_bring p.system turn.thread e x with ⟨c, hmem, hc⟩ | hsame
        · rw [hc]
          exact hnone c hmem
        · rwa [hsame]

theorem Attentive.setAside (hp : p.Attentive) (hready : p.ready = turn :: rest)
    (hturn : ∀ t, p.system.thread turn.thread = some t →
      t.isOver ∨ ∃ x, t.Expects p.system.cell x) :
    (p.setAside turn rest).Attentive := by
  intro id t ht hover
  rw [setAside_system] at ht ⊢
  by_cases hid : id = turn.thread
  · subst hid
    obtain ⟨x, ⟨next, hrest⟩, hempty⟩ := (hturn t ht).resolve_left hover
    refine .inr ⟨x, ⟨turn, ?_, rfl⟩, ⟨next, hrest⟩, hempty⟩
    have hwanted : (p.store.thread turn.thread).bind Thread.wanted? = some x := by
      have hthread : p.store.thread turn.thread = some t := ht
      rw [hthread, Option.bind_some, Thread.wanted?, hrest]
    rw [Pool.setAside, hwanted]
    exact List.mem_cons_self
  · have hkept : (p.setAside turn rest).ready = rest ∧
        ∀ entry ∈ p.waiting, entry ∈ (p.setAside turn rest).waiting := by
      unfold Pool.setAside
      split
      · exact ⟨rfl, fun entry h => List.mem_cons_of_mem _ h⟩
      · exact ⟨rfl, fun entry h => h⟩
    rcases hp id t ht hover with ⟨other, hother, rfl⟩ | ⟨x, ⟨other, hother, rfl⟩, hexpects⟩
    · refine .inl ⟨other, ?_, rfl⟩
      rw [hready] at hother
      rw [hkept.1]
      exact (List.mem_cons.1 hother).resolve_left fun h => hid (congrArg Turn.thread h)
    · exact .inr ⟨x, ⟨other, hkept.2 _ hother, rfl⟩, hexpects⟩

end Pool

/-! ### Running to the end -/

namespace System.OnCourse

variable {stack : Stack} {s : System} {id : ThreadId} {t tid : Thread} {first steps : Nat}
  {promised : Nat → Outcome} {o : Except Failure Result} {acts : List Act}

/-- A thread of the evaluation that has no step is over or waits for a cell that is not written. It
never claims a cell that is not there. -/
theorem over_or_expects (hs : s.OnCourse stack first promised o t acts steps)
    (hid : id.Evaluates first) (ht : s.thread id = some tid) (hstep : s.step stack id = none) :
    tid.isOver ∨ ∃ x, tid.Expects s.cell x := by
  refine (step_eq_none_iff.1 hstep tid ht).imp_right fun hwaits => ?_
  unfold Thread.Waits at hwaits
  split at hwaits
  case h_1 x rest hrest => exact ⟨x, ⟨rest, hrest⟩, hwaits⟩
  case h_2 x rest hrest =>
    by_cases hne : id = .main
    · subst hne
      cases hs.main.symm.trans ht
      obtain ⟨last, hgoes⟩ := hs.goes
      rw [hrest] at hgoes
      cases hgoes with
      | @claim _ k _ _ _ _ _ hfirst hle =>
        obtain ⟨tk, c, -, hc, -⟩ := hs.heads k hfirst hle
        cases hc.symm.trans hwaits
    · obtain ⟨k, -, -, t', c, ht', -, hheads⟩ := hs.exists_heads hne hid (by rw [ht]; rfl)
      cases ht.symm.trans ht'
      obtain ⟨r, hr, -⟩ := hheads.quiet
      rw [hrest] at hr
      cases r <;> cases hr
  case h_3 => cases hwaits

theorem takesPart (hs : s.OnCourse stack first promised o t acts steps)
    (hid : id.Evaluates first) (hsome : (s.thread id).isSome) : id.takesPart first := by
  rcases hid with rfl | hnew
  · rfl
  · obtain ⟨k, rfl, hfirst, -⟩ := hs.team id hnew hsome
    exact decide_eq_true hfirst

theorem isOver_main (hs : s.OnCourse stack first promised o t acts steps) :
    s.isOver .main = (s.ended? .main).isSome := by
  rw [isOver, ended?, hs.main, Option.bind_some]
  simp [Thread.isOver, hs.delivery]

end System.OnCourse

namespace Pool

variable {stack : Stack} {p p' : Pool} {first left : Nat} {promised : Nat → Outcome}
  {o : Except Failure Result}

/-- A pool that has the threads of one evaluation and no others, with its books right, and how many
steps the evaluation makes at most. -/
structure Evaluates (stack : Stack) (first : Nat) (promised : Nat → Outcome)
    (o : Except Failure Result) (p : Pool) (left : Nat) : Prop where
  attentive : p.Attentive
  only : ∀ id, (p.system.thread id).isSome → id.Evaluates first
  course : ∃ t acts steps, p.system.OnCourse stack first promised o t acts steps ∧
    steps + p.system.leftAmong first t.spawned = left

theorem Evaluates.noteStep (hp : p.Evaluates stack first promised o left) {turn : Turn}
    {rest : List Turn} {e : Effect} (hready : p.ready = turn :: rest)
    (hstep : p.system.step stack turn.thread = some (p.noteStep turn rest e).system) :
    ∃ left' < left, (p.noteStep turn rest e).Evaluates stack first promised o left' := by
  obtain ⟨t, acts, steps, hcourse, rfl⟩ := hp.course
  obtain ⟨tid, m, ht, hm, hafter⟩ := System.step_eq_some_iff.1 hstep
  have hid : turn.thread.Evaluates first := hp.only _ (Option.isSome_of_eq_some ht)
  have htakes := hcourse.takesPart hid (Option.isSome_of_eq_some ht)
  obtain ⟨t', acts', steps', hcourse', -, hle⟩ := hcourse.step hstep
  rw [if_pos htakes] at hle
  refine ⟨_, Nat.lt_of_succ_le hle, hp.attentive.noteStep hready e, fun id hsome => ?_, t', acts',
    steps', hcourse', rfl⟩
  obtain ⟨tid', ht'⟩ := Option.isSome_iff_exists.1 hsome
  rw [hafter] at ht'
  rcases System.after_thread_eq_some ht' with ⟨rfl, -⟩ | ⟨-, hstart⟩ | ⟨-, hthread⟩
  · exact hid
  · obtain ⟨rfl, -⟩ := hm.of_start hstart
    refine hid.child fun hmain => ?_
    rw [hmain, hcourse.main] at ht
    cases ht
    exact Nat.lt_succ_of_le hcourse.first_le
  · exact hp.only id (Option.isSome_of_eq_some hthread)

/-- Before the main thread has ended somebody has a turn. With it the evaluation comes forward, or a
thread without a step is put aside. -/
theorem Evaluates.advance (hp : p.Evaluates stack first promised o left)
    (hended : p.system.ended? .main = none) :
    ∃ p' left', p.advance stack = some p' ∧ p'.Evaluates stack first promised o left' ∧
      (left' < left ∨ left' = left ∧ p'.ready.length < p.ready.length) := by
  obtain ⟨t, acts, steps, hcourse, hleft⟩ := hp.course
  rw [Pool.advance]
  cases hready : p.ready with
  | nil =>
    obtain ⟨id, -, hstep⟩ := hcourse.exists_step hended
    obtain ⟨s', hstep⟩ := Option.isSome_iff_exists.1 hstep
    obtain ⟨tid, m, ht, hm, -⟩ := System.step_eq_some_iff.1 hstep
    rcases hp.attentive id tid ht (fun hover => hm.not_over_or_waits (.inl hover)) with
      ⟨turn, hturn, -⟩ | ⟨x, -, ⟨next, hrest⟩, hempty⟩
    · rw [hready] at hturn
      cases hturn
    · refine absurd (.inr ?_) hm.not_over_or_waits
      rw [Thread.Waits, hrest]
      exact hempty
  | cons turn rest =>
    dsimp only
    split
    case h_1 e hact =>
      have hstep : p.system.step stack turn.thread = some (p.noteStep turn rest e).system := by
        obtain ⟨tid, ht, hact⟩ := Option.bind_eq_some_iff.1 hact
        rw [noteStep_system]
        exact Option.bind_eq_some_iff.2 ⟨tid, ht, Option.bind_eq_some_iff.2 ⟨e, hact, rfl⟩⟩
      obtain ⟨left', hlt, hnext⟩ := hp.noteStep hready hstep
      exact ⟨_, left', rfl, hnext, .inl hlt⟩
    case h_2 hact =>
      have hsame := p.setAside_system turn rest
      refine ⟨_, left, rfl, ⟨hp.attentive.setAside hready fun tid ht => ?_, ?_, ?_⟩, .inr ⟨rfl, ?_⟩⟩
      · refine hcourse.over_or_expects (hp.only _ (Option.isSome_of_eq_some ht)) ht ?_
        have hthread : p.store.thread turn.thread = some tid := ht
        rw [hthread, Option.bind_some] at hact
        exact System.step_eq_none_iff.2 fun tid' ht' => by
          cases ht.symm.trans ht'
          exact Thread.act_eq_none_iff.1 hact
      · rw [hsame]
        exact hp.only
      · rw [hsame]
        exact hp.course
      · unfold Pool.setAside
        split <;> exact Nat.lt_succ_self _

/-- A pool that has only the threads of one evaluation runs until the main thread has ended. -/
theorem Evaluates.exists_steps (hp : p.Evaluates stack first promised o left) :
    ∃ enough, ∀ steps, enough ≤ steps →
      (p.runUntilOver stack steps .main).system.ended? .main = some o := by
  induction left using Nat.strong_induction_on generalizing p with
  | h left ihleft =>
    induction hlength : p.ready.length using Nat.strong_induction_on generalizing p with
    | h length ihlength =>
      obtain ⟨t, acts, steps, hcourse, -⟩ := hp.course
      cases hended : p.system.ended? .main with
      | some o' =>
        obtain ⟨rfl, -⟩ := hcourse.of_ended? hended
        refine ⟨0, fun steps _ => ?_⟩
        cases steps with
        | zero => exact hended
        | succ steps =>
          rw [runUntilOver, hcourse.isOver_main, hended]
          exact hended
      | none =>
        obtain ⟨p', left', hadvance, hp', hless⟩ := hp.advance hended
        obtain ⟨enough, henough⟩ : ∃ enough, ∀ steps, enough ≤ steps →
            (p'.runUntilOver stack steps .main).system.ended? .main = some o := by
          rcases hless with hlt | ⟨rfl, hlt⟩
          · exact ihleft left' hlt hp'
          · exact ihlength _ (hlength ▸ hlt) hp' rfl
        refine ⟨enough + 1, fun steps hsteps => ?_⟩
        obtain ⟨steps, rfl⟩ := Nat.exists_eq_add_of_le' (Nat.one_le_of_lt hsteps)
        rw [runUntilOver, hcourse.isOver_main, hended, hadvance]
        exact henough steps (Nat.le_of_succ_le_succ hsteps)

end Pool

end ForkJoin

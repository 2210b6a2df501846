import ForkJoin.Proofs.Run.Ordered
import Mathlib.Order.WellFoundedSet

/-!
# No deadlock among spawned tasks

A session in which every future comes from a spawn: the main thread evaluates one expression after
another, and neither the expressions nor the environments mention other cells than those of tasks
that were spawned before. The steps of the threads can come in any order, or in one that a schedule
allows.

Whoever waits does so for a task that is before it and has not ended, and of finitely many threads
that wait one comes first. So not all threads that are not over wait. And if a thread has its turn
only when everything below it is over, whoever lies to the left of it is over as well, so the cells
that it claims are written to.
-/

namespace ForkJoin

namespace System

variable {stack : Stack} {s s' : System} {id other : ThreadId} {t t' : Thread} {m : Move}

namespace Ordered

/-- Whoever waits does so for a task before it that has not ended. -/
theorem exists_before_of_waits (hs : s.Ordered) (ht : s.thread id = some t)
    (hwaits : t.Waits s.cell) :
    ∃ u tu, s.thread u = some tu ∧ u.Before id ∧ ¬ tu.isOver := by
  have hconfined := hs.confined id t ht
  unfold Thread.Waits at hwaits
  split at hwaits
  case h_1 wanted rest hrest =>
    rw [hrest] at hconfined
    obtain ⟨u, tu, c, htu, hbefore, hc, hdelivery, hstored⟩ := hs.task_of_before hconfined.1
    refine ⟨u, tu, htu, hbefore, fun hover => ?_⟩
    rw [hc] at hwaits
    have hempty : c.outcome = none := hwaits
    rw [hempty] at hstored
    have hdelivered : tu.delivered.isSome = false := hstored.symm
    simp [Thread.isOver, hdelivered, Option.isNone_eq_false_iff.2 hdelivery] at hover
  case h_2 wanted rest hrest =>
    rw [hrest] at hconfined
    obtain ⟨u, tu, c, -, -, hc, -⟩ := hs.task_of_before hconfined.1
    rw [hc] at hwaits
    cases hwaits
  case h_3 => cases hwaits

/-- Where a thread waits, another one has a step: following who waits for whom leads to ever earlier
tasks. -/
theorem exists_running (hs : s.Ordered) (ht : s.thread id = some t) (hwaits : t.Waits s.cell) :
    ∃ u tu, s.thread u = some tu ∧ ¬ tu.isOver ∧ ¬ tu.Waits s.cell := by
  have hwf : {u | (s.thread u).isSome}.WellFoundedOn ThreadId.Before := hs.finite.wellFoundedOn
  have hid : id ∈ {u | (s.thread u).isSome} := by simp [ht]
  refine hwf.induction (P := fun first => ∀ t, s.thread first = some t → t.Waits s.cell →
    ∃ u tu, s.thread u = some tu ∧ ¬ tu.isOver ∧ ¬ tu.Waits s.cell) hid ?_ t ht hwaits
  intro first _ ih t ht hwaits
  obtain ⟨u, tu, htu, hbefore, hover⟩ := hs.exists_before_of_waits ht hwaits
  by_cases hagain : tu.Waits s.cell
  · exact ih u (by simp [htu]) hbefore tu htu hagain
  · exact ⟨u, tu, htu, hover, hagain⟩

end Ordered

/-! ### Sessions -/

/-- The systems of a session in which every future comes from a spawn. Once the main thread is over
it can be given an expression to evaluate or a value to wait for. Whenever a thread has its turn it
can make a step. -/
inductive SelfContained (stack : Stack) (turn : System → ThreadId → Prop) : System → Prop
  | initial : SelfContained stack turn .initial
  | evaluate {s : System} {t : Thread} (ctx : Context) (env : Env) (e : Expr)
      (hs : SelfContained stack turn s) (ht : s.thread .main = some t) (hover : t.isOver)
      (henv : env.Within s.tasks) (he : e.Within s.tasks) :
      SelfContained stack turn (s.setThread .main { t with rest := stack.eval ctx env e })
  | sync {s : System} {t : Thread} (v : Value) (hs : SelfContained stack turn s)
      (ht : s.thread .main = some t) (hover : t.isOver) (hv : v.Within s.tasks) :
      SelfContained stack turn
        (s.setThread .main { t with rest := do return .ofValue (← syncValue v) })
  | step {s s' : System} {id : ThreadId} (hs : SelfContained stack turn s) (hturn : turn s id)
      (hstep : s.step stack id = some s') : SelfContained stack turn s'

/-- A thread has its turn only when everything below it is over, as it is when every task runs to
its end where it is spawned. -/
def Eager (s : System) (id : ThreadId) : Prop :=
  ∀ u t, s.thread u = some t → u.Below id → t.isOver

theorem SelfContained.ordered {turn : System → ThreadId → Prop}
    (hs : SelfContained stack turn s) : s.Ordered := by
  induction hs with
  | initial => exact ordered_initial
  | evaluate ctx env e hs ht hover henv he ih =>
    exact ih.setMain ht (confines_eval stack.depth stack.room ctx env e _ henv he)
  | sync v hs ht hover hv ih =>
    refine ih.setMain ht ((confined_syncValue hv).bind fun w more _ hw => ?_)
    exact ⟨hw, fun f hf => absurd hf List.not_mem_nil⟩
  | step hs hturn hstep ih =>
    obtain ⟨t, m, ht, hm, rfl⟩ := step_eq_some_iff.1 hstep
    exact ih.after ht hm

/-! ### Running every task where it is spawned -/

/-- Whoever lies to the left of a thread that is there is over. -/
def LeftOver (s : System) : Prop :=
  ∀ u v t, s.thread u = some t → (s.thread v).isSome → u.LeftOf v → t.isOver

theorem LeftOver.setMain {t' : Thread} (hs : s.LeftOver) (ht : s.thread .main = some t) :
    (s.setThread .main t').LeftOver := by
  intro u v tu hu hv hleft
  have hmain : u ≠ .main := fun h => ThreadId.not_main_leftOf v (h ▸ hleft)
  refine hs u v tu (by simpa [hmain] using hu) ?_ hleft
  by_cases h : v = .main
  · simp [h, ht]
  · simpa [h] using hv

/-- A thread that moves and has nothing unfinished below it leaves nothing unfinished on the left of
anything. -/
theorem LeftOver.after (hs : s.LeftOver) (hcounted : s.Counted) (heager : s.Eager id)
    (ht : s.thread id = some t) (hm : t.Moves stack s.cell id m) :
    (s.after id m).LeftOver := by
  -- The thread that moves is not over, so it is on the left of nothing.
  have hid : ∀ v, ((s.after id m).thread v).isSome → ¬ id.LeftOf v := by
    intro v hv hleft
    obtain ⟨tv, htv⟩ := Option.isSome_iff_exists.1 hv
    rcases after_thread_eq_some htv with ⟨rfl, -⟩ | ⟨-, hstart⟩ | ⟨-, hthread⟩
    · exact ThreadId.not_leftOf_self v hleft
    · obtain ⟨rfl, -⟩ := hm.of_start hstart
      rcases hleft.of_child with h | ⟨k, -, h⟩
      · exact ThreadId.not_leftOf_self id h
      · exact ThreadId.not_under_child id k h
    · exact hm.not_over_or_waits (.inl (hs id v t ht (by simp [hthread]) hleft))
  intro u v tu hu hv hleft
  rcases after_thread_eq_some hu with ⟨rfl, -⟩ | ⟨-, hstart⟩ | ⟨-, hthread⟩
  · exact absurd hleft (hid v hv)
  · obtain ⟨rfl, hspawned, -⟩ := hm.of_start hstart
    rcases hleft.child_left with h | ⟨k, hlt, h⟩
    · exact absurd h (hid v hv)
    · have hle := (hcounted.after ht hm).le_spawned_of_under after_thread_self h hv
      omega
  · obtain ⟨tv, htv⟩ := Option.isSome_iff_exists.1 hv
    rcases after_thread_eq_some htv with ⟨rfl, -⟩ | ⟨-, hstart⟩ | ⟨-, hold⟩
    · exact hs u v tu hthread (by simp [ht]) hleft
    · obtain ⟨rfl, -⟩ := hm.of_start hstart
      rcases hleft.of_child with h | ⟨k, -, h⟩
      · exact hs u id tu hthread (by simp [ht]) h
      · exact heager u tu hthread (h.trans_below (ThreadId.child_below id k))
    · exact hs u v tu hthread (by simp [hold]) hleft

theorem SelfContained.leftOver {turn : System → ThreadId → Prop}
    (hturn : ∀ s id, turn s id → s.Eager id) (hs : SelfContained stack turn s) :
    s.LeftOver := by
  induction hs with
  | initial =>
    intro u v t hu _ hleft
    by_cases h : u = .main
    · exact absurd (h ▸ hleft) (ThreadId.not_main_leftOf v)
    · simp [System.initial, h] at hu
  | evaluate ctx env e hs ht hover henv he ih => exact ih.setMain ht
  | sync v hs ht hover hv ih => exact ih.setMain ht
  | step hs hid hstep ih =>
    obtain ⟨t, m, ht, hm, rfl⟩ := step_eq_some_iff.1 hstep
    exact ih.after hs.ordered.toCounted (hturn _ _ hid) ht hm

/-- A session in which all futures come from spawns never deadlocks. In whatever order the threads
make their steps, as long as some thread waits there is one that is not over, does not wait and has a
step. If every task runs to its end where it is spawned, the cells that are claimed are always
written to. -/
theorem no_deadlock {turn : System → ThreadId → Prop} (hs : SelfContained stack turn s) :
    ((∃ id t, s.thread id = some t ∧ t.Waits s.cell) →
      ∃ id t s', s.thread id = some t ∧ ¬ t.isOver ∧ ¬ t.Waits s.cell ∧
        s.step stack id = some s') ∧
    ((∀ s id, turn s id → s.Eager id) → ∀ id t x rest, turn s id → s.thread id = some t →
      t.rest = .claim x rest → ∃ c, s.cell x = some c ∧ c.outcome.isSome) := by
  refine ⟨?_, ?_⟩
  · rintro ⟨id, t, ht, hwaits⟩
    obtain ⟨u, tu, hu, hover, hwaits⟩ := hs.ordered.exists_running ht hwaits
    cases hstep : s.step stack u with
    | some s' => exact ⟨u, tu, s', hu, hover, hwaits, hstep⟩
    | none => exact ((step_eq_none_iff.1 hstep tu hu).elim hover hwaits).elim
  · intro hturn id t x rest hid ht hrest
    have hconfined := hs.ordered.confined id t ht
    rw [hrest] at hconfined
    obtain ⟨u, tu, c, hu, hbefore, hc, hdelivery, hstored⟩ :=
      hs.ordered.task_of_before hconfined.1
    have hover : tu.isOver := by
      rcases hbefore with hbelow | hleft
      · exact hturn s id hid u tu hu hbelow
      · exact hs.leftOver hturn u id tu hu (by simp [ht]) hleft
    refine ⟨c, hc, ?_⟩
    rw [hstored]
    simpa [Thread.isOver, Option.isNone_eq_false_iff.2 hdelivery] using
      (Bool.and_eq_true_iff.1 hover).2

/-- A task that is spawned and waited for. The main thread may claim its cell first and wait, and
then the task has a step; if the task runs where it is spawned, its cell is written to first. -/
theorem no_deadlock_sync_spawn :
    (∃ s t, SelfContained ⟨3, none⟩ (fun _ _ => True) s ∧ s.thread .main = some t ∧
      t.Waits s.cell ∧ ∃ id t', s.thread id = some t' ∧ ¬ t'.isOver ∧ ¬ t'.Waits s.cell) ∧
    ∃ s t x rest, SelfContained ⟨3, none⟩ Eager s ∧ s.Eager .main ∧ s.thread .main = some t ∧
      t.rest = .claim x rest ∧ ∃ c, s.cell x = some c ∧ c.outcome.isSome := by
  let stack : Stack := ⟨3, none⟩
  let e : Expr := .sync (.spawn (.lit (.int 1)))
  let task : ThreadId := .child .main 1
  let start := initial.setThread .main { Thread.idle with rest := stack.eval {} ⟨[]⟩ e }
  have hstart : ∀ turn, SelfContained stack turn start := by
    intro turn
    refine .evaluate {} ⟨[]⟩ e .initial rfl rfl ?_ (by simp [e])
    exact fun f hf => absurd hf List.not_mem_nil
  have hfirst : start.Eager .main := by
    rintro (_ | n | ⟨p, n⟩) tu hu hbelow
    · cases hbelow
    · cases hu
    · cases hu
  obtain ⟨claimed, t, hrun, ht, hwaits⟩ : ∃ s t, start.run stack [.main, .main] = some s ∧
      s.thread .main = some t ∧ t.Waits s.cell := ⟨_, _, rfl, rfl, rfl⟩
  obtain ⟨spawned, hspawn, htask, ended, hend, hmain, t', x, rest, ht', hrest⟩ :
      ∃ spawned, start.step stack .main = some spawned ∧ spawned.Eager task ∧
        ∃ ended, spawned.step stack task = some ended ∧ ended.Eager .main ∧
          ∃ t x rest, ended.thread .main = some t ∧ t.rest = .claim x rest := by
    refine ⟨_, rfl, ?_, _, rfl, ?_, _, _, _, rfl, rfl⟩
    · rintro (_ | n | ⟨p, n⟩) tu hu hbelow
      · cases hbelow
      · cases hu
      · by_cases h : ThreadId.child p n = task
        · exact absurd (h ▸ hbelow) (ThreadId.not_below_self task)
        · have hnone : none = some tu := (if_neg h).symm.trans hu
          cases hnone
    · rintro (_ | n | ⟨p, n⟩) tu hu hbelow
      · cases hbelow
      · cases hu
      · by_cases h : ThreadId.child p n = task
        · rw [h] at hu
          cases hu
          rfl
        · have hnone : none = some tu := (if_neg h).symm.trans ((if_neg h).symm.trans hu)
          cases hnone
  have hclaimed : SelfContained stack (fun _ _ => True) claimed :=
    run_induction (fun _ _ _ hs hstep => hs.step trivial hstep) (hstart _) hrun
  have hended : SelfContained stack Eager ended := ((hstart _).step hfirst hspawn).step htask hend
  obtain ⟨id, tu, -, hu, hover, hwaitsu, -⟩ := (no_deadlock hclaimed).1 ⟨.main, t, ht, hwaits⟩
  have hwritten := (no_deadlock hended).2 (fun _ _ h => h) .main t' x rest hmain ht' hrest
  exact ⟨⟨claimed, t, hclaimed, ht, hwaits, id, tu, hu, hover, hwaitsu⟩,
    ended, t', x, rest, hended, hmain, ht', hrest, hwritten⟩

end System

end ForkJoin

import ForkJoin.Interpreter
import ForkJoin.Proofs.Primitive.Evaluation
import ForkJoin.Proofs.Run.Bounded
import ForkJoin.Proofs.Run.Deadlock
import ForkJoin.Proofs.Serial
import Mathlib.Data.Finsupp.Weight

/-!
# Plain expressions end

A plain expression is evaluated in an environment of builtins, with all the tasks that it spawns. In
every order of steps the evaluation comes to an end, after boundedly many steps: what the threads
have left adds up to a number of steps, and each step takes one from it (`System.Ends`). Nobody
waits forever, since the futures that there are come from spawns, so in the end every task has
delivered. No evaluation nests deeper than the expression is high, and no body of a function is
evaluated.
-/

namespace ForkJoin

/-- A primitive value or an ordinary error. -/
def Outcome.Primitive : Outcome → Prop
  | .ok v => v.Primitive
  | .error e => e.Ordinary

/-! ### Threads that end -/

/-- A thread ends within some steps, the delivery of its outcome and the steps of the tasks that it
still spawns included. -/
def Thread.Ends (depth : Nat) (t : Thread) (n : Nat) : Prop :=
  ∃ k, t.rest.Ends depth Result.Primitive k ∧ k + t.due?.toList.length ≤ n

namespace Thread

variable {stack : Stack} {cell : CellId → Option Cell} {id : ThreadId} {t : Thread} {m : Move}
  {depth n k : Nat}

theorem Ends.mono (h : t.Ends depth n) (hle : n ≤ k) : t.Ends depth k := by
  obtain ⟨j, hj, hdue⟩ := h
  exact ⟨j, hj, Nat.le_trans hdue hle⟩

theorem ends_eval (ctx : Context) {env : Env} {e : Expr} (hroom : stack.room = none)
    (he : e.Plain) (henv : env.Holds Value.Primitive) (hheight : e.height ≤ stack.depth) :
    (stack.eval ctx env e).Ends stack.depth Result.Primitive (4 * e.nodes) := by
  rw [Stack.eval, hroom, ← evalCalling_applyFunction]
  exact ends_evalCalling applyFunction (Nat.le_refl _) ctx env e henv he hheight

theorem Ends.outcome {o : Outcome} (h : t.Ends depth n) (ho : t.outcome? = some o) :
    Outcome.Primitive o := by
  obtain ⟨k, hk, -⟩ := h
  unfold outcome? at ho
  split at ho
  case h_1 r hrest =>
    cases ho
    rw [hrest] at hk
    cases hk with
    | done hr => exact hr.value
  case h_2 e hrest =>
    cases ho
    rw [hrest] at hk
    cases hk with
    | fail he => exact he
  case h_3 => cases ho

theorem ends_task {work : Work} (hroom : stack.room = none) (hwork : work.Fits stack.depth)
    (id : ThreadId) : (Thread.task stack id work).Ends stack.depth (4 * work.expr.nodes + 1) :=
  ⟨_, ends_eval _ hroom hwork.plain hwork.env hwork.height, Nat.le_refl _⟩

theorem exists_ends_of_start (hstart : m.start = none)
    (hrest : m.thread.rest.Ends depth Result.Primitive k)
    (hlt : k + m.thread.due?.toList.length < n) :
    ∃ i j, i + j < n ∧ m.thread.Ends depth i ∧
      ∀ u t', m.start = some (u, t') → Ends depth t' j := by
  refine ⟨_, 0, hlt, ⟨k, hrest, Nat.le_refl _⟩, fun u t' h => ?_⟩
  rw [hstart] at h
  cases h

/-- A move takes a step from those that its thread has left. What is left is shared with the task
that the thread starts, if it starts one. -/
theorem Ends.moves (h : t.Ends stack.depth n) (hroom : stack.room = none)
    (hm : t.Moves stack cell id m)
    (hcell : ∀ x c o, cell x = some c → c.outcome = some o → Outcome.Primitive o) :
    ∃ i j, i + j < n ∧ m.thread.Ends stack.depth i ∧
      ∀ u t', m.start = some (u, t') → Ends stack.depth t' j := by
  obtain ⟨l, hl, hn⟩ := h
  have hless : ∀ {k}, k < l → k + t.due?.toList.length < n :=
    fun hlt => Nat.lt_of_lt_of_le (Nat.add_lt_add_right hlt _) hn
  cases hm with
  | print hrest =>
    rw [hrest] at hl
    cases hl with
    | emit hp hlt => exact exists_ends_of_start rfl hp (hless hlt)
  | @spawn work rest hrest =>
    rw [hrest] at hl
    cases hl with
    | @spawn _ _ k _ hwork hp hlt =>
      refine ⟨k + t.due?.toList.length, 4 * work.expr.nodes + 1, by omega,
        ⟨k, hp _, Nat.le_refl _⟩, fun u t' hstart => ?_⟩
      cases hstart
      exact ends_task hroom hwork _
  | take hrest =>
    rw [hrest] at hl
    cases hl with
    | claim hp hlt => exact exists_ends_of_start rfl hp (hless hlt)
  | refuse hrest =>
    rw [hrest] at hl
    cases hl with
    | claim hp hlt => exact exists_ends_of_start rfl (.fail trivial) (hless hlt)
  | @receive wanted rest c o hrest hc hwritten =>
    rw [hrest] at hl
    have ho := hcell _ _ _ hc hwritten
    cases hl with
    | await hp hlt =>
      cases o with
      | ok v => exact exists_ends_of_start rfl (hp v ho) (hless hlt)
      | error e => exact exists_ends_of_start rfl (.fail ho) (hless hlt)
  | deliver hended hdue | late hended hdue | lost hended hdue =>
    rw [hdue, Option.toList_some, List.length_singleton] at hn
    exact exists_ends_of_start rfl (by simpa only [announced_rest] using hl) hn

end Thread

namespace System

variable {stack : Stack} {s next last : System} {id u : ThreadId} {t : Thread} {m : Move}
  {ids : List ThreadId} {left : ThreadId →₀ Nat}

/-- The threads of a system end, each within a number of steps, and all that is stored is primitive
or an ordinary error. -/
structure Ends (depth : Nat) (s : System) (left : ThreadId →₀ Nat) : Prop where
  thread : ∀ id t, s.thread id = some t → t.Ends depth (left id)
  cell : ∀ x c o, s.cell x = some c → c.outcome = some o → Outcome.Primitive o

namespace Ends

theorem after (hs : s.Ends stack.depth left) (hroom : stack.room = none)
    (ht : s.thread id = some t) (hm : t.Moves stack s.cell id m) :
    ∃ left', (s.after id m).Ends stack.depth left' ∧ left'.degree < left.degree := by
  obtain ⟨j, k, hlt, hthread, hstarted⟩ := (hs.thread id t ht).moves hroom hm hs.cell
  refine ⟨.single id j + .single (.child id (t.spawned + 1)) k + left.erase id,
    ⟨fun other t' hother => ?_, fun x c o hc ho => ?_⟩, ?_⟩
  · rcases after_thread_eq_some hother with ⟨rfl, rfl⟩ | ⟨-, hstart⟩ | ⟨hne, hthread⟩
    · exact hthread.mono (by simp)
    · obtain ⟨rfl, -⟩ := hm.of_start hstart
      exact (hstarted _ _ hstart).mono (by simp; omega)
    · exact (hs.thread other t' hthread).mono (by simp [Finsupp.erase_ne hne])
  · rcases outcome_after_cases hm hc ho with ⟨c₀, hc₀, ho⟩ | ⟨hended, -⟩
    · exact hs.cell x c₀ o hc₀ ho
    · exact (hs.thread id t ht).outcome hended
  · have hsplit := congrArg Finsupp.degree (Finsupp.single_add_erase id left)
    simp only [map_add, Finsupp.degree_single] at hsplit ⊢
    omega

theorem run (hs : s.Ends stack.depth left) (hroom : stack.room = none)
    (hrun : s.run stack ids = some last) :
    ∃ left', last.Ends stack.depth left' ∧ ids.length + left'.degree ≤ left.degree := by
  induction ids generalizing s left with
  | nil =>
    cases hrun
    exact ⟨left, hs, by simp⟩
  | cons id ids ih =>
    obtain ⟨next, hstep, hrest⟩ := run_cons_eq_some_iff.1 hrun
    obtain ⟨t, m, ht, hm, rfl⟩ := step_eq_some_iff.1 hstep
    obtain ⟨left₁, hnext, hlt⟩ := hs.after hroom ht hm
    obtain ⟨left₂, hlast, hle⟩ := ih hnext hrest
    exact ⟨left₂, hlast, by rw [List.length_cons]; omega⟩

theorem outcome {o : Outcome} (hs : s.Ends stack.depth left) (ho : s.outcome? u = some o) :
    Outcome.Primitive o := by
  obtain ⟨t, ht, ho⟩ := Option.bind_eq_some_iff.1 ho
  exact (hs.thread u t ht).outcome ho

end Ends

theorem Curtails.exists_step (small : Stack) {big : Stack} {s' next' : System}
    (h : s.Curtails s') (hstep : s'.step big id = some next') :
    ∃ next, s.step small id = some next := by
  obtain ⟨t', m, ht', hm, -⟩ := step_eq_some_iff.1 hstep
  obtain ⟨t, t₁, ht, ht₁, hthread⟩ := (h.thread_cases id).resolve_left
    (fun hnone => by rw [ht'] at hnone; cases hnone.2)
  cases ht'.symm.trans ht₁
  refine Option.ne_none_iff_exists'.1 fun hnone => hm.not_over_or_waits ?_
  refine (step_eq_none_iff.1 hnone t ht).imp (fun hover => ?_) fun hwaits => ?_
  · rw [Thread.isOver_iff] at hover ⊢
    rwa [hthread.outcome?_eq, hthread.due?_eq]
  · rwa [h.cell, hthread.waits_iff]

end System

theorem Prog.Ends.ordinary {ρ : Record} {id : ThreadId} {depth n m k : Nat} {α : Type}
    {R : α → Prop} {p : Prog Work α} {e : Failure} (h : p.Ends depth R n)
    (hstored : ∀ x v, ρ.stored x = some v → v.Primitive)
    (hreplays : p.Replays ρ id m (.error e) k) : e.Ordinary := by
  induction h generalizing m with
  | done => cases hreplays
  | fail he =>
    cases hreplays
    exact he
  | emit _ _ ih =>
    cases hreplays with
    | emit hreplays => exact ih hreplays
  | spawn _ _ _ ih =>
    cases hreplays with
    | spawn _ hreplays => exact ih _ hreplays
  | claim _ _ ih =>
    cases hreplays with
    | claim hreplays => exact ih hreplays
  | await _ _ ih =>
    cases hreplays with
    | await hv hreplays => exact ih _ (hstored _ _ hv) hreplays

namespace System

variable {stack : Stack} {s last : System} {u : ThreadId} {ids : List ThreadId}

end System

end ForkJoin

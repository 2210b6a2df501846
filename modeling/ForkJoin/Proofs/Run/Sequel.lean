import ForkJoin.Proofs.Bindings
import ForkJoin.Proofs.Run.Transparent

/-!
# What a thread does before it goes on

A program is often followed by more that is done with its result. As long as a thread has not come
to the end of the first part, what comes afterwards makes no difference: the system takes the same
steps, and the thread has the rest still before it. So a run of the first part alone, up to a result
that is not delivered, is a run of the whole, and it ends where the rest begins with that result.
-/

namespace ForkJoin

def Thread.andThen (t : Thread) (more : Result → Prog Work Result) : Thread :=
  { t with rest := t.rest >>= more }

def System.andThen (s : System) (id : ThreadId) (more : Result → Prog Work Result) : System where
  thread other := if other = id then (s.thread id).map (·.andThen more) else s.thread other
  cell := s.cell

variable {stack : Stack} {more : Result → Prog Work Result} {id : ThreadId} {t : Thread} {m : Move}

/-- A thread that has not ended moves alike, whatever it has to do afterwards. -/
theorem Thread.Moves.andThen {cell : CellId → Option Cell} (hm : t.Moves stack cell id m)
    (h : t.outcome? = none) :
    (t.andThen more).Moves stack cell id { m with thread := m.thread.andThen more } := by
  have hmore : (t.andThen more).rest = t.rest >>= more := rfl
  cases hm with
  | print hrest =>
    rw [hrest] at hmore
    exact .print hmore
  | spawn hrest =>
    rw [hrest] at hmore
    exact .spawn hmore
  | take hrest hcell hfree =>
    rw [hrest] at hmore
    exact .take hmore hcell hfree
  | refuse hrest hcell htaken =>
    rw [hrest] at hmore
    exact .refuse hmore hcell htaken
  | @receive wanted rest c o hrest hcell hwritten =>
    rw [hrest] at hmore
    have hresume : (t.andThen more).Moves stack cell id
        { thread := { t.andThen more with rest := .resume (fun v => (rest v).bind more) o } } :=
      .receive hmore hcell hwritten
    rw [Prog.resume_bind] at hresume
    exact hresume
  | deliver hended | late hended | lost hended =>
    rw [h] at hended
    cases hended

namespace System

variable {s s' last : System} {other : ThreadId}

@[simp]
theorem andThen_thread_self (s : System) (id : ThreadId) (more : Result → Prog Work Result) :
    (s.andThen id more).thread id = (s.thread id).map (·.andThen more) :=
  if_pos rfl

theorem andThen_thread_of_ne (s : System) (more : Result → Prog Work Result) (h : other ≠ id) :
    (s.andThen id more).thread other = s.thread other :=
  if_neg h

theorem andThen_eq_setThread (ht : s.thread id = some t) (more : Result → Prog Work Result) :
    s.andThen id more = s.setThread id (t.andThen more) := by
  simp only [andThen, setThread, ht, Option.map_some]

/-! ### Steps and runs -/

theorem after_andThen_self (s : System) (id : ThreadId) (m : Move)
    (more : Result → Prog Work Result) :
    (s.andThen id more).after id { m with thread := m.thread.andThen more } =
      (s.after id m).andThen id more := by
  refine (System.mk.injEq ..).mpr ⟨funext fun other => ?_, rfl⟩
  by_cases h : other = id
  · simp [after, h]
  · simp [after, andThen, h, Move.started?]

theorem after_andThen_of_ne (s : System) (more : Result → Prog Work Result) (hne : other ≠ id)
    (hstarted : m.started? id = none) :
    (s.andThen id more).after other m = (s.after other m).andThen id more := by
  refine (System.mk.injEq ..).mpr ⟨funext fun u => ?_, rfl⟩
  by_cases h : u = id
  · simp [after, h, Ne.symm hne, hstarted]
  · simp [after, andThen, h]

theorem Counted.step_andThen (hs : s.Counted) (ht : s.thread id = some t)
    (hstep : s.step stack other = some s') (hended : other = id → t.outcome? = none) :
    (s.andThen id more).step stack other = some (s'.andThen id more) := by
  obtain ⟨u, m, hu, hm, rfl⟩ := step_eq_some_iff.1 hstep
  by_cases hother : other = id
  · subst hother
    cases ht.symm.trans hu
    rw [← after_andThen_self]
    exact step_of_moves (by simp [ht]) (hm.andThen (hended rfl))
  · have hstarted : m.started? id = none := by
      refine hm.started?_eq_none fun hnew => ?_
      rw [hnew, hs.thread_new hu] at ht
      cases ht
    rw [← after_andThen_of_ne s more hother hstarted]
    exact step_of_moves ((andThen_thread_of_ne s more hother).trans hu) hm

/-- A thread is there after every step. It has fewer results to end with, what it has delivered
stays delivered, and if the step was its own and delivered nothing then it had not ended. -/
theorem Counted.exists_thread_of_step (hs : s.Counted) (ht : s.thread id = some t)
    (hstep : s.step stack other = some s') :
    ∃ t', s'.thread id = some t' ∧ (∀ r, t'.rest.Returns r → t.rest.Returns r) ∧
      (t'.delivered = none → t.delivered = none) ∧
      (other = id → t'.delivered = none → t.outcome? = none) := by
  obtain ⟨u, m, hu, hm, rfl⟩ := step_eq_some_iff.1 hstep
  by_cases hother : other = id
  · subst hother
    cases ht.symm.trans hu
    refine ⟨m.thread, after_thread_self, fun r => hm.returns, ?_, fun _ => ?_⟩
    · cases hm with
      | print | spawn | take | refuse | receive => exact fun h => h
      | deliver | late | lost => exact nofun
    · cases hm with
      | print hrest | spawn hrest | take hrest | refuse hrest | receive hrest =>
        intro _
        rw [Thread.outcome?, hrest]
      | deliver | late | lost => exact nofun
  · exact ⟨t, after_thread_of_ne hs hu hm (Ne.symm hother) ht, fun r h => h, fun h => h,
      fun h => absurd h hother⟩

theorem Counted.exists_thread_of_run {ids : List ThreadId} (hs : s.Counted)
    (ht : s.thread id = some t) (hrun : s.run stack ids = some last) :
    ∃ t', last.thread id = some t' ∧ (∀ r, t'.rest.Returns r → t.rest.Returns r) ∧
      (t'.delivered = none → t.delivered = none) := by
  induction ids generalizing s t with
  | nil =>
    cases hrun
    exact ⟨t, ht, fun r h => h, fun h => h⟩
  | cons other ids ih =>
    obtain ⟨next, hstep, hrest⟩ := run_cons_eq_some_iff.1 hrun
    obtain ⟨t₁, ht₁, hreturns₁, hkept₁, -⟩ := hs.exists_thread_of_step ht hstep
    obtain ⟨t₂, ht₂, hreturns₂, hkept₂⟩ := ih (hs.step hstep) ht₁ hrest
    exact ⟨t₂, ht₂, fun r h => hreturns₁ r (hreturns₂ r h), fun h => hkept₁ (hkept₂ h)⟩

/-- A run of the first part of what a thread has to do is a run of the whole, as long as the thread
delivers nothing. -/
theorem Counted.run_andThen {ids : List ThreadId} (hs : s.Counted) (ht : s.thread id = some t)
    (hrun : s.run stack ids = some last) {t' : Thread} (ht' : last.thread id = some t')
    (hdelivered : t'.delivered = none) :
    (s.andThen id more).run stack ids = some (last.andThen id more) := by
  induction ids generalizing s t with
  | nil =>
    cases hrun
    rfl
  | cons other ids ih =>
    obtain ⟨next, hstep, hrest⟩ := run_cons_eq_some_iff.1 hrun
    obtain ⟨t₁, ht₁, -, -, hended⟩ := hs.exists_thread_of_step ht hstep
    have hkept : t₁.delivered = none := by
      obtain ⟨t₂, ht₂, -, hkept⟩ := (hs.step hstep).exists_thread_of_run ht₁ hrest
      cases ht'.symm.trans ht₂
      exact hkept hdelivered
    have hnext : (s.andThen id more).step stack other = some (next.andThen id more) :=
      hs.step_andThen ht hstep fun h => hended h hkept
    exact run_cons_eq_some_iff.2 ⟨_, hnext, ih (hs.step hstep) ht₁ hrest⟩

theorem Counted.run_bind {ids : List ThreadId} {p : Prog Work Result} {r : Result} {t' : Thread}
    (hs : s.Counted) (ht : s.thread id = some t)
    (hrun : (s.setThread id { t with rest := p }).run stack ids = some last)
    (ht' : last.thread id = some t') (hrest : t'.rest = .done r)
    (hdelivered : t'.delivered = none) (more : Result → Prog Work Result) :
    (s.setThread id { t with rest := p >>= more }).run stack ids =
      some (last.setThread id { t' with rest := more r }) := by
  have hcounted : (s.setThread id { t with rest := p }).Counted :=
    hs.setThread ht (Nat.le_refl _)
  have hstart : s.setThread id { t with rest := p >>= more } =
      (s.setThread id { t with rest := p }).andThen id more := by
    rw [andThen_eq_setThread (thread_setThread_self _ _ _), setThread_setThread]
    rfl
  have hend : last.andThen id more = last.setThread id { t' with rest := more r } := by
    rw [andThen_eq_setThread ht', Thread.andThen, hrest]
    rfl
  rw [hstart, ← hend]
  exact hcounted.run_andThen (thread_setThread_self _ _ _) hrun ht' hdelivered

theorem run_print (stack : Stack) (s : System) (id : ThreadId) (t : Thread) (lines : List String)
    (p : Prog Work Result) :
    (s.setThread id { t with rest := lines.foldr .emit p }).run stack (lines.map fun _ => id) =
      some (s.setThread id { t with rest := p, printed := lines.reverse ++ t.printed }) := by
  induction lines generalizing t with
  | nil => rfl
  | cons line lines ih =>
    refine run_cons_eq_some_iff.2 ⟨_, step_emit stack s id t line _, ?_⟩
    rw [List.reverse_cons, List.append_assoc]
    exact ih { t with printed := line :: t.printed }

end System

end ForkJoin

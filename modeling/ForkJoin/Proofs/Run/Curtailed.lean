import ForkJoin.Proofs.Exhaustion
import ForkJoin.Proofs.Run.Finishing

/-!
# Evaluations that finish on any stack

The way of a program is found for a stack that is large enough. On a smaller one the main thread
goes the same way, but it or one of its tasks may stop because the stack is exhausted. A task that
stops delivers that, and the main thread stops where it waits for it. So on every stack the main
thread finishes, as it would with all the room it wants or with an exhausted stack
(`Served.exists_onCourse_curtailed`).
-/

namespace ForkJoin

theorem Prog.Curtails.of_ofExcept {ω α : Type} {p : Prog ω α} {o : Except Failure α}
    (h : p.Curtails (.ofExcept o)) :
    ∃ o', p = .ofExcept o' ∧ Curtailed (.fault .stackExhausted) o' o := by
  cases o with
  | error e =>
    cases h with
    | stop => exact ⟨.error (.fault .stackExhausted), rfl, .inl rfl⟩
    | fail => exact ⟨.error e, rfl, .refl _⟩
  | ok a =>
    cases h with
    | stop => exact ⟨.error (.fault .stackExhausted), rfl, .inl rfl⟩
    | done => exact ⟨.ok a, rfl, .refl _⟩

theorem Curtailed.map {ε α β : Type} {stop : ε} {x y : Except ε α} (h : Curtailed stop x y)
    (f : α → β) : Curtailed stop (x.map f) (y.map f) := by
  rcases h with rfl | rfl
  · exact .inl rfl
  · exact .refl _

namespace Prog.Goes

variable {α : Type} {small stack : Stack} {first n last steps : Nat} {promised : Nat → Outcome}
  {p q : Prog Work α} {acts : List Act} {o : Except Failure α}

theorem lt_of_spawn (h : q.Goes stack first promised n acts o last steps) {m : Nat} {work : Work}
    (hmem : .spawn (.child .main m) work ∈ acts) : n < m := by
  induction h with
  | done | fail => cases hmem
  | emit _ ih | await _ _ _ ih => exact ih hmem
  | spawn _ _ _ ih =>
    cases hmem with
    | head => exact Nat.lt_succ_self _
    | tail _ hmem => exact Nat.lt_of_succ_lt (ih hmem)
  | claim _ _ _ ih =>
    cases hmem with
    | tail _ hmem => exact ih hmem

/-- On a smaller stack the tasks that a program spawns end as promised, or stop. -/
theorem exists_promised (h : q.Goes stack first promised n acts o last steps)
    (hdepth : small.depth ≤ stack.depth) (hroom : stack.room = none) :
    ∃ promised' : Nat → Outcome,
      (∀ m work, .spawn (.child .main m) work ∈ acts → ∃ r,
        (Thread.task small (.child .main m) work).rest.quiet = .ofExcept r ∧
          r.map Result.value = promised' m) ∧
      ∀ m, Curtailed (.fault .stackExhausted) (promised' m) (promised m) := by
  induction h with
  | done | fail => exact ⟨promised, nofun, fun m => .refl _⟩
  | emit _ ih | await _ _ _ ih => exact ih
  | claim _ _ _ ih =>
    obtain ⟨promised', htasks, hpromised⟩ := ih
    refine ⟨promised', fun m work hmem => ?_, hpromised⟩
    cases hmem with
    | tail _ hmem => exact htasks m work hmem
  | @spawn n _ _ work _ _ _ r htask hr h ih =>
    obtain ⟨promised', htasks, hpromised⟩ := ih
    have hcut : (Thread.task small (.child .main (n + 1)) work).rest.quiet.Curtails
        (Thread.task stack (.child .main (n + 1)) work).rest.quiet := by
      simp only [Thread.task, Stack.quiet_eval]
      rw [Stack.eval, Stack.eval, hroom]
      exact curtails_eval hdepth _ _ _ _
    obtain ⟨r', hr', hcurtailed⟩ := (htask ▸ hcut).of_ofExcept
    refine ⟨Function.update promised' (n + 1) (r'.map Result.value), fun m work' hmem => ?_,
      fun m => ?_⟩
    · cases hmem with
      | head => exact ⟨r', hr', by rw [Function.update_self]⟩
      | tail _ hmem =>
        rw [Function.update_of_ne (Nat.ne_of_gt (h.lt_of_spawn hmem))]
        exact htasks m work' hmem
    · by_cases hm : m = n + 1
      · subst hm
        rw [Function.update_self, ← hr]
        exact hcurtailed.map Result.value
      · rw [Function.update_of_ne hm]
        exact hpromised m

theorem curtailed {promised' : Nat → Outcome}
    (h : q.Goes stack first promised n acts o last steps) (hcut : p.Curtails q)
    (htasks : ∀ m work, .spawn (.child .main m) work ∈ acts → ∃ r,
      (Thread.task small (.child .main m) work).rest.quiet = .ofExcept r ∧
        r.map Result.value = promised' m)
    (hpromised : ∀ m, Curtailed (.fault .stackExhausted) (promised' m) (promised m)) :
    ∃ acts' o' last' steps', p.Goes small first promised' n acts' o' last' steps' ∧
      acts' <+: acts ∧ Curtailed (.fault .stackExhausted) o' o := by
  have hstop : ∀ (n : Nat) (acts : List Act) (o : Except Failure α), ∃ acts' o' last' steps',
      (Prog.abort .stackExhausted : Prog Work α).Goes small first promised' n acts' o' last'
        steps' ∧ acts' <+: acts ∧ Curtailed (.fault .stackExhausted) o' o :=
    fun n acts o => ⟨[], _, n, 0, .fail _, List.nil_prefix, .inl rfl⟩
  induction h generalizing p with
  | done a =>
    cases hcut with
    | stop => exact hstop _ _ _
    | done => exact ⟨[], _, _, 0, .done a, List.nil_prefix, .refl _⟩
  | fail e =>
    cases hcut with
    | stop => exact hstop _ _ _
    | fail => exact ⟨[], _, _, 0, .fail e, List.nil_prefix, .refl _⟩
  | emit _ ih =>
    cases hcut with
    | stop => exact hstop _ _ _
    | emit line hcut =>
      obtain ⟨acts', o', last', steps', hgoes, hacts, ho⟩ := ih hcut htasks
      exact ⟨acts', o', last', _, hgoes.emit, hacts, ho⟩
  | spawn htask hr _ ih =>
    cases hcut with
    | stop => exact hstop _ _ _
    | spawn work hcut =>
      obtain ⟨r, htask', hr'⟩ := htasks _ _ List.mem_cons_self
      obtain ⟨acts', o', last', steps', hgoes, hacts, ho⟩ :=
        ih (hcut _) fun m work hmem => htasks m work (List.mem_cons_of_mem _ hmem)
      exact ⟨_, o', last', _, .spawn htask' hr' hgoes, List.cons_prefix_cons.2 ⟨rfl, hacts⟩, ho⟩
  | claim hfirst hm _ ih =>
    cases hcut with
    | stop => exact hstop _ _ _
    | claim x hcut =>
      obtain ⟨acts', o', last', steps', hgoes, hacts, ho⟩ :=
        ih hcut fun m work hmem => htasks m work (List.mem_cons_of_mem _ hmem)
      exact ⟨_, o', last', _, .claim hfirst hm hgoes, List.cons_prefix_cons.2 ⟨rfl, hacts⟩, ho⟩
  | @await n m last steps rest acts o hfirst hm h ih =>
    cases hcut with
    | stop => exact hstop _ _ _
    | @await _ rest' _ hcut =>
      have hnext : ∃ acts' o' last' steps',
          (Prog.resume rest' (promised' m)).Goes small first promised' n acts' o' last' steps' ∧
            acts' <+: acts ∧ Curtailed (.fault .stackExhausted) o' o := by
        rcases hpromised m with hstopped | hsame
        · rw [hstopped]
          exact hstop _ _ _
        · rw [hsame]
          refine ih ?_ htasks
          cases promised m with
          | error e => exact .fail e
          | ok v => exact hcut v
      obtain ⟨acts', o', last', steps', hgoes, hacts, ho⟩ := hnext
      exact ⟨acts', o', last', _, .await hfirst hm hgoes, hacts, ho⟩

end Prog.Goes

namespace System

variable {small stack : Stack} {out : Provided} {s : System} {t : Thread} {p q : Prog Work Result}
  {n steps : Nat} {promised : Nat → Outcome} {acts : List Act} {o : Except Failure Result}

/-- On any stack the main thread of a session is on its way to where its program would lead it, or
to an exhausted stack. -/
theorem Served.exists_onCourse_curtailed (hout : out.WellFormed) (hs : Served small out s)
    (ht : s.thread .main = some t)
    (hgoes : q.Goes stack t.spawned promised t.spawned acts o n steps) (hnodup : acts.Nodup)
    (hdepth : small.depth ≤ stack.depth) (hroom : stack.room = none)
    (hcut : p.quiet.Curtails q) :
    ∃ promised' o' acts' steps', Curtailed (.fault .stackExhausted) o' o ∧
      (s.setThread .main { t with rest := p }).OnCourse small t.spawned promised' o'
        { t with rest := p } acts' steps' := by
  obtain ⟨promised', htasks, hpromised⟩ := hgoes.exists_promised hdepth hroom
  obtain ⟨acts', o', n', steps', hgoes', hacts, ho⟩ := hgoes.curtailed hcut htasks hpromised
  obtain ⟨acts'', steps'', -, hcourse⟩ :=
    hs.exists_onCourse hout ht hgoes' (hnodup.sublist hacts.sublist)
  exact ⟨promised', o', acts'', steps'', ho, hcourse⟩

end System

end ForkJoin

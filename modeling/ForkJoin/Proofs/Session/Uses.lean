import ForkJoin.Proofs.Session.Tasks

/-!
# What threads do to cells

The claims and the waits of a run. A cell is claimed once: a thread takes it, and every later claim
is refused. What is claimed after a run was claimed before it or is taken in it (`claimed_run`).
-/

namespace ForkJoin

inductive Deed where
  | take
  /-- A claim of a cell that is claimed already. -/
  | refuse
  | receive
  deriving DecidableEq

structure Use where
  thread : ThreadId
  cell : CellId
  deed : Deed
  deriving DecidableEq

def System.use? (s : System) (id : ThreadId) : Option Use := do
  let t ← s.thread id
  match t.rest with
  | .claim x _ => do
    let c ← s.cell x
    return ⟨id, x, if c.claimed then .refuse else .take⟩
  | .await x _ => return ⟨id, x, .receive⟩
  | _ => none

namespace System

variable {s : System} {id : ThreadId} {t : Thread} {x : CellId} {c : Cell} {use : Use}

theorem use?_of_claim {rest : Prog Work Result} (ht : s.thread id = some t)
    (hrest : t.rest = .claim x rest) (hx : s.cell x = some c) :
    s.use? id = some ⟨id, x, if c.claimed then .refuse else .take⟩ := by
  simp [use?, ht, hrest, hx]

theorem use?_of_await {rest : Value → Prog Work Result} (ht : s.thread id = some t)
    (hrest : t.rest = .await x rest) : s.use? id = some ⟨id, x, .receive⟩ := by
  simp [use?, ht, hrest]

theorem thread_of_use? (h : s.use? id = some use) : use.thread = id := by
  obtain ⟨t, -, h⟩ := Option.bind_eq_some_iff.1 h
  split at h
  · obtain ⟨c, -, h⟩ := Option.bind_eq_some_iff.1 h
    cases h
    rfl
  · cases h
    rfl
  · cases h

theorem claim_of_take (ht : s.thread id = some t) (h : s.use? id = some ⟨id, x, .take⟩) :
    ∃ rest, t.rest = .claim x rest := by
  obtain ⟨t', ht', h⟩ := Option.bind_eq_some_iff.1 h
  cases ht.symm.trans ht'
  split at h
  · rename_i y rest hrest
    obtain ⟨c, -, h⟩ := Option.bind_eq_some_iff.1 h
    simp only [Option.pure_def, Option.some.injEq, Use.mk.injEq, true_and] at h
    exact ⟨rest, h.1 ▸ hrest⟩
  · cases h
  · cases h

end System

namespace Stage

def uses (stack : Stack) (tidy : Env → Env) : Stage → List Event → List Use
  | _, [] => []
  | s, ev :: evs =>
    (match ev with
      | .step id => (s.system.use? id).toList
      | _ => []) ++ ((s.next stack tidy ev).map (·.uses stack tidy evs)).getD []

variable {stack : Stack} {tidy : Env → Env} {s s' mid : Stage} {evs more before : List Event}
  {p u : ThreadId} {n : Nat} {t : Thread} {m : Move} {use : Use} {x : CellId}

theorem uses_append (h : s.run stack tidy evs = some s') (more : List Event) :
    s.uses stack tidy (evs ++ more) = s.uses stack tidy evs ++ s'.uses stack tidy more := by
  induction evs generalizing s with
  | nil =>
    cases h
    rfl
  | cons ev evs ih =>
    obtain ⟨next, hnext, hrest⟩ := run_cons_eq_some_iff.1 h
    simp only [List.cons_append, uses, hnext, Option.map_some, Option.getD_some, ih hrest,
      List.append_assoc]

theorem mem_uses_append (h : s.run stack tidy evs = some s')
    (hmem : use ∈ s.uses stack tidy evs) (more : List Event) :
    use ∈ s.uses stack tidy (evs ++ more) :=
  uses_append h more ▸ List.mem_append_left _ hmem

theorem Moment.use_mem (hmoment : Moment stack tidy s evs u before mid t m)
    (huse : mid.system.use? u = some use) : use ∈ s.uses stack tidy evs := by
  obtain ⟨after, rfl⟩ := hmoment.split
  rw [uses_append hmoment.run]
  exact List.mem_append_right _ (List.mem_append_left _ (Option.mem_toList.2 huse))

theorem exists_moment_of_mem (h : s.run stack tidy evs = some s')
    (hmem : use ∈ s.uses stack tidy evs) : ∃ before mid t m,
      Moment stack tidy s evs use.thread before mid t m ∧
        mid.system.use? use.thread = some use := by
  induction evs generalizing s with
  | nil => cases hmem
  | cons ev evs ih =>
    obtain ⟨next, hnext, hrest⟩ := run_cons_eq_some_iff.1 h
    simp only [uses, hnext, Option.map_some, Option.getD_some] at hmem
    rcases List.mem_append.1 hmem with hnow | hlater
    · cases ev with
      | step id =>
        have huse : s.system.use? id = some use := Option.mem_toList.1 hnow
        obtain rfl := System.thread_of_use? huse
        obtain ⟨system, hstep, -⟩ := Option.map_eq_some_iff.1 hnext
        obtain ⟨t, m, ht, hm, -⟩ := System.step_eq_some_iff.1 hstep
        exact ⟨[], s, t, m, ⟨⟨evs, rfl⟩, rfl, ht, hm⟩, huse⟩
      | evaluate | sync | conclude | define | make | write | claimLater => cases hnow
    · obtain ⟨before, mid, t, m, hmoment, huse⟩ := ih hrest hlater
      obtain ⟨after, rfl⟩ := hmoment.split
      refine ⟨ev :: before, mid, t, m, ⟨⟨after, rfl⟩, ?_, hmoment.thread, hmoment.moves⟩, huse⟩
      exact run_cons_eq_some_iff.2 ⟨next, hnext, hmoment.run⟩

theorem claimed_next {ev : Event} {c' : Cell} (h : s.next stack tidy ev = some s')
    (hx : s'.system.cell x = some c') (hclaimed : c'.claimed = true) :
    (∃ c, s.system.cell x = some c ∧ c.claimed = true) ∨
      ∃ u, ev = .step u ∧ s.system.use? u = some ⟨u, x, .take⟩ := by
  rcases next_cases h with ⟨u, rfl, hstep, -⟩ | ⟨-, haside⟩
  · obtain ⟨t, m, ht, hm, hafter⟩ := System.step_eq_some_iff.1 hstep
    have hon : m.change.on s.system.cell x = some c' := by
      rw [hafter] at hx
      exact hx
    by_cases hchange : m.change.cell? = some x
    · cases hm with
      | take hrest hcell hfree =>
        cases hchange
        refine .inr ⟨u, rfl, ?_⟩
        rw [System.use?_of_claim ht hrest hcell, hfree]
        rfl
      | @deliver d o c hended hdue hcell hempty =>
        cases hchange
        simp only [Change.on, if_true, hcell, Option.map_some, Option.some.injEq] at hon
        exact .inl ⟨c, hcell, by rw [← hclaimed, ← hon]⟩
      | spawn =>
        cases hchange
        simp only [Change.on, if_true, Option.some.injEq] at hon
        rw [← hon] at hclaimed
        cases hclaimed
      | print | refuse | receive | late | lost => cases hchange
    · rw [Change.on_of_ne hchange] at hon
      exact .inl ⟨c', hon, hclaimed⟩
  · cases hold : s.system.cell x with
    | none =>
      rw [haside.new x c' hold hx] at hclaimed
      cases hclaimed
    | some c =>
      obtain ⟨c'', hx'', -, hsame⟩ := haside.later x c hold
      cases hx.symm.trans hx''
      exact .inl ⟨c, rfl, hsame.symm.trans hclaimed⟩

/-- A cell that is claimed after a run was claimed before it, or a thread took it. -/
theorem claimed_run {c' : Cell} (h : s.run stack tidy evs = some s')
    (hx : s'.system.cell x = some c') (hclaimed : c'.claimed = true) :
    (∃ c, s.system.cell x = some c ∧ c.claimed = true) ∨
      ∃ u, ⟨u, x, .take⟩ ∈ s.uses stack tidy evs := by
  induction evs generalizing s with
  | nil =>
    cases h
    exact .inl ⟨c', hx, hclaimed⟩
  | cons ev evs ih =>
    obtain ⟨next, hnext, hrest⟩ := run_cons_eq_some_iff.1 h
    simp only [uses, hnext, Option.map_some, Option.getD_some]
    rcases ih hrest with ⟨c, hc, hclaimed⟩ | ⟨u, hmem⟩
    · refine (claimed_next hnext hc hclaimed).imp_right ?_
      rintro ⟨u, rfl, huse⟩
      exact ⟨u, List.mem_append_left _ (Option.mem_toList.2 huse)⟩
    · exact .inr ⟨u, List.mem_append_right _ hmem⟩

end Stage

end ForkJoin

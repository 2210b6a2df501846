import ForkJoin.Proofs.Run.Ordered
import ForkJoin.Proofs.Serial.Ground

/-!
# What a thread did in a run

Where nothing fails, what a thread did in a run can be told without the other threads: it received
the values that the cells hold in the end, and its tasks got the names that are its turn. So its
program can be replayed against a record of the run, which says what the cells hold and what was
spawned (`System.Counted.replays_of_run`).

The works of a run are best looked at from its end: what a task spawns is spawned after the task
itself. What holds of a task whenever it holds of the tasks that it spawned thus holds of all of
them (`System.Counted.spawns_induction`).
-/

namespace ForkJoin

/-- What is known of a run: the values that cells hold in the end, and which works were spawned
under which names. -/
structure Record where
  stored : CellId → Option Value
  spawned : ThreadId → Work → Prop

/-- The program of a thread that has spawned some tasks before, as it went in a run: what it ended
with, and how many tasks it had spawned then. -/
inductive Prog.Replays {α : Type} (ρ : Record) (id : ThreadId) :
    Prog Work α → Nat → Except Failure α → Nat → Prop
  | done {a : α} {n : Nat} : Replays ρ id (.done a) n (.ok a) n
  | fail {e : Failure} {n : Nat} : Replays ρ id (.fail e) n (.error e) n
  | emit {line : String} {p : Prog Work α} {n m : Nat} {o : Except Failure α}
      (h : Replays ρ id p n o m) : Replays ρ id (.emit line p) n o m
  | spawn {work : Work} {p : ThreadId → Prog Work α} {n m : Nat} {o : Except Failure α}
      (hwork : ρ.spawned (.child id (n + 1)) work)
      (h : Replays ρ id (p (.child id (n + 1))) (n + 1) o m) : Replays ρ id (.spawn work p) n o m
  | claim {x : CellId} {p : Prog Work α} {n m : Nat} {o : Except Failure α}
      (h : Replays ρ id p n o m) : Replays ρ id (.claim x p) n o m
  | await {x : CellId} {v : Value} {p : Value → Prog Work α} {n m : Nat} {o : Except Failure α}
      (hstored : ρ.stored x = some v) (h : Replays ρ id (p v) n o m) :
      Replays ρ id (.await x p) n o m

namespace Prog.Replays

variable {α β : Type} {ρ : Record} {id : ThreadId} {n m : Nat}

theorem mono {p : Prog Work α} {o : Except Failure α} {spawned : ThreadId → Work → Prop}
    (h : p.Replays ρ id n o m) (hle : ∀ u work, ρ.spawned u work → spawned u work) :
    p.Replays { ρ with spawned } id n o m := by
  induction h with
  | done => exact .done
  | fail => exact .fail
  | emit _ ih => exact .emit ih
  | spawn hwork _ ih => exact .spawn (hle _ _ hwork) ih
  | claim _ ih => exact .claim ih
  | await hstored _ ih => exact .await hstored ih

theorem of_bind {p : Prog Work α} {f : α → Prog Work β} {b : β}
    (h : (p >>= f).Replays ρ id n (.ok b) m) :
    ∃ a k, p.Replays ρ id n (.ok a) k ∧ (f a).Replays ρ id k (.ok b) m := by
  change (p.bind f).Replays ρ id n (.ok b) m at h
  induction p generalizing n with
  | done a => exact ⟨a, n, .done, h⟩
  | fail e => cases h
  | emit line rest ih =>
    cases h with
    | emit h =>
      obtain ⟨a, k, hp, hf⟩ := ih h
      exact ⟨a, k, .emit hp, hf⟩
  | spawn work rest ih =>
    cases h with
    | spawn hwork h =>
      obtain ⟨a, k, hp, hf⟩ := ih _ h
      exact ⟨a, k, .spawn hwork hp, hf⟩
  | claim x rest ih =>
    cases h with
    | claim h =>
      obtain ⟨a, k, hp, hf⟩ := ih h
      exact ⟨a, k, .claim hp, hf⟩
  | await x rest ih =>
    cases h with
    | await hstored h =>
      obtain ⟨a, k, hp, hf⟩ := ih _ h
      exact ⟨a, k, .await hstored hp, hf⟩

end Prog.Replays

/-- The record of a run, as those see it who refuse comparisons. -/
def Record.refusing (ρ : Record) : Record where
  stored := ρ.stored
  spawned u work := ∃ work', ρ.spawned u work' ∧ Matching.refusing.Works work work'

namespace Matching

theorem value_refusing (v : Value) : refusing.value v = v :=
  Value.rewrite_id v

theorem expr_refusing (e : Expr) : refusing.expr e = e :=
  Expr.rewrite_id e

theorem env_refusing (env : Env) : refusing.env env = env :=
  Env.rewrite_id env

end Matching

/-- A program that may refuse a comparison does so, or it goes as one that refuses none. -/
theorem Prog.Matches.replays {α β : Type} {R : α → β → Prop} {p : Prog Work α} {q : Prog Work β}
    {ρ : Record} {id : ThreadId} {n m : Nat} {b : β} (h : Matches .refusing R p q)
    (hstored : ∀ x v, ρ.stored x = some v → v.WellFormed) (hq : q.Replays ρ id n (.ok b) m) :
    (∃ k, p.Replays ρ.refusing id n (.error refusal) k) ∨
      ∃ a, R a b ∧ p.Replays ρ.refusing id n (.ok a) m := by
  induction h generalizing n with
  | done h =>
    cases hq
    exact .inr ⟨_, h, .done⟩
  | fail h =>
    cases h
    cases hq
  | stop h =>
    cases h
    exact .inl ⟨n, .fail⟩
  | emit h ih =>
    cases hq with
    | emit hq =>
      rcases ih hq with ⟨k, hp⟩ | ⟨a, hab, hp⟩
      · exact .inl ⟨k, .emit hp⟩
      · exact .inr ⟨a, hab, .emit hp⟩
  | spawn hwork h ih =>
    cases hq with
    | spawn hspawned hq =>
      rcases ih _ hq with ⟨k, hp⟩ | ⟨a, hab, hp⟩
      · exact .inl ⟨k, .spawn ⟨_, hspawned, hwork⟩ hp⟩
      · exact .inr ⟨a, hab, .spawn ⟨_, hspawned, hwork⟩ hp⟩
  | claim h ih =>
    cases hq with
    | claim hq =>
      rcases ih hq with ⟨k, hp⟩ | ⟨a, hab, hp⟩
      · exact .inl ⟨k, .claim hp⟩
      · exact .inr ⟨a, hab, .claim hp⟩
  | await h ih =>
    cases hq with
    | @await _ v _ _ _ _ hv hq =>
      rw [← Matching.value_refusing v] at hq
      rcases ih v (hstored _ v hv) hq with ⟨k, hp⟩ | ⟨a, hab, hp⟩
      · exact .inl ⟨k, .await hv hp⟩
      · exact .inr ⟨a, hab, .await hv hp⟩

/-! ### Runs that are replayed -/

theorem Prog.eq_done_of_ended? {ω α : Type} {p : Prog ω α} {a : α} (h : p.ended? = some (.ok a)) :
    p = .done a := by
  cases p with
  | done b =>
    cases h
    rfl
  | fail | emit | spawn | claim | await => cases h

namespace Thread.Moves

variable {stack : Stack} {cell : CellId → Option Cell} {id : ThreadId} {t : Thread} {m : Move}

theorem replays {ρ : Record} {r : Result} {k : Nat} (hm : t.Moves stack cell id m)
    (hspawned : ∀ work rest, t.rest = .spawn work rest → ρ.spawned (.child id (t.spawned + 1)) work)
    (hstored : ∀ x c v, cell x = some c → c.outcome = some (.ok v) → ρ.stored x = some v)
    (h : m.thread.rest.Replays ρ id m.thread.spawned (.ok r) k) :
    t.rest.Replays ρ id t.spawned (.ok r) k := by
  cases hm with
  | print hrest =>
    rw [hrest]
    exact .emit h
  | spawn hrest =>
    rw [hrest]
    exact .spawn (hspawned _ _ hrest) h
  | take hrest =>
    rw [hrest]
    exact .claim h
  | refuse => cases h
  | @receive wanted rest c o hrest hcell hwritten =>
    rw [hrest]
    cases o with
    | ok v => exact .await (hstored wanted c v hcell hwritten) h
    | error e => cases h
  | deliver | late | lost => simpa only [announced_rest, announced_spawned] using h

theorem outcome?_eq {o : Outcome} (hm : t.Moves stack cell id m) (h : t.outcome? = some o) :
    m.thread.outcome? = some o := by
  cases hm with
  | print hrest | spawn hrest | take hrest | refuse hrest | receive hrest =>
    rw [outcome?, hrest] at h
    cases h
  | deliver | late | lost => simpa only [outcome?, announced_rest] using h

theorem of_new_cell {x : CellId} (hm : t.Moves stack cell id m) (hold : cell x = none)
    (hnew : (m.change.on cell x).isSome) :
    x = .task (.child id (t.spawned + 1)) ∧ ∃ work rest, t.rest = .spawn work rest := by
  by_cases hcell : m.change.cell? = some x
  case neg =>
    rw [Change.on_of_ne hcell, hold] at hnew
    cases hnew
  case pos =>
    cases hm with
    | print | refuse | receive | late | lost => cases hcell
    | spawn hrest => exact ⟨(Option.some.inj hcell).symm, _, _, hrest⟩
    | take _ hc | deliver _ _ hc =>
      rw [Option.some.inj hcell, hold] at hc
      cases hc

end Thread.Moves

namespace System

def stored? (s : System) (x : CellId) : Option Value :=
  match (s.cell x).bind (·.outcome) with
  | some (.ok v) => some v
  | _ => none

def spawn? (s : System) (id : ThreadId) : Option (ThreadId × Work) := do
  let t ← s.thread id
  match t.rest with
  | .spawn work _ => return (.child id (t.spawned + 1), work)
  | _ => none

def spawns (stack : Stack) : System → List ThreadId → List (ThreadId × Work)
  | _, [] => []
  | s, id :: ids => (s.spawn? id).toList ++ ((s.step stack id).map (·.spawns stack ids)).getD []

def record (stack : Stack) (s : System) (ids : List ThreadId) (last : System) : Record where
  stored := last.stored?
  spawned u work := (u, work) ∈ s.spawns stack ids

variable {stack : Stack} {s next last : System} {id : ThreadId} {t : Thread} {ids : List ThreadId}
  {r : Result}

theorem spawns_cons (hstep : s.step stack id = some next) (ids : List ThreadId) :
    s.spawns stack (id :: ids) = (s.spawn? id).toList ++ next.spawns stack ids := by
  simp [spawns, hstep]

theorem stored?_eq_some_iff {x : CellId} {v : Value} :
    s.stored? x = some v ↔ ∃ c, s.cell x = some c ∧ c.outcome = some (.ok v) := by
  unfold stored?
  cases hx : s.cell x with
  | none => simp
  | some c =>
    cases ho : c.outcome with
    | none => simp [ho]
    | some o => cases o <;> simp [ho]

theorem Counted.later_of_run {x : CellId} {c : Cell} (hs : s.Counted) (hx : s.cell x = some c)
    (hrun : s.run stack ids = some last) : ∃ c', last.cell x = some c' ∧ c.Later c' := by
  induction ids generalizing s c with
  | nil =>
    cases hrun
    exact ⟨c, hx, .refl c⟩
  | cons id ids ih =>
    obtain ⟨next, hstep, hrest⟩ := run_cons_eq_some_iff.1 hrun
    obtain ⟨c₁, hx₁, hlater⟩ := hs.later_of_step hstep hx
    obtain ⟨c₂, hx₂, hlater'⟩ := ih (hs.step hstep) hx₁ hrest
    exact ⟨c₂, hx₂, hlater'.label.trans hlater.label,
      fun o ho => hlater'.outcome o (hlater.outcome o ho),
      fun h => hlater'.claimed (hlater.claimed h)⟩

theorem spawn?_of_rest {work : Work} {rest : ThreadId → Prog Work Result}
    (ht : s.thread id = some t) (hrest : t.rest = .spawn work rest) :
    s.spawn? id = some (.child id (t.spawned + 1), work) := by
  simp [spawn?, ht, hrest]

theorem mem_spawns_of_rest {work : Work} {rest : ThreadId → Prog Work Result}
    (ht : s.thread id = some t) (hrest : t.rest = .spawn work rest)
    (hstep : s.step stack id = some next) :
    (.child id (t.spawned + 1), work) ∈ s.spawns stack (id :: ids) := by
  rw [spawns_cons hstep, spawn?_of_rest ht hrest]
  exact List.mem_append_left _ (List.mem_singleton.2 rfl)

/-- A thread that ended with a result did in the run what its program says. -/
theorem Counted.replays_of_run (hs : s.Counted) (ht : s.thread id = some t)
    (hrun : s.run stack ids = some last) (hended : last.ended? id = some (.ok r)) :
    ∃ k, t.rest.Replays (record stack s ids last) id t.spawned (.ok r) k := by
  induction ids generalizing s t with
  | nil =>
    cases hrun
    rw [ended?, ht, Option.bind_some] at hended
    rw [Prog.eq_done_of_ended? hended]
    exact ⟨t.spawned, .done⟩
  | cons first ids ih =>
    obtain ⟨next, hstep, hrest⟩ := run_cons_eq_some_iff.1 hrun
    have hle : ∀ u work, (record stack next ids last).spawned u work →
        (record stack s (first :: ids) last).spawned u work := by
      intro u work hmem
      change (u, work) ∈ s.spawns stack (first :: ids)
      rw [spawns_cons hstep]
      exact List.mem_append_right _ hmem
    obtain ⟨tf, m, htf, hm, rfl⟩ := step_eq_some_iff.1 hstep
    by_cases hid : id = first
    · subst hid
      cases htf.symm.trans ht
      obtain ⟨k, hk⟩ := ih (hs.after ht hm) after_thread_self hrest
      refine ⟨k, hm.replays (fun work rest h => mem_spawns_of_rest ht h hstep) ?_ (hk.mono hle)⟩
      intro x c v hx hv
      obtain ⟨c', hx', hlater⟩ := hs.later_of_run hx hrun
      exact stored?_eq_some_iff.2 ⟨c', hx', hlater.outcome _ hv⟩
    · obtain ⟨k, hk⟩ := ih (hs.after htf hm) (after_thread_of_ne hs htf hm hid ht) hrest
      exact ⟨k, hk.mono hle⟩

/-! ### Tasks that are spawned in a run -/

/-- What is stored in the cell of a task is what the task has ended with. -/
def Commits (s : System) : Prop :=
  ∀ u c o, s.cell (.task u) = some c → c.outcome = some o →
    ∃ t, s.thread u = some t ∧ t.outcome? = some o

theorem Commits.after {m : Move} (hs : s.Commits) (hordered : s.Ordered)
    (ht : s.thread id = some t) (hm : t.Moves stack s.cell id m) : (s.after id m).Commits := by
  intro u c o hc ho
  have hkept : t.outcome? = some o → u = id →
      ∃ t', (s.after id m).thread u = some t' ∧ t'.outcome? = some o := by
    rintro hended rfl
    exact ⟨m.thread, after_thread_self, hm.outcome?_eq hended⟩
  cases hold : s.cell (.task u) with
  | none =>
    rw [outcome_of_new hold hc] at ho
    cases ho
  | some c₀ =>
    obtain ⟨c', hc', ⟨hsame, -⟩ | ⟨o', hput, ho'⟩⟩ := hordered.outcome_after ht hm hold
    · cases hc.symm.trans hc'
      obtain ⟨t', ht', hended⟩ := hs u c₀ o hold (hsame.symm.trans ho)
      by_cases hid : u = id
      · subst hid
        cases ht.symm.trans ht'
        exact hkept hended rfl
      · exact ⟨t', after_thread_of_ne hordered.toCounted ht hm hid ht', hended⟩
    · cases hc.symm.trans hc'
      cases ho.symm.trans ho'
      obtain ⟨hended, d, hdue, hd, -⟩ := hm.of_put hput
      have hown := hordered.delivery id t d ht (Thread.delivery_of_due? hdue)
      exact hkept hended (CellId.task.inj (hd.symm.trans hown))

theorem thread_of_spawn? {u : ThreadId} {work : Work} (hspawn : s.spawn? id = some (u, work))
    (hstep : s.step stack id = some next) : next.thread u = some (.task stack u work) := by
  obtain ⟨t, ht, hspawn⟩ := Option.bind_eq_some_iff.1 hspawn
  split at hspawn
  case h_1 work' rest hrest =>
    cases hspawn
    have hm : t.Moves stack s.cell id _ := .spawn hrest
    cases hstep.symm.trans (step_of_moves ht hm)
    have hne : ThreadId.child id (t.spawned + 1) ≠ id := ThreadId.child_ne _ _
    simp [System.after, Move.started?, hne]
  case h_2 => cases hspawn

theorem exists_mem_spawns {u : ThreadId} (hrun : s.run stack ids = some last)
    (hfirst : s.cell (.task u) = none) (hlast : (last.cell (.task u)).isSome) :
    ∃ work, (u, work) ∈ s.spawns stack ids := by
  induction ids generalizing s with
  | nil =>
    cases hrun
    rw [hfirst] at hlast
    cases hlast
  | cons first ids ih =>
    obtain ⟨next, hstep, hrest⟩ := run_cons_eq_some_iff.1 hrun
    rw [spawns_cons hstep]
    cases hnext : next.cell (.task u) with
    | none =>
      obtain ⟨work, hwork⟩ := ih hrest hnext
      exact ⟨work, List.mem_append_right _ hwork⟩
    | some c =>
      obtain ⟨t, m, ht, hm, rfl⟩ := step_eq_some_iff.1 hstep
      obtain ⟨hu, work, rest, hspawn⟩ := hm.of_new_cell hfirst (Option.isSome_of_eq_some hnext)
      rw [CellId.task.inj hu, spawn?_of_rest ht hspawn]
      exact ⟨work, List.mem_append_left _ (List.mem_singleton.2 rfl)⟩

/-- What holds of a task if it holds of all tasks that are spawned after it in a run, holds of all
tasks that are spawned in the run. -/
theorem Counted.spawns_induction {P : ThreadId → Work → Prop} (hs : s.Counted)
    (hrun : s.run stack ids = some last)
    (hended : ∀ u work, (u, work) ∈ s.spawns stack ids → ∃ r, last.ended? u = some (.ok r))
    (hP : ∀ u work, (u, work) ∈ s.spawns stack ids → ∀ r k, last.ended? u = some (.ok r) →
      (Thread.task stack u work).rest.Replays ⟨last.stored?, P⟩ u 0 (.ok r) k → P u work)
    (u : ThreadId) (work : Work) (hmem : (u, work) ∈ s.spawns stack ids) : P u work := by
  induction ids generalizing s u work with
  | nil => cases hmem
  | cons first ids ih =>
    obtain ⟨next, hstep, hrest⟩ := run_cons_eq_some_iff.1 hrun
    rw [spawns_cons hstep] at hended hP hmem
    have hlater : ∀ u work, (u, work) ∈ next.spawns stack ids → P u work :=
      ih (hs.step hstep) hrest
        (fun u work h => hended u work (List.mem_append_right _ h))
        (fun u work h => hP u work (List.mem_append_right _ h))
    rcases List.mem_append.1 hmem with hnew | hmem
    · obtain ⟨r, hr⟩ := hended u work hmem
      obtain ⟨k, hk⟩ := (hs.step hstep).replays_of_run
        (thread_of_spawn? (Option.mem_toList.1 hnew) hstep) hrest hr
      exact hP u work hmem r k hr (hk.mono hlater)
    · exact hlater u work hmem

end System

end ForkJoin

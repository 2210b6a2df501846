import ForkJoin.Proofs.Run.Served

/-!
# Waiting for the latest task

A main thread that has spawned a task and waits for it at once, beside a main thread that does in
place what the task does. The task and the main thread in place go in lockstep, one spawn deeper, and
so do all other threads. The main thread that waits has steps of its own: it claims the cell of the
task, waits for it, and ends with what it receives; and the task has one, in which it delivers what it
has ended with. `Joining` is kept by the steps of both kinds, so every run of the one system is part of
a run of the other, in both directions.
-/

namespace ForkJoin

def Prog.join {ω : Type} (id : ThreadId) (env : Env) : Prog ω Result :=
  .claim (.task id) (.await (.task id) fun v => .done ⟨v, env⟩)

open Prog (Leads)

/-- A spawn cannot fail. Its value is the future of the task, and it keeps the environment. -/
theorem leads_eval_spawn (limit : Nat) {room : Room} (hroom : room.has 2) (ctx : Context)
    (env : Env) (e : Expr) : ∃ rest,
      (eval (limit + 1) room ctx env (.spawn e)).Leads (.spawn ⟨e, env, ctx⟩ rest) ∧
        ∀ id, (rest id).Leads (.done ⟨.future (.task id), env⟩) := by
  let rest (id : ThreadId) : Prog Work Result := do
    if ctx.debug then Prog.emit ("Spawned task " ++ id.label) (.done ())
    return ⟨.future (.task id), env⟩
  refine ⟨rest, ?_, fun id => ?_⟩
  · rw [eval_succ limit hroom, evalNode_spawn]
    exact Prog.leads_trace (.here _)
  · by_cases hdebug : ctx.debug
    · simp only [rest, hdebug, if_true]
      exact .emit (.here _)
    · simp only [rest, hdebug]
      exact .here _

theorem leads_eval_sync_spawn (limit : Nat) {room : Room} (hroom : room.has 4) (ctx : Context)
    (env : Env) (e : Expr) : ∃ rest,
      (eval (limit + 2) room ctx env (.sync (.spawn e))).Leads (.spawn ⟨e, env, ctx⟩ rest) ∧
        ∀ id, (rest id).Leads (.join id env) := by
  have hhere : room.has 2 := Room.has_of_le hroom (by decide)
  have hspawn : (room.less 2).has 2 := Room.has_less hroom
  obtain ⟨rest, hleads, hrest⟩ := leads_eval_spawn limit hspawn ctx env e
  refine ⟨fun id => do
    let r ← rest id
    let v ← syncValue r.value
    return ⟨v, r.env⟩, ?_, fun id => (hrest id).bind _⟩
  rw [eval_succ (limit + 1) hhere, evalNode_sync]
  exact Prog.leads_trace (hleads.bind _)

theorem Thread.Moves.undelivered {stack : Stack} {cell : CellId → Option Cell} {id : ThreadId}
    {t : Thread} {m : Move} (hm : t.Moves stack cell id m) (h : t.outcome?.isSome) :
    t.delivery ≠ none ∧ t.delivered = none := by
  have hdue : t.due? ≠ none := by
    intro hdue
    have hact := hm.act
    rw [Thread.act_eq_none_iff.2 (.inl (Thread.isOver_iff.2 ⟨h, hdue⟩))] at hact
    cases hact
  unfold Thread.due? at hdue
  split at hdue
  case h_1 hnone => exact ⟨hdue, hnone⟩
  case h_2 => exact absurd rfl hdue

/-! ### The main thread and the task that it waits for -/

/-- How far a program has come that waits for a task: it has not claimed its cell, it waits, or it
has ended with what was written. -/
inductive JoinStage (id : ThreadId) (env : Env) (c : Cell) : Prog Work Result → Prop
  | claims {p : Prog Work Result} (hp : p.Leads (.join id env)) (hfree : c.claimed = false) :
      JoinStage id env c p
  | waits (htaken : c.claimed = true) :
      JoinStage id env c (.await (.task id) fun v => .done ⟨v, env⟩)
  | ended {o : Outcome} (ho : c.outcome = some o) :
      JoinStage id env c (.resume (fun v => .done ⟨v, env⟩) o)

namespace System

variable {k : Nat} {env : Env} {stack : Stack} {s s' next next' : System} {id : ThreadId}
  {t t' : Thread} {c : Cell} {task : Thread}

structure Joins (k : Nat) (env : Env) (s : System) (t : Thread) (c : Cell) (task : Thread) :
    Prop where
  main : s.thread .main = some t
  keeps : t.delivery = none
  cell : s.cell (.task (ThreadId.main.nested k)) = some c
  forked : s.thread (ThreadId.main.nested k) = some task
  delivered : c.outcome.isSome = task.delivered.isSome
  outcome : ∀ o, c.outcome = some o → task.outcome? = some o
  stage : JoinStage (ThreadId.main.nested k) env c t.rest

/-- A system in which the main thread evaluates an expression, and one in which it waits for a task
that does so. -/
structure Joining (k : Nat) (env : Env) (s s' : System) : Prop extends s.Deeper k s' where
  joins : ∃ t c task, s'.Joins k env t c task

structure SameBut (id : ThreadId) (x : CellId) (s s' : System) : Prop where
  thread : ∀ other, other ≠ id → s'.thread other = s.thread other
  cell : ∀ y, y ≠ x → s'.cell y = s.cell y

theorem SameBut.refl (id : ThreadId) (x : CellId) (s : System) : s.SameBut id x s :=
  ⟨fun _ _ => rfl, fun _ _ => rfl⟩

theorem SameBut.trans {x : CellId} {s₁ s₂ s₃ : System} (h : s₁.SameBut id x s₂)
    (h' : s₂.SameBut id x s₃) : s₁.SameBut id x s₃ :=
  ⟨fun other hother => (h'.thread other hother).trans (h.thread other hother),
    fun y hy => (h'.cell y hy).trans (h.cell y hy)⟩

theorem sameBut_after {m : Move} {x : CellId} (s : System) (id : ThreadId)
    (hstart : m.start = none) (hchange : m.change = .keep ∨ m.change.cell? = some x) :
    s.SameBut id x (s.after id m) where
  thread other hother := by simp [after, Move.started?, hstart, hother]
  cell y hy := by
    refine Change.on_of_ne fun h => ?_
    rcases hchange with hkeep | hcell
    · rw [hkeep] at h
      cases h
    · exact hy (Option.some.inj (h.symm.trans hcell))

/-! ### Steps of the main thread -/

namespace Joins

theorem take_self (h : s.Joins k env t c task) :
    (Change.take (.task (ThreadId.main.nested k))).on s.cell (.task (ThreadId.main.nested k)) =
      some { c with claimed := true } := by
  simp [Change.on, h.cell]

theorem after {m : Move} {c' : Cell} (h : s.Joins k env t c task)
    (hm : t.Moves stack s.cell .main m) (hstart : m.start = none)
    (hcell : m.change.on s.cell (.task (ThreadId.main.nested k)) = some c')
    (houtcome : c'.outcome = c.outcome)
    (hstage : JoinStage (ThreadId.main.nested k) env c' m.thread.rest) :
    (s.after .main m).Joins k env m.thread c' task where
  main := after_thread_self
  keeps := hm.delivery_eq.trans h.keeps
  cell := hcell
  forked := by simpa [System.after, Move.started?, hstart, ThreadId.nested_ne_main] using h.forked
  delivered := by rw [houtcome, h.delivered]
  outcome o ho := h.outcome o (houtcome.symm.trans ho)
  stage := hstage

/-- The main thread moves on to another stage of waiting, and nobody else is concerned. -/
theorem main_step (h : s.Joins k env t c task) (hstep : s.step stack .main = some next) :
    s.SameBut .main (.task (ThreadId.main.nested k)) next ∧
      ∃ t' c', next.Joins k env t' c' task := by
  have hafter : ∀ {m : Move}, t.Moves stack s.cell .main m → next = s.after .main m := fun hm =>
    Option.some.inj (hstep.symm.trans (step_of_moves h.main hm))
  have hnone : t.isOver ∨ t.Waits s.cell → False := by
    intro hdone
    have hstuck : s.step stack .main = none :=
      step_eq_none_iff.2 fun t' ht' => by
        cases h.main.symm.trans ht'
        exact hdone
    rw [hstuck] at hstep
    cases hstep
  have hstage := h.stage
  generalize hrest : t.rest = p at hstage
  cases hstage with
  | claims hp hfree =>
    cases hp with
    | here =>
      have hm : t.Moves stack s.cell .main _ := .take hrest h.cell hfree
      cases hafter hm
      exact ⟨sameBut_after s .main rfl (.inr rfl), _, _,
        h.after hm rfl (h.take_self) rfl (.waits rfl)⟩
    | emit hp =>
      have hm : t.Moves stack s.cell .main _ := .print hrest
      cases hafter hm
      exact ⟨sameBut_after s .main rfl (.inl rfl), _, _, h.after hm rfl h.cell rfl (.claims hp hfree)⟩
  | waits htaken =>
    cases hwritten : c.outcome with
    | none => exact (hnone (.inr (by simp [Thread.Waits, hrest, h.cell, hwritten]))).elim
    | some o =>
      have hm : t.Moves stack s.cell .main _ := .receive hrest h.cell hwritten
      cases hafter hm
      exact ⟨sameBut_after s .main rfl (.inl rfl), _, _, h.after hm rfl h.cell rfl (.ended hwritten)⟩
  | @ended o hwritten =>
    have hover : t.isOver := by
      cases o <;> simp [Thread.isOver, hrest, Prog.resume, Prog.ended?, h.keeps]
    exact (hnone (.inl hover)).elim

end Joins

/-- The main thread gets what its task has ended with, and nobody else is concerned. -/
def Arrives (stack : Stack) (k : Nat) (env : Env) (task : Thread) (o : Outcome) (s : System) :
    Prop :=
  ∃ ids last t c, s.run stack ids = some last ∧
    s.SameBut .main (.task (ThreadId.main.nested k)) last ∧ last.Joins k env t c task ∧
      t.rest = .resume (fun v => .done ⟨v, env⟩) o

theorem Arrives.of_after {m : Move} {o : Outcome} (ht : s.thread .main = some t)
    (hm : t.Moves stack s.cell .main m) (hstart : m.start = none)
    (hchange : m.change = .keep ∨ m.change.cell? = some (.task (ThreadId.main.nested k)))
    (h : (s.after .main m).Arrives stack k env task o) : s.Arrives stack k env task o := by
  obtain ⟨ids, last, t', c', hrun, hsame, hjoins, hrest⟩ := h
  exact ⟨_, last, t', c', run_cons_eq_some_iff.2 ⟨_, step_of_moves ht hm, hrun⟩,
    (sameBut_after s .main hstart hchange).trans hsame, hjoins, hrest⟩

namespace Joins

theorem arrives_of_await {o : Outcome} (h : s.Joins k env t c task) (ho : c.outcome = some o)
    (hrest : t.rest = .await (.task (ThreadId.main.nested k)) fun v => .done ⟨v, env⟩) :
    s.Arrives stack k env task o := by
  have hm : t.Moves stack s.cell .main _ := .receive hrest h.cell ho
  exact .of_after h.main hm rfl (.inl rfl)
    ⟨[], _, _, c, rfl, .refl _ _ _, h.after hm rfl h.cell rfl (.ended ho), rfl⟩

theorem arrives_of_leads {o : Outcome} {p : Prog Work Result} (h : s.Joins k env t c task)
    (ho : c.outcome = some o) (hp : p.Leads (.join (ThreadId.main.nested k) env))
    (hfree : c.claimed = false) (hrest : t.rest = p) : s.Arrives stack k env task o := by
  generalize hjoin : Prog.join (ThreadId.main.nested k) env = join at hp
  induction hp generalizing s t with
  | here =>
    subst hjoin
    have hm : t.Moves stack s.cell .main _ := .take hrest h.cell hfree
    have hnext := h.after hm rfl h.take_self rfl (.waits rfl)
    exact .of_after h.main hm rfl (.inr rfl) (hnext.arrives_of_await ho rfl)
  | emit hp ih =>
    have hm : t.Moves stack s.cell .main _ := .print hrest
    have hnext := h.after hm rfl h.cell rfl (.claims (hjoin ▸ hp) hfree)
    exact .of_after h.main hm rfl (.inl rfl) (ih hnext rfl hjoin)

theorem arrives {o : Outcome} (h : s.Joins k env t c task) (stack : Stack)
    (ho : c.outcome = some o) : s.Arrives stack k env task o := by
  have hstage := h.stage
  generalize hrest : t.rest = p at hstage
  cases hstage with
  | claims hp hfree => exact h.arrives_of_leads ho hp hfree hrest
  | waits htaken => exact h.arrives_of_await ho hrest
  | ended ho' =>
    cases ho.symm.trans ho'
    exact ⟨[], s, t, c, rfl, .refl _ _ s, h, hrest⟩

/-! ### Steps of the task -/

theorem deliver {o : Outcome} (h : s.Joins k env t c task) (stack : Stack)
    (ho : task.outcome? = some o)
    (hdelivery : task.delivery.map (·.cell) = some (.task (ThreadId.main.nested k)))
    (hempty : c.outcome = none) :
    ∃ m, task.Moves stack s.cell (ThreadId.main.nested k) m ∧ m.start = none ∧
      m.change.cell? = some (.task (ThreadId.main.nested k)) ∧ m.thread.rest = task.rest ∧
        m.thread.spawned = task.spawned ∧ m.thread.delivery = task.delivery ∧
          (s.after (ThreadId.main.nested k) m).Joins k env t { c with outcome := some o }
            m.thread := by
  obtain ⟨d, hd, hcell⟩ := Option.map_eq_some_iff.1 hdelivery
  have hdue : task.due? = some d := by
    have hnone : task.delivered = none := by simpa [hempty] using h.delivered
    rw [Thread.due?, hnone, hd]
  have hm : task.Moves stack s.cell (ThreadId.main.nested k) _ :=
    .deliver ho hdue (hcell ▸ h.cell) hempty
  obtain ⟨printed, hannounced⟩ := task.exists_announced_eq d o
  rw [hannounced, hcell] at hm
  refine ⟨_, hm, rfl, rfl, rfl, rfl, rfl, ?_⟩
  exact
    { main := by
        have hne := (ThreadId.nested_ne_main (k := k) .main).symm
        simpa [System.after, Move.started?, hne] using h.main
      keeps := h.keeps
      cell := by simp [System.after, Change.on, h.cell]
      forked := after_thread_self
      delivered := rfl
      outcome := fun o' ho' => by
        cases ho'
        exact ho
      stage := by
        have hstage := h.stage
        generalize t.rest = p at hstage
        cases hstage with
        | claims hp hfree => exact .claims hp hfree
        | waits htaken => exact .waits htaken
        | ended ho' =>
          rw [hempty] at ho'
          cases ho' }

end Joins

namespace Deeper

/-- The cell that the main thread waits for is not there where it does the work itself. -/
theorem deeper_ne (x : CellId) : x.deeper k ≠ .task (ThreadId.main.nested k) := by
  cases x with
  | external => exact nofun
  | task id => exact fun h => ThreadId.deeper_ne_nested_main id (CellId.task.inj h)

theorem of_sameBut_main (h : s.Deeper k s')
    (hsame : s'.SameBut .main (.task (ThreadId.main.nested k)) next') : s.Deeper k next' where
  thread id := by
    rw [hsame.thread _ (ThreadId.nested_ne_main id)]
    exact h.thread id
  cell x := by
    rw [hsame.cell _ (deeper_ne x)]
    exact h.cell x
  nested id hid hsome := by
    rw [hsame.thread id hid] at hsome
    exact h.nested id hid hsome

theorem of_sameBut_task {task' : Thread} (h : s.Deeper k s')
    (hsame : s'.SameBut (ThreadId.main.nested k) (.task (ThreadId.main.nested k)) next')
    (htask : s'.thread (ThreadId.main.nested k) = some task)
    (htask' : next'.thread (ThreadId.main.nested k) = some task')
    (hrest : task'.rest = task.rest) (hspawned : task'.spawned = task.spawned)
    (hdelivery : task'.delivery = task.delivery) : s.Deeper k next' where
  thread id := by
    have hrel := h.thread id
    by_cases hid : id = .main
    · subst hid
      rw [htask] at hrel
      rw [htask']
      generalize s.thread .main = t at hrel ⊢
      cases hrel with
      | some ht =>
        exact .some ⟨hrest ▸ ht.rest, hspawned ▸ ht.spawned, hdelivery ▸ ht.main,
          fun hne => absurd rfl hne, fun hne => absurd rfl hne⟩
    · rw [hsame.thread _ fun heq => hid (ThreadId.nested_inj heq)]
      exact hrel
  cell x := by
    rw [hsame.cell _ (deeper_ne x)]
    exact h.cell x
  nested id hid hsome := by
    by_cases htask : id = ThreadId.main.nested k
    · exact ⟨.main, htask⟩
    · rw [hsame.thread id htask] at hsome
      exact h.nested id hid hsome

end Deeper

/-! ### Steps that are made on both sides -/

theorem step_eq_map (s : System) (id : ThreadId) : s.step stack id =
    ((s.thread id).bind (·.act stack s.cell id)).map (s.bring id) := by
  rw [step]
  cases s.thread id with
  | none => rfl
  | some t =>
    change (t.act stack s.cell id).bind _ = (t.act stack s.cell id).map _
    cases t.act stack s.cell id <;> rfl

theorem exists_of_mem_right {α β : Type} {R : α → β → Prop} {as : List α} {bs : List β}
    (h : List.Forall₂ R as bs) {b : β} (hb : b ∈ bs) : ∃ a, R a b := by
  induction h with
  | nil => cases hb
  | @cons a b' as bs hab hall ih =>
    rcases List.mem_cons.1 hb with rfl | hb
    · exact ⟨a, hab⟩
    · exact ih hb

/-- What is done one spawn deeper concerns the main thread and the cell that it waits for only when
the task delivers. -/
theorem Joins.bring {e e' : Effect} (h : s'.Joins k env t c task) (he : e.Deeper k id e')
    (hmain : id = .main → task.outcome? = none ∧ e'.thread.delivered = task.delivered) :
    ∃ task', (s'.bring (id.nested k) e').Joins k env t c task' := by
  have hstarts : ∀ start ∈ e'.starts, start.1 ≠ .main ∧ start.1 ≠ ThreadId.main.nested k := by
    intro start hstart
    obtain ⟨⟨new, t₀⟩, hname, hne, -⟩ := exists_of_mem_right he.starts hstart
    rw [hname]
    exact ⟨ThreadId.nested_ne_main new, fun heq => hne (ThreadId.nested_inj heq)⟩
  have hcells : ∀ entry ∈ e'.cells, entry.1 ≠ .task (ThreadId.main.nested k) := by
    intro entry hentry
    obtain ⟨⟨x, c₀⟩, hname, -⟩ := exists_of_mem_right he.cells hentry
    rw [hname]
    exact Deeper.deeper_ne x
  have hthread : (s'.bring (id.nested k) e').thread .main = some t := by
    rw [bring_thread_of_ne (ThreadId.nested_ne_main id).symm fun start h => (hstarts start h).1]
    exact h.main
  have hcell : (s'.bring (id.nested k) e').cell (.task (ThreadId.main.nested k)) = some c := by
    rw [bring_cell_of_ne hcells]
    exact h.cell
  by_cases hid : id = .main
  · subst hid
    obtain ⟨hended, hdelivered⟩ := hmain rfl
    refine ⟨e'.thread, hthread, h.keeps, hcell, by simp [System.bring], ?_, fun o ho => ?_, h.stage⟩
    · rw [hdelivered, h.delivered]
    · have hnone := h.outcome o ho
      rw [hended] at hnone
      cases hnone
  · refine ⟨task, hthread, h.keeps, hcell, ?_, h.delivered, h.outcome, h.stage⟩
    rw [bring_thread_of_ne (fun heq => hid (ThreadId.nested_inj heq).symm)
      fun start h => (hstarts start h).2]
    exact h.forked

theorem Deeper.outcome?_task (h : s.Deeper k s')
    (htask : s'.thread (ThreadId.main.nested k) = some task) :
    Option.Rel (Outcome.Deeper k) (s.outcome? .main) task.outcome? := by
  have hrel := h.thread .main
  rw [htask] at hrel
  rw [outcome?]
  generalize s.thread .main = t at hrel ⊢
  cases hrel with
  | some ht => exact ht.outcome?

/-- Until the task has ended, its steps are those of the main thread that evaluates in place, and
those of the other threads are the same. -/
theorem Joining.step (h : s.Joining k env s') (stack : Stack) (id : ThreadId)
    (hmain : id = .main → s.outcome? .main = none) :
    Option.Rel (Joining k env) (s.step stack id) (s'.step stack (id.nested k)) := by
  obtain ⟨t, c, task, hjoins⟩ := h.joins
  have hact := h.toDeeper.act stack id hmain
  have hdelivered : ∀ e', (s'.thread (id.nested k)).bind (·.act stack s'.cell (id.nested k)) =
      some e' → id = .main → task.outcome? = none ∧ e'.thread.delivered = task.delivered := by
    rintro e' he' rfl
    have houtcome := h.toDeeper.outcome?_task hjoins.forked
    rw [hmain rfl] at houtcome
    have hended : task.outcome? = none := by
      generalize task.outcome? = o at houtcome ⊢
      cases houtcome with
      | none => rfl
    rw [hjoins.forked] at he'
    obtain ⟨m, hm, rfl⟩ := Thread.moves_of_act he'
    exact ⟨hended, hm.delivered_eq hended⟩
  rw [step_eq_map, step_eq_map]
  generalize (s.thread id).bind (·.act stack s.cell id) = e at hact ⊢
  generalize (s'.thread (id.nested k)).bind (·.act stack s'.cell (id.nested k)) = e'
    at hact hdelivered ⊢
  cases hact with
  | none => exact .none
  | some he => exact .some ⟨h.toDeeper.bring he, t, c, hjoins.bring he (hdelivered _ rfl)⟩

/-! ### Runs -/

theorem Deeper.outcome?_eq_none (h : s.Deeper k s') (hstep : s.step stack .main = some next) :
    s.outcome? .main = none := by
  obtain ⟨t, m, ht, hm, -⟩ := step_eq_some_iff.1 hstep
  have hrel := h.thread .main
  rw [ht] at hrel
  have hdelivery : t.delivery = none := by
    generalize s'.thread (ThreadId.main.nested k) = t' at hrel
    cases hrel with
    | some hrel => exact (hrel.main rfl).1
  rw [outcome?, ht, Option.bind_some]
  cases hended : t.outcome? with
  | none => rfl
  | some o => exact absurd hdelivery (hm.undelivered (by rw [hended]; rfl)).1

/-- Every run of the evaluation in place is a run one spawn deeper. -/
theorem Joining.run {ids : List ThreadId} {last : System} (h : s.Joining k env s')
    (hrun : s.run stack ids = some last) :
    ∃ last', s'.run stack (ids.map (ThreadId.nested k)) = some last' ∧ last.Joining k env last' := by
  induction ids generalizing s s' with
  | nil =>
    cases hrun
    exact ⟨s', rfl, h⟩
  | cons id ids ih =>
    obtain ⟨next, hstep, hrest⟩ := run_cons_eq_some_iff.1 hrun
    have hrel := h.step stack id fun hid => h.toDeeper.outcome?_eq_none (hid ▸ hstep)
    rw [hstep] at hrel
    generalize hstep' : s'.step stack (id.nested k) = next' at hrel
    cases hrel with
    | some hnext =>
      obtain ⟨last', hrun', hlast⟩ := ih hnext hrest
      exact ⟨last', run_cons_eq_some_iff.2 ⟨_, hstep', hrun'⟩, hlast⟩

theorem Deeper.deliver {o : Outcome} (h : s.Deeper k s') (hjoins : s'.Joins k env t c task)
    (stack : Stack) (ho : task.outcome? = some o) (hempty : c.outcome = none) :
    ∃ next' task', s'.step stack (ThreadId.main.nested k) = some next' ∧ s.Deeper k next' ∧
      next'.Joins k env t { c with outcome := some o } task' := by
  have hrel := h.thread .main
  rw [hjoins.forked] at hrel
  have hdelivery : task.delivery.map (·.cell) = some (.task (ThreadId.main.nested k)) := by
    generalize s.thread .main = t₀ at hrel
    cases hrel with
    | some hrel => exact (hrel.main rfl).2
  obtain ⟨m, hm, hstart, hchange, hrest, hspawned, hkept, hnext⟩ :=
    hjoins.deliver stack ho hdelivery hempty
  refine ⟨_, _, step_of_moves hjoins.forked hm, ?_, hnext⟩
  exact h.of_sameBut_task (sameBut_after s' _ hstart (.inr hchange)) hjoins.forked hnext.forked
    hrest hspawned hkept

/-- A step one spawn deeper is one of the evaluation in place, or concerns only the main thread, the
task that it waits for and the cell between them. -/
theorem Joining.step_back (h : s.Joining k env s') (hstep : s'.step stack id = some next') :
    ∃ ids next, s.run stack ids = some next ∧ next.Joining k env next' := by
  obtain ⟨t, c, task, hjoins⟩ := h.joins
  by_cases hid : id = .main
  · subst hid
    obtain ⟨hsame, t', c', hnext⟩ := hjoins.main_step hstep
    exact ⟨[], s, rfl, h.toDeeper.of_sameBut_main hsame, t', c', task, hnext⟩
  · obtain ⟨t₁, m, ht₁, hm, -⟩ := step_eq_some_iff.1 hstep
    obtain ⟨other, rfl⟩ := h.nested id hid (by rw [ht₁]; rfl)
    by_cases hended : other = .main ∧ s.outcome? .main ≠ none
    · obtain ⟨rfl, hended⟩ := hended
      cases hjoins.forked.symm.trans ht₁
      have houtcome := h.toDeeper.outcome?_task hjoins.forked
      generalize s.outcome? .main = o at houtcome hended
      generalize ho' : task.outcome? = o' at houtcome
      cases houtcome with
      | none => exact absurd rfl hended
      | some ho =>
        have hempty : c.outcome = none := by
          have hdelivered := hjoins.delivered
          rw [(hm.undelivered (by rw [ho']; rfl)).2] at hdelivered
          simpa using hdelivered
        obtain ⟨next'', task', hstep', hdeeper, hnext⟩ :=
          h.toDeeper.deliver hjoins stack ho' hempty
        cases hstep.symm.trans hstep'
        exact ⟨[], s, rfl, hdeeper, t, _, task', hnext⟩
    · have hrel := h.step stack other fun hmain => by
        by_contra hne
        exact hended ⟨hmain, hne⟩
      rw [hstep] at hrel
      generalize hstep₀ : s.step stack other = next at hrel
      cases hrel with
      | some hnext => exact ⟨[other], _, run_cons_eq_some_iff.2 ⟨_, hstep₀, rfl⟩, hnext⟩

/-- Every run one spawn deeper is made by a run of the evaluation in place. -/
theorem Joining.run_back {ids : List ThreadId} {last' : System} (h : s.Joining k env s')
    (hrun : s'.run stack ids = some last') :
    ∃ ids last, s.run stack ids = some last ∧ last.Joining k env last' := by
  induction ids generalizing s s' with
  | nil =>
    cases hrun
    exact ⟨[], s, rfl, h⟩
  | cons id ids ih =>
    obtain ⟨next', hstep, hrest⟩ := run_cons_eq_some_iff.1 hrun
    obtain ⟨ids₁, next, hrun₁, hnext⟩ := h.step_back hstep
    obtain ⟨ids₂, last, hrun₂, hlast⟩ := ih hnext hrest
    exact ⟨ids₁ ++ ids₂, last, run_append hrun₁ hrun₂, hlast⟩

/-- What the main thread ends with by evaluating an expression in place, and by waiting for a task
that evaluates it. -/
inductive Joined (k : Nat) (env : Env) : Except Failure Result → Except Failure Result → Prop
  | ok (r : Result) : Joined k env (.ok r) (.ok ⟨(Matching.deeper k).value r.value, env⟩)
  | error {e e' : Failure} (h : e.Deeper k e') : Joined k env (.error e) (.error e')

theorem outcome?_eq_map (s : System) (id : ThreadId) :
    s.outcome? id = (s.ended? id).map (·.map (·.value)) := by
  rw [outcome?, ended?]
  cases s.thread id with
  | none => rfl
  | some t =>
    rw [Option.bind_some, Option.bind_some, Thread.outcome?]
    cases t.rest <;> rfl

theorem joined_of_outcome {r : Except Failure Result} {o' : Outcome} (env : Env)
    (h : Outcome.Deeper k (r.map (·.value)) o') :
    ∃ r', (Prog.resume (fun v => .done ⟨v, env⟩) o' : Prog Work Result).ended? = some r' ∧
      Joined k env r r' := by
  cases r with
  | ok r =>
    cases h with
    | ok hv => exact ⟨_, rfl, .ok r⟩
  | error e =>
    cases h with
    | error he => exact ⟨_, rfl, .error he⟩

/-- Once the evaluation in place has ended, one spawn deeper the main thread ends with the same. -/
theorem Joining.finish {r : Except Failure Result} (h : s.Joining k env s') (stack : Stack)
    (hr : s.ended? .main = some r) :
    ∃ ids last' r', s'.run stack ids = some last' ∧ s.Deeper k last' ∧
      last'.ended? .main = some r' ∧ Joined k env r r' := by
  obtain ⟨t, c, task, hjoins⟩ := h.joins
  have houtcome := h.toDeeper.outcome?_task hjoins.forked
  rw [outcome?_eq_map, hr, Option.map_some] at houtcome
  generalize ho : task.outcome? = o at houtcome
  cases houtcome with
  | @some _ o' hdeeper =>
    obtain ⟨r', hended, hjoined⟩ := joined_of_outcome env hdeeper
    -- When the task has delivered, the main thread gets to its end by itself.
    have harrives : ∀ {s₁ c₁ task₁}, s.Deeper k s₁ → s₁.Joins k env t c₁ task₁ →
        c₁.outcome = some o' → ∃ ids last' r', s₁.run stack ids = some last' ∧
          s.Deeper k last' ∧ last'.ended? .main = some r' ∧ Joined k env r r' := by
      intro s₁ c₁ task₁ h₁ hjoins₁ hc₁
      obtain ⟨ids, last', t', c', hrun, hsame, hlast, hrest⟩ := hjoins₁.arrives stack hc₁
      refine ⟨ids, last', r', hrun, h₁.of_sameBut_main hsame, ?_, hjoined⟩
      rw [ended?, hlast.main, Option.bind_some, hrest, hended]
    cases hc : c.outcome with
    | some o₁ =>
      cases ho.symm.trans (hjoins.outcome o₁ hc)
      exact harrives h.toDeeper hjoins hc
    | none =>
      obtain ⟨next', task', hstep, hnext, hjoins'⟩ :=
        h.toDeeper.deliver hjoins stack ho hc
      obtain ⟨ids, last', r', hrun, hlast⟩ := harrives hnext hjoins' rfl
      exact ⟨_ :: ids, last', r', run_cons_eq_some_iff.2 ⟨next', hstep, hrun⟩, hlast⟩

theorem Joining.ended {r' : Except Failure Result} (h : s.Joining k env s')
    (hr : s'.ended? .main = some r') : ∃ r, s.ended? .main = some r ∧ Joined k env r r' := by
  obtain ⟨t, c, task, hjoins⟩ := h.joins
  rw [ended?, hjoins.main, Option.bind_some] at hr
  have hstage := hjoins.stage
  generalize t.rest = p at hr hstage
  cases hstage with
  | claims hp hfree => cases hp <;> cases hr
  | waits htaken => cases hr
  | @ended o' ho' =>
    have houtcome := h.toDeeper.outcome?_task hjoins.forked
    rw [hjoins.outcome o' ho', outcome?_eq_map] at houtcome
    generalize hended : s.ended? .main = r at houtcome
    cases r with
    | none => cases houtcome
    | some r =>
      rw [Option.map_some] at houtcome
      cases houtcome with
      | some hdeeper =>
        obtain ⟨r₁, hr₁, hjoined⟩ := joined_of_outcome env hdeeper
        cases hr.symm.trans hr₁
        exact ⟨r, rfl, hjoined⟩

end System

end ForkJoin

import ForkJoin.Proofs.Run.Confluence
import ForkJoin.Proofs.Run.Proper
import ForkJoin.Proofs.Serial.Elision
import Mathlib.Order.WellFoundedSet

/-!
# Serial elision

With scoped bindings, spawns and syncs can be taken away from a program in which nothing fails and
which compares ground values only: evaluated on a large enough stack it has the same value, where
in the place of each future stands what its task committed.

What a task committed may hold futures again. They are those of tasks before it, so the values that
stand in the place of futures are found by recursion along the order of tasks (`standIn`). That a
task can be done in place is shown from the last task of a run to the first
(`System.SelfMade.inPlace`), and then the main thread is no different from a task.
-/

namespace ForkJoin

/-- The thread whose cell it is. Cells from outside count as the main thread's. -/
def CellId.maker : CellId → ThreadId
  | .task u => u
  | .external _ _ => .main

section StandIn

variable {earlier : CellId → CellId → Prop} (hearlier : WellFounded earlier)
  (stored : CellId → Option Value)

open Classical in
/-- What stands in the place of a future: what is stored in the cell, without spawns and syncs,
where the same is done to the futures of earlier cells. -/
noncomputable def standIn : CellId → Value :=
  hearlier.fix fun x known =>
    match stored x with
    | some v => v.rewrite (.serial fun y => if h : earlier y x then known y h else .future y)
    | none => .future x

variable {stored}

theorem standIn_of_none {x : CellId} (h : stored x = none) :
    standIn hearlier stored x = .future x := by
  rw [standIn, hearlier.fix_eq, h]

open Classical in
theorem standIn_of_some {x : CellId} {v : Value} (h : stored x = some v) :
    standIn hearlier stored x = v.rewrite
      (.serial fun y => if earlier y x then standIn hearlier stored y else .future y) := by
  rw [standIn, hearlier.fix_eq, h]
  rfl

theorem wellFormed_standIn (hwellFormed : ∀ x v, stored x = some v → v.WellFormed) (x : CellId) :
    (standIn hearlier stored x).WellFormed := by
  induction x using hearlier.induction with
  | _ x ih =>
    cases hx : stored x with
    | none =>
      rw [standIn_of_none hearlier hx]
      exact trivial
    | some v =>
      rw [standIn_of_some hearlier hx]
      refine Value.WellFormed.rewrite (Rewriting.wellFormed_serial fun y => ?_)
        (hwellFormed x v hx)
      by_cases hy : earlier y x
      · simpa only [if_pos hy] using ih y hy
      · simp only [if_neg hy, Value.wellFormed_future]

/-- If what is stored mentions earlier cells only, the same is done to all futures in it. -/
theorem standIn_eq {x : CellId} {v : Value} (h : stored x = some v)
    (hwithin : v.Within fun y => earlier y x) :
    standIn hearlier stored x = v.rewrite (.serial (standIn hearlier stored)) := by
  rw [standIn_of_some hearlier h]
  refine Value.rewrite_congr ?_ ?_ (fun y hy => if_pos hy) v hwithin
  · rfl
  · rfl

end StandIn

namespace System

variable {stack : Stack} {s last : System} {id : ThreadId} {t : Thread} {m : Move}
  {p : Prog Work Result} {ids : List ThreadId}

/-! ### Evaluations on their own -/

/-- The invariant of an evaluation that starts without any cells: every cell belongs to a task, and
holds the well-formed value that the task has ended with. -/
structure SelfMade (s : System) : Prop extends s.Ordered where
  proper : s.Proper fun _ => True
  commits : s.Commits
  inside : ∀ name generation, s.cell (.external name generation) = none

theorem SelfMade.after (hs : s.SelfMade) (ht : s.thread id = some t)
    (hm : t.Moves stack s.cell id m) : (s.after id m).SelfMade where
  toOrdered := hs.toOrdered.after ht hm
  proper := hs.proper.after (fun _ _ => trivial) ht hm
  commits := hs.commits.after hs.toOrdered ht hm
  inside name generation := by
    cases hnew : (s.after id m).cell (.external name generation) with
    | none => rfl
    | some c =>
      cases (hm.of_new_cell (hs.inside name generation) (Option.isSome_of_eq_some hnew)).1

theorem SelfMade.run (hs : s.SelfMade) (hrun : s.run stack ids = some last) : last.SelfMade := by
  refine run_induction (fun s id s' hs hstep => ?_) hs hrun
  obtain ⟨t, m, ht, hm, rfl⟩ := step_eq_some_iff.1 hstep
  exact hs.after ht hm

theorem selfMade_launch (hconfined : p.Confined Result.Within fun _ => False)
    (hproper : p.Proper fun _ => True) : (launch .none p).SelfMade := by
  have hmain : ∀ {id t}, (launch .none p).thread id = some t → id = .main ∧ t = { rest := p } := by
    intro id t ht
    cases id with
    | main => exact ⟨rfl, (Option.some.inj ht).symm⟩
    | helper | child => cases ht
  have hcell : ∀ x, (launch .none p).cell x = none := by
    intro x
    cases x <;> rfl
  exact
    { toCounted := (sound_launch .none p).toCounted
      finite := (Set.finite_singleton .main).subset fun id hid => by
        obtain ⟨t, ht⟩ := Option.isSome_iff_exists.1 hid
        exact (hmain ht).1
      no_helper := fun _ => rfl
      main := fun t ht => by rw [(hmain ht).2]
      delivery := fun id t d ht hd => by
        rw [(hmain ht).2] at hd
        cases hd
      task := fun q n t ht => by cases (hmain ht).1
      stored := fun id c v hc => by cases (hcell _).symm.trans hc
      confined := fun id t ht => by
        rw [(hmain ht).2]
        exact hconfined.mono (fun r hr => hr.mono fun x hx => hx.elim) fun x hx => hx.elim
      proper := ⟨fun id t ht => by rw [(hmain ht).2]; exact hproper,
        fun x c o hc => by cases (hcell x).symm.trans hc⟩
      commits := fun u c o hc => by cases (hcell _).symm.trans hc
      inside := fun _ _ => hcell _ }

/-- There are values that can stand in the place of the futures of an evaluation on its own. -/
theorem SelfMade.exists_held (hs : s.SelfMade) : ∃ held : CellId → Value,
    (∀ x, (held x).WellFormed) ∧
      ∀ x v, s.stored? x = some v → v.WellFormed ∧ held x = v.rewrite (.serial held) := by
  -- Tasks are finitely many, and what a task stores mentions tasks before it.
  have hwf : WellFounded fun a b => ThreadId.Before a b ∧ a ∈ {u | (s.thread u).isSome} ∧
      b ∈ {u | (s.thread u).isSome} :=
    Set.wellFoundedOn_iff.1 hs.finite.wellFoundedOn
  have hproper : ∀ x v, s.stored? x = some v → v.WellFormed := by
    intro x v hv
    obtain ⟨c, hc, ho⟩ := stored?_eq_some_iff.1 hv
    exact hs.proper.cell x c _ hc ho
  have hwithin : ∀ x v, s.stored? x = some v → v.Within fun y =>
      ThreadId.Before y.maker x.maker ∧ y.maker ∈ {u | (s.thread u).isSome} ∧
        x.maker ∈ {u | (s.thread u).isSome} := by
    intro x v hv
    obtain ⟨c, hc, ho⟩ := stored?_eq_some_iff.1 hv
    cases x with
    | external name generation => cases (hs.inside name generation).symm.trans hc
    | task u =>
      obtain ⟨t, ht, -⟩ := hs.commits u c _ hc ho
      refine (hs.stored u c v hc ho).mono ?_
      rintro _ ⟨w, rfl, hw, hbefore⟩
      exact ⟨hbefore, hw, Option.isSome_of_eq_some ht⟩
  have hearlier := InvImage.wf CellId.maker hwf
  exact ⟨standIn hearlier s.stored?, wellFormed_standIn hearlier hproper,
    fun x v hv => ⟨hproper x v hv, standIn_eq hearlier hv (hwithin x v hv)⟩⟩

/-! ### From runs to evaluations in place -/

/-- An evaluation compared ground values only, as it went in a run: if all other comparisons were
refused, it would not be refused any. -/
def ComparesGround (stack : Stack) (stored : CellId → Option Value) (id : ThreadId)
    (ctx : Context) (env : Env) (e : Expr) : Prop :=
  ∀ k, ¬ (evalComparing Value.equalGround stack.depth stack.room ctx env e).Replays
    ⟨stored, fun _ _ => True⟩ id 0 (.error refusal) k

/-- Where no comparison is refused, nothing is different from the evaluation of the language. -/
theorem ComparesGround.replays {stored : CellId → Option Value} {spawned : ThreadId → Work → Prop}
    {ctx : Context} {env : Env} {e : Expr} {r : Result} {k : Nat}
    (hground : ComparesGround stack stored id ctx env e)
    (hstored : ∀ x v, stored x = some v → v.WellFormed) (henv : env.WellFormed) (he : e.WellFormed)
    (h : (stack.eval ctx env e).Replays ⟨stored, spawned⟩ id 0 (.ok r) k) :
    (evalComparing Value.equalGround stack.depth stack.room ctx env e).Replays
      (Record.refusing ⟨stored, spawned⟩) id 0 (.ok r) k := by
  have hmatches := Matching.evaluators_evalComparing stack.depth stack.room ctx ctx env e
    ⟨rfl, rfl⟩ henv he
  rw [Matching.expr_refusing, Matching.env_refusing] at hmatches
  rcases hmatches.replays hstored h with ⟨k, hrefused⟩ | ⟨r', hr', hreplays⟩
  · exact absurd (hrefused.mono fun _ _ _ => trivial) (hground k)
  · have hsame : r = r' := by
      rw [hr'.eq, Matching.result, Matching.value_refusing, Matching.env_refusing]
    rwa [hsame]

/-- What a work comes to when it is done in place, without spawns and syncs. -/
def InPlace (held : CellId → Value) (u : ThreadId) (work : Work) : Prop :=
  work.WellFormed → work.context.scopedLet = true →
    Succeeds (work.env.rewrite (.serial held)) (work.expr.rewrite (.serial held)) (held (.task u))

/-- What succeeded in a run, and compared ground values only, succeeds without spawns and syncs if
what it spawned does. -/
theorem succeeds_of_replays {stored : CellId → Option Value} {held : CellId → Value}
    {ctx : Context} {env : Env} {e : Expr} {r : Result} {k : Nat}
    (hwellFormed : ∀ x, (held x).WellFormed)
    (hstored : ∀ x v, stored x = some v → v.WellFormed ∧ held x = v.rewrite (.serial held))
    (hscoped : ctx.scopedLet = true) (henv : env.WellFormed) (he : e.WellFormed)
    (hground : ComparesGround stack stored id ctx env e)
    (h : (stack.eval ctx env e).Replays ⟨stored, InPlace held⟩ id 0 (.ok r) k) :
    r.env = env ∧ Succeeds (env.rewrite (.serial held)) (e.rewrite (.serial held))
      (r.value.rewrite (.serial held)) := by
  have hheld : (Record.refusing ⟨stored, InPlace held⟩).Held held := by
    refine ⟨hwellFormed, hstored, ?_⟩
    rintro u ⟨expr, env, context⟩ ⟨⟨expr', env', context'⟩, hplace, hworks⟩ hscoped
    obtain ⟨⟨hexpr, henv⟩, hsame, hsame', hctx⟩ := hworks
    simp only [Matching.expr_refusing, Matching.env_refusing] at hsame hsame'
    subst hsame hsame'
    exact hplace ⟨hexpr, henv⟩ (hctx.scopedLet.trans hscoped)
  have hreplays := hground.replays (fun x v hv => (hstored x v hv).1) henv he h
  obtain ⟨_, ⟨hkeeps, -, rfl⟩, hsettles⟩ :=
    elides_evalComparing hheld id stack.depth stack.room ctx env e hscoped henv he 0 r k hreplays
  exact ⟨hkeeps, hsettles⟩

theorem exists_run_of_leads {r : Result} (stack : Stack) (ht : s.thread id = some t)
    (h : t.rest.Leads (.done r)) :
    ∃ n last, s.run stack (List.replicate n id) = some last ∧ last.ended? id = some (.ok r) := by
  generalize hp : t.rest = p at h
  generalize hq : Prog.done r = q at h
  induction h generalizing s t with
  | here p =>
    subst hq
    exact ⟨0, s, rfl, by rw [ended?, ht, Option.bind_some, hp]; rfl⟩
  | @emit line p q h ih =>
    have hm : t.Moves stack s.cell id _ := .print hp
    have ht' : (s.after id { thread := { t with rest := p }.print line }).thread id = some _ :=
      after_thread_self
    obtain ⟨n, last, hrun, hended⟩ := ih ht' rfl hq
    exact ⟨n + 1, last, run_cons_eq_some_iff.2 ⟨_, step_of_moves ht hm, hrun⟩, hended⟩

theorem SelfMade.ended_of_stored {u : ThreadId} {v : Value} (hs : s.SelfMade)
    (h : s.stored? (.task u) = some v) : ∃ r, s.ended? u = some (.ok r) ∧ r.value = v := by
  obtain ⟨c, hc, ho⟩ := stored?_eq_some_iff.1 h
  obtain ⟨t, ht, hended⟩ := hs.commits u c _ hc ho
  rw [ended?, ht, Option.bind_some]
  unfold Thread.outcome? at hended
  split at hended
  case h_1 r hrest =>
    cases hended
    exact ⟨r, by rw [hrest]; rfl, rfl⟩
  case h_2 => cases hended
  case h_3 => cases hended

/-- What the main thread has ended with mentions cells only that hold values, if all tasks have
succeeded. -/
theorem SelfMade.within_stored (hs : s.SelfMade) {r : Result}
    (hmain : s.ended? .main = some (.ok r))
    (htasks : ∀ u, (s.cell (.task u)).isSome → ∃ v, s.stored? (.task u) = some v) :
    r.value.Within fun x => ∃ v, s.stored? x = some v := by
  obtain ⟨t, ht, hended⟩ := Option.bind_eq_some_iff.1 hmain
  have hconfined := hs.confined .main t ht
  rw [Prog.eq_done_of_ended? hended] at hconfined
  refine hconfined.1.mono fun x hx => ?_
  obtain ⟨-, -, c, -, -, hc, -⟩ := hs.task_of_before hx
  obtain ⟨u, rfl, -⟩ := hx
  exact htasks u (Option.isSome_of_eq_some hc)

/-- All tasks of a run can be done in place, if they succeed and compare ground values only. -/
theorem SelfMade.inPlace {held : CellId → Value} {u : ThreadId} {work : Work} (hs : s.SelfMade)
    (hrun : s.run stack ids = some last) (hwellFormed : ∀ x, (held x).WellFormed)
    (hstored : ∀ x v, last.stored? x = some v → v.WellFormed ∧ held x = v.rewrite (.serial held))
    (htasks : ∀ u work, (u, work) ∈ s.spawns stack ids → ∃ v, last.stored? (.task u) = some v)
    (hground : ∀ u work, (u, work) ∈ s.spawns stack ids →
      ComparesGround stack last.stored? u (work.context.child u.label) work.env work.expr)
    (hmem : (u, work) ∈ s.spawns stack ids) : InPlace held u work := by
  have hended : ∀ u work, (u, work) ∈ s.spawns stack ids →
      ∃ r, last.ended? u = some (.ok r) ∧ held (.task u) = r.value.rewrite (.serial held) := by
    intro u work hmem
    obtain ⟨v, hv⟩ := htasks u work hmem
    obtain ⟨r, hr, rfl⟩ := (hs.run hrun).ended_of_stored hv
    exact ⟨r, hr, (hstored _ _ hv).2⟩
  -- The induction goes backwards: what a task spawns is spawned after it.
  refine hs.spawns_induction hrun (fun u work hmem => ?_)
    (fun u work hmem r k hr hreplays => ?_) u work hmem
  · obtain ⟨r, hr, -⟩ := hended u work hmem
    exact ⟨r, hr⟩
  · intro hwork hscoped
    obtain ⟨r', hr', hheld⟩ := hended u work hmem
    cases hr.symm.trans hr'
    have heval : (stack.eval (work.context.child u.label) work.env work.expr).Replays
        ⟨last.stored?, InPlace held⟩ u 0 (.ok r) k := hreplays
    have hchild : (work.context.child u.label).scopedLet = true := hscoped
    rw [hheld]
    exact (succeeds_of_replays hwellFormed hstored hchild hwork.env hwork.expr
      (hground u work hmem) heval).2

/-- **Serial elision.** Let an expression be evaluated with scoped bindings, neither it nor its
environment mentioning futures. If in a run the evaluation succeeds, all tasks succeed that were
spawned in it, and all of them compare ground values only, then the evaluation without spawns and
syncs succeeds on every stack that is large enough. It has the same value, where in the place of
each future stands what its task committed, without spawns, syncs and futures in turn. -/
theorem serial_elision (stack : Stack) {ctx : Context} (hscoped : ctx.scopedLet = true) {env : Env}
    {e : Expr} (henv : env.WellFormed) (he : e.WellFormed) (henv' : env.Within fun _ => False)
    (he' : e.Within fun _ => False) {r : Result}
    (hrun : (launch .none (stack.eval ctx env e)).run stack ids = some last)
    (hmain : last.ended? .main = some (.ok r))
    (htasks : ∀ u work, (u, work) ∈ (launch .none (stack.eval ctx env e)).spawns stack ids →
      ∃ v, last.stored? (.task u) = some v)
    (hground : ComparesGround stack last.stored? .main ctx env e)
    (hground' : ∀ u work, (u, work) ∈ (launch .none (stack.eval ctx env e)).spawns stack ids →
      ComparesGround stack last.stored? u (work.context.child u.label) work.env work.expr) :
    ∃ held : CellId → Value,
      (∀ u v, last.stored? (.task u) = some v → held (.task u) = v.rewrite (.serial held)) ∧
      r.value.Within (fun x => ∃ v, last.stored? x = some v) ∧
      ∃ enough, ∀ (stack' : Stack) (ctx' : Context), enough ≤ stack'.depth →
        stack'.room.has enough → ctx'.scopedLet = true → ∃ n last',
          (launch .none (stack'.eval ctx' (env.rewrite .elision) (e.rewrite .elision))).run stack'
            (List.replicate n .main) = some last' ∧
          last'.ended? .main =
            some (.ok ⟨r.value.rewrite (.serial held), env.rewrite .elision⟩) := by
  have hs := selfMade_launch
    (confines_eval stack.depth stack.room ctx env e (fun _ => False) henv' he')
    (proper_eval (fun _ _ => trivial) stack ctx henv he)
  have hlast := hs.run hrun
  obtain ⟨held, hwellFormed, hstored⟩ := hlast.exists_held
  have hplace : ∀ u work, (u, work) ∈ (launch .none (stack.eval ctx env e)).spawns stack ids →
      InPlace held u work :=
    fun u work hmem => hs.inPlace hrun hwellFormed hstored htasks hground' hmem
  obtain ⟨k, hreplays⟩ := hs.replays_of_run rfl hrun hmain
  obtain ⟨-, enough, hsucceeds⟩ := succeeds_of_replays hwellFormed hstored hscoped henv he hground
    (hreplays.mono hplace)
  -- Neither the expression nor the environment has futures that something could be put in place of.
  have henvElision : env.rewrite (.serial held) = env.rewrite .elision := by
    refine Env.rewrite_congr ?_ ?_ (fun x hx => hx.elim) henv' <;> rfl
  have heElision : e.rewrite (.serial held) = e.rewrite .elision := by
    refine Expr.rewrite_congr ?_ ?_ (fun x hx => hx.elim) e he' <;> rfl
  rw [henvElision, heElision] at hsucceeds
  have hcells : ∀ u, (last.cell (.task u)).isSome → ∃ v, last.stored? (.task u) = some v := by
    intro u hu
    obtain ⟨work, hmem⟩ := exists_mem_spawns hrun rfl hu
    exact htasks u work hmem
  refine ⟨held, fun u v hv => (hstored _ v hv).2, hlast.within_stored hmain hcells, enough,
    fun stack' ctx' hdepth hroom hscoped' => ?_⟩
  exact exists_run_of_leads stack' rfl
    (hsucceeds stack'.depth stack'.room ctx' hdepth hroom hscoped')

/-- A future that is waited for, compared and given back. Without spawns and syncs what its task
committed is given back. -/
theorem serial_elision_future :
    ∃ depth n last, (launch .none (Stack.eval ⟨depth, none⟩ { scopedLet := true } ⟨[]⟩
        (.letIn "f" (.lit (.int 1))
          (.cond (.app (.lit (.fn (some "=") ["a", "b"] (.lit (.int 0)))) [.var "f", .lit (.int 1)])
            (.var "f") (.lit (.int 2)))))).run ⟨depth, none⟩ (List.replicate n .main) = some last ∧
      last.ended? .main = some (.ok ⟨.int 1, ⟨[]⟩⟩) := by
  let stack : Stack := ⟨8, none⟩
  let ctx : Context := { scopedLet := true }
  let test : Expr := .app (.lit (.fn (some "=") ["a", "b"] (.lit (.int 0))))
    [.sync (.var "f"), .lit (.int 1)]
  let e : Expr := .letIn "f" (.spawn (.lit (.int 1))) (.cond test (.var "f") (.lit (.int 2)))
  let task : ThreadId := .child .main 1
  let work : Work := ⟨.lit (.int 1), ⟨[]⟩, ctx⟩
  obtain ⟨last, hrun, hmain, hstored⟩ : ∃ last,
      (launch .none (stack.eval ctx ⟨[]⟩ e)).run stack [.main, task, .main, .main] = some last ∧
      last.ended? .main = some (.ok ⟨.future (.task task), ⟨[]⟩⟩) ∧
      last.stored? (.task task) = some (.int 1) := ⟨_, rfl, rfl, rfl⟩
  have hspawns : (launch .none (stack.eval ctx ⟨[]⟩ e)).spawns stack [.main, task, .main, .main] =
      [(task, work)] := rfl
  have htasks : ∀ u w, (u, w) ∈ (launch .none (stack.eval ctx ⟨[]⟩ e)).spawns stack
      [.main, task, .main, .main] → ∃ v, last.stored? (.task u) = some v := by
    intro u w hmem
    rw [hspawns] at hmem
    cases List.mem_singleton.1 hmem
    exact ⟨_, hstored⟩
  have hground : ComparesGround stack last.stored? .main ctx ⟨[]⟩ e := by
    intro k h
    cases h with
    | spawn _ h =>
      cases h with
      | claim h =>
        cases h with
        | await hv h =>
          cases hstored.symm.trans hv
          cases h
  have hground' : ∀ u w, (u, w) ∈ (launch .none (stack.eval ctx ⟨[]⟩ e)).spawns stack
      [.main, task, .main, .main] →
      ComparesGround stack last.stored? u (w.context.child u.label) w.env w.expr := by
    intro u w hmem k h
    rw [hspawns] at hmem
    cases List.mem_singleton.1 hmem
    cases h
  have hclosed : e.Within fun _ => False := by simp [e, test]
  have henv : Env.WellFormed ⟨[]⟩ := nofun
  have he : e.WellFormed := by simp [e, test]
  obtain ⟨held, hheld, -, enough, hserial⟩ :=
    serial_elision stack rfl henv he nofun hclosed hrun hmain htasks hground hground'
  obtain ⟨n, last', hrun', hmain'⟩ := hserial ⟨enough, none⟩ ctx le_rfl rfl rfl
  have hone : held (.task task) = .int 1 := hheld task _ hstored
  refine ⟨enough, n, last', hrun', ?_⟩
  have hvalue : (Value.future (.task task)).rewrite (.serial held) = .int 1 := hone
  rw [hmain', hvalue]
  rfl

end System

end ForkJoin

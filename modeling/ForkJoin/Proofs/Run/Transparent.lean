import ForkJoin.Proofs.Run.Join

/-!
# Forking and joining is transparent

Evaluating an expression in a task and waiting for the task at once comes to the same as evaluating
it in place: the same value or the same failure, and every cell ends up in the same state, under the
names that things have one spawn deeper. What the expression binds is not seen by who waits for it.

The spawn is of no concern to other threads, so in every run it can be made first
(`Sound.step_first`). After it the two systems are as `Joining` says.
-/

namespace ForkJoin

open Prog (Leads)

namespace System

variable {k : Nat} {stack : Stack} {out : Provided} {s sa last : System} {a id : ThreadId}
  {t : Thread} {ctx : Context} {env : Env} {e : Expr}

/-- A step that claims nothing can be made before everything else, if it is made at all. -/
theorem Sound.step_first {ids : List ThreadId} (hs : s.Sound) (hstep : s.step stack a = some sa)
    (hclaim : ∀ x, s.request? a x ≠ some .claim) (hrun : s.run stack ids = some last)
    (hmoved : last.thread a ≠ s.thread a) : ∃ rest, sa.run stack rest = some last := by
  induction ids generalizing s sa with
  | nil =>
    cases hrun
    exact absurd rfl hmoved
  | cons b ids ih =>
    obtain ⟨sb, hb, hrest⟩ := run_cons_eq_some_iff.1 hrun
    by_cases hne : b = a
    · subst hne
      cases hb.symm.trans hstep
      exact ⟨ids, hrest⟩
    · obtain ⟨joined, hab, hba⟩ := hs.step_comm hne hstep hb fun x h => hclaim x h.1
      obtain ⟨ta, -, hta, -⟩ := step_eq_some_iff.1 hstep
      obtain ⟨tb, mb, htb, hmb, rfl⟩ := step_eq_some_iff.1 hb
      have hkept := after_thread_of_ne hs.toCounted htb hmb (Ne.symm hne) hta
      obtain ⟨rest, hrun'⟩ := ih (hs.step hb) hba
        (fun x h => hclaim x (by rwa [hs.request?_step (Ne.symm hne) hb hta x] at h)) hrest
        (by rwa [hkept, ← hta])
      exact ⟨b :: rest, run_cons_eq_some_iff.2 ⟨joined, hab, hrun'⟩⟩

/-- A step of the main thread that claims nothing can be made first in every run in which the main
thread ends. -/
theorem Sound.main_first (hs : s.Sound) (ht : s.thread .main = some t)
    (hended : t.rest.ended? = none) (hclaim : ∀ x rest, t.rest ≠ .claim x rest)
    (hstep : s.step stack .main = some sa) {ids : List ThreadId} {r : Except Failure Result}
    (hrun : s.run stack ids = some last) (hr : last.ended? .main = some r) :
    ∃ rest, sa.run stack rest = some last := by
  refine hs.step_first hstep (fun x hx => ?_) hrun fun hsame => ?_
  · obtain ⟨t', ht', hrequest⟩ := exists_thread_of_request? hx
    cases ht.symm.trans ht'
    obtain ⟨rest, hrest⟩ := Thread.rest_of_claim hrequest
    exact hclaim x rest hrest
  · rw [ended?, hsame, ht, Option.bind_some, hended] at hr
    cases hr

theorem thread_setThread_self (s : System) (id : ThreadId) (t : Thread) :
    (s.setThread id t).thread id = some t :=
  if_pos rfl

theorem setThread_setThread (s : System) (id : ThreadId) (t t' : Thread) :
    (s.setThread id t).setThread id t' = s.setThread id t' := by
  refine (System.mk.injEq ..).mpr ⟨funext fun other => ?_, rfl⟩
  by_cases h : other = id <;> simp [h]

theorem step_emit (stack : Stack) (s : System) (id : ThreadId) (t : Thread) (line : String)
    (p : Prog Work Result) :
    (s.setThread id { t with rest := .emit line p }).step stack id =
      some (s.setThread id ({ t with rest := p }.print line)) := by
  have hact : ({ t with rest := .emit line p } : Thread).act stack s.cell id =
      some { thread := { t with rest := p }.print line } := rfl
  rw [step_eq_map, thread_setThread, if_pos rfl, Option.bind_some, cell_setThread, hact]
  exact congrArg some (setThread_setThread s id _ _)

/-! ### After the spawn -/

theorem Serving.thread_deeper (hs : s.Serving) (hk : s.SpawnedWithin k) (hid : id ≠ .main)
    (ht : s.thread id = some t) : t.Deeper k id t where
  rest := (hs.kept k hk).thread id t ht
  spawned := by rw [ThreadId.spawnedBefore, if_neg hid, Nat.add_zero]
  main h := absurd h hid
  delivery _ := by
    cases hd : t.delivery with
    | none => exact .none
    | some d =>
      refine .some ?_
      cases hcell : d.cell with
      | external => rfl
      | task u =>
        obtain rfl := hs.own id t d u ht hd hcell
        exact congrArg CellId.task (hs.toCounted.deeper_eq hk (by rw [ht]; rfl)).symm
  delivered _ := rfl

theorem Serving.cell_deeper {x : CellId} {c : Cell} (hs : s.Serving) (hk : s.SpawnedWithin k)
    (hc : s.cell x = some c) : c.Deeper k c where
  label := .same _
  outcome := by
    cases ho : c.outcome with
    | none => exact .none
    | some o =>
      refine .some ?_
      cases o with
      | error failure => exact .error (.same failure)
      | ok v =>
        obtain ⟨hv, heq⟩ := (hs.kept k hk).cell x c v hc ho
        have hdeeper := Outcome.Deeper.ok (k := k) hv
        rwa [heq] at hdeeper
  claimed := rfl

/-- A system whose main thread is about to evaluate, and the one in which it has spawned a task that
is about to evaluate the same. -/
theorem Serving.deeper_forked {next : System} {t' task : Thread} (hs : s.Serving)
    (ht : s.thread .main = some t) (ht' : t'.Deeper t.spawned .main task)
    (htask : next.thread (ThreadId.main.nested t.spawned) = some task)
    (hthread : ∀ id, id ≠ .main → id ≠ ThreadId.main.nested t.spawned →
      next.thread id = s.thread id)
    (hcells : ∀ x, x ≠ .task (ThreadId.main.nested t.spawned) → next.cell x = s.cell x) :
    (s.setThread .main t').Deeper t.spawned next := by
  have hk : s.SpawnedWithin t.spawned := by
    intro t₁ ht₁
    cases ht.symm.trans ht₁
    exact Nat.le_refl _
  have hkeeps : ∀ {id}, id ≠ .main → (s.thread id).isSome → id.nested t.spawned = id := by
    intro id hid hsome
    rw [← ThreadId.deeper_of_ne hid]
    exact hs.toCounted.deeper_eq hk hsome
  refine ⟨fun id => ?_, fun x => ?_, fun id hid hsome => ?_⟩
  · by_cases hid : id = .main
    · subst hid
      rw [htask, thread_setThread, if_pos rfl]
      exact .some ht'
    · have hnested : id.nested t.spawned ≠ ThreadId.main.nested t.spawned :=
        fun h => hid (ThreadId.nested_inj h)
      rw [thread_setThread, if_neg hid, hthread _ (ThreadId.nested_ne_main id) hnested]
      cases hold : s.thread id with
      | some t₁ =>
        rw [hkeeps hid (by rw [hold]; rfl), hold]
        exact .some (hs.thread_deeper hk hid hold)
      | none =>
        cases hnew : s.thread (id.nested t.spawned) with
        | none => exact .none
        | some t₁ =>
          have hsame := hkeeps (ThreadId.nested_ne_main id) (by rw [hnew]; rfl)
          rw [ThreadId.nested_inj hsame, hold] at hnew
          cases hnew
  · rw [cell_setThread, hcells _ (Deeper.deeper_ne x)]
    cases hold : s.cell x with
    | some c₁ =>
      rw [hs.toCounted.deeper_eq_of_cell hk (by rw [hold]; rfl), hold]
      exact .some (hs.cell_deeper hk hold)
    | none =>
      cases hnew : s.cell (x.deeper t.spawned) with
      | none => exact .none
      | some c₁ =>
        have hsame := hs.toCounted.deeper_eq_of_cell hk (by rw [hnew]; rfl)
        rw [CellId.deeper_inj hsame, hold] at hnew
        cases hnew
  · by_cases hnew : id = ThreadId.main.nested t.spawned
    · exact ⟨.main, hnew⟩
    · rw [hthread id hid hnew] at hsome
      exact ⟨id, (hkeeps hid hsome).symm⟩

theorem Serving.joining {rest : ThreadId → Prog Work Result} (hs : s.Serving) (stack : Stack)
    (ctx : Context) (ht : s.thread .main = some t) (henv : env.WellFormed) (he : e.WellFormed)
    (hknown : env.Within s.Known) (hknown' : e.Within s.Known) (t' : Thread)
    (hspawned : t'.spawned = t.spawned) (hdelivery : t'.delivery = t.delivery)
    (hp : t'.rest = .spawn ⟨e, env, ctx⟩ rest) (hrest : ∀ id, (rest id).Leads (.join id env)) :
    ∃ next, (s.setThread .main t').step stack .main = some next ∧
      Joining t.spawned env (s.setThread .main { t with rest := stack.eval ctx env e }) next := by
  have ht' := thread_setThread_self s .main t'
  have hk : s.SpawnedWithin t.spawned := by
    intro t₁ ht₁
    cases ht.symm.trans ht₁
    exact Nat.le_refl _
  have hworks := hs.toCounted.works hk ctx henv he hknown hknown'
  have hm : t'.Moves stack (s.setThread .main t').cell .main _ := .spawn hp
  rw [hspawned] at hm
  let task := ThreadId.child .main (t.spawned + 1)
  have hforked : (Thread.Deeper t.spawned .main { t with rest := stack.eval ctx env e }
      (.task stack task ⟨e, env, ctx⟩)) := by
    refine ⟨?_, (Nat.zero_add _).symm, fun _ => ⟨hs.main t ht, rfl⟩, fun h => absurd rfl h,
      fun h => absurd rfl h⟩
    have hctx : ctx.Alike (ctx.child task.label) := ⟨rfl, rfl⟩
    exact Thread.Deeper.eval hworks hctx stack
  have hne : task ≠ .main := ThreadId.child_ne_main _ _
  have hstarted : ∀ m : Move, m.start = some (task, .task stack task ⟨e, env, ctx⟩) →
      ((s.setThread .main t').after .main m).thread task =
        some (.task stack task ⟨e, env, ctx⟩) := by
    intro m hstart
    simp [System.after, Move.started?, hstart, hne]
  refine ⟨_, step_of_moves ht' hm, ?_, _, _, _, after_thread_self, hdelivery.trans (hs.main t ht),
    if_pos rfl, hstarted _ rfl, rfl, fun o (ho : none = some o) => absurd ho (by simp),
    .claims (hrest _) rfl⟩
  refine hs.deeper_forked ht hforked (hstarted _ rfl) (fun id hid hnew => ?_) fun x hx => ?_
  · have hold : id ≠ .child .main (t.spawned + 1) := hnew
    simp [System.after, Move.started?, hid, hold]
  · exact if_neg hx

/-- A program that spawns a task and waits for it spawns the task first, in every run in which it
ends. -/
theorem Serving.exists_joining {p : Prog Work Result} {rest : ThreadId → Prog Work Result}
    (hs : s.Serving) (stack : Stack) (ht : s.thread .main = some t) (henv : env.WellFormed)
    (he : e.WellFormed) (hknown : env.Within s.Known) (hknown' : e.Within s.Known)
    (hp : p.Leads (.spawn ⟨e, env, ctx⟩ rest)) (hrest : ∀ id, (rest id).Leads (.join id env))
    (printed : List String) : ∃ ids next,
      (s.setThread .main { t with rest := p, printed }).run stack ids = some next ∧
        Joining t.spawned env (s.setThread .main { t with rest := stack.eval ctx env e }) next ∧
        ∀ ids last r, (s.setThread .main { t with rest := p, printed }).run stack ids = some last →
          last.ended? .main = some r → ∃ ids', next.run stack ids' = some last := by
  have hsound : ∀ t' : Thread, t'.delivery = t.delivery → t'.spawned = t.spawned →
      (s.setThread .main t').Sound := fun t' => hs.toSound.setMain ht
  generalize hspawn : Prog.spawn ⟨e, env, ctx⟩ rest = q at hp
  induction hp generalizing printed with
  | here =>
    subst hspawn
    obtain ⟨next, hstep, hnext⟩ := hs.joining stack ctx ht henv he hknown hknown'
      { t with rest := .spawn ⟨e, env, ctx⟩ rest, printed } rfl rfl rfl hrest
    refine ⟨[.main], next, run_cons_eq_some_iff.2 ⟨next, hstep, rfl⟩, hnext, ?_⟩
    intro ids last r hrun hr
    exact (hsound { t with rest := .spawn ⟨e, env, ctx⟩ rest, printed } rfl rfl).main_first
      (thread_setThread_self ..) rfl (by simp) hstep hrun hr
  | @emit line p q hp ih =>
    have hstep := step_emit stack s .main { t with printed } line p
    obtain ⟨ids, next, hrun, hnext, hall⟩ := ih (line :: printed) hspawn
    refine ⟨.main :: ids, next, run_cons_eq_some_iff.2 ⟨_, hstep, hrun⟩, hnext, ?_⟩
    intro ids last r hrun hr
    obtain ⟨ids', hrun'⟩ :=
      (hsound { t with rest := .emit line p, printed } rfl rfl).main_first
        (thread_setThread_self ..) rfl (by simp) hstep hrun hr
    exact hall ids' last r hrun' hr

/-! ### Forking and joining -/

/-- The main thread has ended, in place and one spawn deeper, with the same value or the same
failure, and every cell is as its counterpart is: it holds the same and is claimed or not alike. -/
structure EndedAlike (k : Nat) (env : Env) (s s' : System) : Prop where
  ended : ∃ r r', s.ended? .main = some r ∧ s'.ended? .main = some r' ∧ Joined k env r r'
  cell : ∀ x, Option.Rel (Cell.Deeper k) (s.cell x) (s'.cell (x.deeper k))

/-- **Forking and immediately joining is transparent.** In a session, whatever tasks are still
running, a spawn cannot fail and gives a future and the same environment. Evaluating
`sync (spawn e)`, in a place that leaves room for the two nodes themselves, and evaluating `e` on a
fresh stack end in the same ways: to every run of the one there is a run of the other in which the
main thread ends with the same value or the same failure and all cells are claimed and written to
alike, where only the names of the tasks spawned on the way differ. The environment that is returned
with the value of `sync (spawn e)` is the one that it was given. -/
theorem sync_spawn_transparent (hout : out.WellFormed) (hs : Served stack out s)
    (ht : s.thread .main = some t) (limit : Nat) {room : Room} (hroom : room.has 4)
    (ctx : Context) (henv : env.WellFormed) (he : e.WellFormed) (hknown : env.Within s.Known)
    (hknown' : e.Within s.Known) :
    (∀ limit (room : Room), room.has 2 → ∃ rest,
      (eval (limit + 1) room ctx env (.spawn e)).Leads (.spawn ⟨e, env, ctx⟩ rest) ∧
        ∀ id, (rest id).Leads (.done ⟨.future (.task id), env⟩)) ∧
    (∀ ids last,
      (s.setThread .main { t with rest := stack.eval ctx env e }).run stack ids = some last →
      (last.ended? .main).isSome → ∃ ids' last',
        (s.setThread .main
          { t with rest := eval (limit + 2) room ctx env (.sync (.spawn e)) }).run stack ids' =
            some last' ∧ last.EndedAlike t.spawned env last') ∧
    (∀ ids' last',
      (s.setThread .main
        { t with rest := eval (limit + 2) room ctx env (.sync (.spawn e)) }).run stack ids' =
          some last' →
      (last'.ended? .main).isSome → ∃ ids last,
        (s.setThread .main { t with rest := stack.eval ctx env e }).run stack ids = some last ∧
          last.EndedAlike t.spawned env last') := by
  obtain ⟨rest, hleads, hrest⟩ := leads_eval_sync_spawn limit hroom ctx env e
  obtain ⟨first, next, hfirst, hnext, hall⟩ :=
    (hs.serving hout).exists_joining stack ht henv he hknown hknown' hleads hrest t.printed
  refine ⟨fun limit room hroom => leads_eval_spawn limit hroom ctx env e, ?_, ?_⟩
  · intro ids last hrun hended
    obtain ⟨r, hr⟩ := Option.isSome_iff_exists.1 hended
    obtain ⟨mid, hmid, hjoining⟩ := hnext.run hrun
    obtain ⟨more, last', r', hmore, hdeeper, hr', hjoined⟩ := hjoining.finish stack hr
    exact ⟨_, last', run_append hfirst (run_append hmid hmore), ⟨r, r', hr, hr', hjoined⟩,
      hdeeper.cell⟩
  · intro ids' last' hrun hended
    obtain ⟨r', hr'⟩ := Option.isSome_iff_exists.1 hended
    obtain ⟨others, hothers⟩ := hall ids' last' r' hrun hr'
    obtain ⟨ids, last, hrun, hjoining⟩ := hnext.run_back hothers
    obtain ⟨r, hr, hjoined⟩ := hjoining.ended hr'
    exact ⟨ids, last, hrun, ⟨r, r', hr, hr', hjoined⟩, hjoining.cell⟩

/-- An expression that binds a name and spawns a task. In a task of its own the binding is not left
behind, and the task that it spawns is a task of that task. -/
theorem sync_spawn_transparent_binding_spawn :
    ∃ ids last, ((launch .none (.done (.ofValue (.vec [])))).setThread .main
        { rest := eval 2 none {} ⟨[]⟩
            (.sync (.spawn (.letIn "x" (.lit (.int 1)) (.spawn (.var "x"))))) }).run ⟨3, none⟩ ids =
          some last ∧
      last.ended? .main = some (.ok ⟨.future (.task (.child (.child .main 1) 1)), ⟨[]⟩⟩) := by
  let e : Expr := .letIn "x" (.lit (.int 1)) (.spawn (.var "x"))
  have hout : Provided.none.WellFormed := ⟨nofun, nofun⟩
  have hknown : Expr.Within e (launch .none (.done (.ofValue (.vec [])))).Known := by simp [e]
  obtain ⟨last, hrun, hended⟩ : ∃ last,
      ((launch .none (.done (.ofValue (.vec [])))).setThread .main
        { rest := Stack.eval ⟨3, none⟩ {} ⟨[]⟩ e }).run ⟨3, none⟩ [.main] = some last ∧
      last.ended? .main = some (.ok ⟨.future (.task (.child .main 1)),
        Env.bind ⟨[]⟩ "x" (.int 1)⟩) := ⟨_, rfl, rfl⟩
  have hserved : Served ⟨3, none⟩ .none (launch .none (.done (.ofValue (.vec [])))) := .launch
  have hroom : Room.has none 4 = true := rfl
  have henv : Env.WellFormed ⟨[]⟩ := nofun
  have he : e.WellFormed := ⟨trivial, trivial⟩
  have htransparent :=
    sync_spawn_transparent hout hserved rfl 0 hroom {} henv he nofun hknown
  obtain ⟨ids, last', hrun', ⟨r, r', hr, hr', hjoined⟩, -⟩ :=
    htransparent.2.1 [.main] last hrun (by rw [hended]; rfl)
  cases hended.symm.trans hr
  cases hjoined
  exact ⟨ids, last', hrun', hr'⟩

end System

end ForkJoin

import ForkJoin.Proofs.Run.Deeper
import ForkJoin.Proofs.Run.Proper

/-!
# Sessions among cells from outside

A session in which the main thread evaluates one expression after another, while tasks of earlier
evaluations are still running and cells from outside are written to. Expressions and environments
may mention cells from outside and cells of tasks that are there.

One spawn deeper, what was there before keeps its name. So every thread of such a session does the
same one spawn deeper as it does, and every stored value is its own image: `System.Kept` is this
invariant, which holds for every number of tasks that is counted as spawned before.
-/

namespace ForkJoin

def CellId.Outside : CellId → Prop
  | .external _ _ => True
  | .task _ => False

/-- Cells from outside that hold and receive values of the language only, which mention no tasks. -/
structure Provided.WellFormed (out : Provided) : Prop where
  cell : ∀ name generation c v, out.cell name generation = some c → c.outcome = some (.ok v) →
    v.WellFormed ∧ v.Within CellId.Outside
  writer : ∀ n name generation v, out.writer n = some (name, generation, .ok v) →
    v.WellFormed ∧ v.Within CellId.Outside

theorem Provided.wellFormed_none : Provided.none.WellFormed :=
  ⟨nofun, nofun⟩

namespace System

def Known (s : System) : CellId → Prop
  | .external _ _ => True
  | .task id => (s.thread id).isSome

/-- The systems of a session: once the main thread is over it can be given an expression to
evaluate, and the threads make their steps in any order. -/
inductive Served (stack : Stack) (out : Provided) : System → Prop
  | launch : Served stack out (launch out (.done (.ofValue (.vec []))))
  | evaluate {s : System} {t : Thread} (ctx : Context) (env : Env) (e : Expr)
      (hs : Served stack out s) (ht : s.thread .main = some t) (hover : t.isOver)
      (henv : env.WellFormed) (he : e.WellFormed) (hknown : env.Within s.Known)
      (hknown' : e.Within s.Known) :
      Served stack out (s.setThread .main { t with rest := stack.eval ctx env e })
  | step {s s' : System} {id : ThreadId} (hs : Served stack out s)
      (hstep : s.step stack id = some s') : Served stack out s'

end System

namespace Matching

variable {M : Matching} {cells : CellId → Prop}

/-- Under names that keep the mentioned cells everything is kept. -/
theorem value_eq (hcells : ∀ x, cells x → M.cell x = x) {v : Value} (hv : v.Within cells) :
    M.value v = v :=
  (Value.rewrite_congr (σ := .ofCells M.cell) (τ := {}) rfl rfl
    (fun x hx => congrArg Value.future (hcells x hx)) v hv).trans
    (Value.rewrite_id v)

theorem expr_eq (hcells : ∀ x, cells x → M.cell x = x) {e : Expr} (he : e.Within cells) :
    M.expr e = e :=
  (Expr.rewrite_congr (σ := .ofCells M.cell) (τ := {}) rfl rfl
    (fun x hx => congrArg Value.future (hcells x hx)) e he).trans
    (Expr.rewrite_id e)

theorem env_eq (hcells : ∀ x, cells x → M.cell x = x) {env : Env} (henv : env.Within cells) :
    M.env env = env :=
  (Env.rewrite_congr (σ := .ofCells M.cell) (τ := {}) rfl rfl
    (fun x hx => congrArg Value.future (hcells x hx)) henv).trans
    (Env.rewrite_id env)

end Matching

namespace Prog

variable {M : Matching} {α β : Type} {R : α → β → Prop}

theorem Matches.of_done {a : α} {b : β} (h : Matches M R (.done a) (.done b)) : R a b := by
  cases h with
  | done h => exact h

theorem Matches.of_emit {line line' : String} {p : Prog Work α} {q : Prog Work β}
    (h : Matches M R (.emit line p) (.emit line' q)) : Matches M R p q := by
  cases h with
  | emit h => exact h

theorem Matches.of_spawn {work work' : Work} {p : ThreadId → Prog Work α}
    {q : ThreadId → Prog Work β} (h : Matches M R (.spawn work p) (.spawn work' q)) :
    M.Works work work' ∧ ∀ id, Matches M R (p id) (q (M.thread id)) := by
  cases h with
  | spawn hwork h => exact ⟨hwork, h⟩

theorem Matches.of_claim {x y : CellId} {p : Prog Work α} {q : Prog Work β}
    (h : Matches M R (.claim x p) (.claim y q)) : y = M.cell x ∧ Matches M R p q := by
  cases h with
  | claim h => exact ⟨rfl, h⟩

theorem Matches.of_await {x y : CellId} {p : Value → Prog Work α} {q : Value → Prog Work β}
    (h : Matches M R (.await x p) (.await y q)) :
    ∀ v, v.WellFormed → Matches M R (p v) (q (M.value v)) := by
  cases h with
  | await h => exact h

end Prog

namespace System

variable {k : Nat} {stack : Stack} {out : Provided} {s s' : System} {id : ThreadId} {t : Thread}
  {m : Move}

/-- Every thread does one spawn deeper what it does, and every stored value is its own image. -/
structure Kept (k : Nat) (s : System) : Prop where
  thread : ∀ id t, s.thread id = some t →
    Prog.Matches (.deeper k) (Matching.deeper k).Results t.rest t.rest
  cell : ∀ x c v, s.cell x = some c → c.outcome = some (.ok v) →
    v.WellFormed ∧ (Matching.deeper k).value v = v

/-- No more tasks of the main thread are there than are counted as spawned before. -/
def SpawnedWithin (s : System) (k : Nat) : Prop :=
  ∀ t, s.thread .main = some t → t.spawned ≤ k

/-! ### What was there before keeps its name -/

theorem deeper_child_eq {p : ThreadId} {n : Nat} (hk : s.SpawnedWithin k) (hp : p.deeper k = p)
    (ht : s.thread p = some t) (hle : n ≤ t.spawned) :
    (ThreadId.child p n).deeper k = .child p n := by
  rw [ThreadId.deeper_of_ne (ThreadId.child_ne_main p n)]
  by_cases hmain : p = .main
  · subst hmain
    rw [ThreadId.nested, if_pos]
    exact Nat.le_trans hle (hk t ht)
  · rw [ThreadId.deeper_of_ne hmain] at hp
    rw [ThreadId.nested, ThreadId.spawnedBefore, if_neg hmain, hp, Nat.sub_zero, ite_self]

theorem Counted.deeper_eq (hs : s.Counted) (hk : s.SpawnedWithin k)
    (hid : (s.thread id).isSome) : id.deeper k = id := by
  induction id with
  | main | helper => rfl
  | child p n ih =>
    obtain ⟨t, ht, hle⟩ := hs.thread p n hid
    exact deeper_child_eq hk (ih (by rw [ht]; rfl)) ht hle

theorem Counted.deeper_eq_of_cell (hs : s.Counted) (hk : s.SpawnedWithin k) {x : CellId}
    (hx : (s.cell x).isSome) : x.deeper k = x := by
  cases x with
  | external => rfl
  | task id =>
    cases id with
    | main | helper => rfl
    | child p n =>
      obtain ⟨t, ht, hle⟩ := hs.cell p n hx
      exact congrArg CellId.task
        (deeper_child_eq hk (hs.deeper_eq hk (by rw [ht]; rfl)) ht hle)

theorem Counted.deeper_eq_of_known (hs : s.Counted) (hk : s.SpawnedWithin k) (x : CellId)
    (hx : s.Known x) : x.deeper k = x := by
  cases x with
  | external => rfl
  | task id => exact congrArg CellId.task (hs.deeper_eq hk hx)

theorem Counted.works (hs : s.Counted) (hk : s.SpawnedWithin k) (ctx : Context) {env : Env}
    {e : Expr} (henv : env.WellFormed) (he : e.WellFormed) (hknown : env.Within s.Known)
    (hknown' : e.Within s.Known) : (Matching.deeper k).Works ⟨e, env, ctx⟩ ⟨e, env, ctx⟩ where
  wellFormed := ⟨he, henv⟩
  expr := (Matching.expr_eq (hs.deeper_eq_of_known hk) hknown').symm
  env := (Matching.env_eq (hs.deeper_eq_of_known hk) hknown).symm
  context := ⟨rfl, rfl⟩

theorem Kept.of_outcome {v : Value} (hs : s.Kept k) (ht : s.thread id = some t)
    (hv : t.outcome? = some (.ok v)) : v.WellFormed ∧ (Matching.deeper k).value v = v := by
  have hrest := hs.thread id t ht
  unfold Thread.outcome? at hv
  split at hv
  case h_1 r hdone =>
    cases hv
    rw [hdone] at hrest
    have hr := hrest.of_done
    exact ⟨hr.wellFormed.value, (congrArg Result.value hr.eq).symm⟩
  case h_2 => cases hv
  case h_3 => cases hv

theorem Kept.after (hs : s.Kept k) (hcounted : s.Counted) (ht : s.thread id = some t)
    (hm : t.Moves stack s.cell id m) (hk : (s.after id m).SpawnedWithin k) :
    (s.after id m).Kept k := by
  have hrest := hs.thread id t ht
  refine ⟨fun other t' hother => ?_, fun x c v hc hv => ?_⟩
  · rcases after_thread_eq_some hother with ⟨-, rfl⟩ | ⟨-, hstart⟩ | ⟨-, hthread⟩
    · cases hm with
      | print h =>
        rw [h] at hrest
        exact hrest.of_emit
      | @spawn work rest h =>
        rw [h] at hrest
        have hnew : (ThreadId.child id (t.spawned + 1)).deeper k = .child id (t.spawned + 1) := by
          refine (hcounted.after ht (.spawn h)).deeper_eq hk ?_
          have hne : ThreadId.child id (t.spawned + 1) ≠ id := ThreadId.child_ne _ _
          simp [System.after, Move.started?, hne]
        have hnext : Prog.Matches (.deeper k) (Matching.deeper k).Results
            (rest (.child id (t.spawned + 1)))
            (rest ((ThreadId.child id (t.spawned + 1)).deeper k)) := hrest.of_spawn.2 _
        rwa [hnew] at hnext
      | take h =>
        rw [h] at hrest
        exact hrest.of_claim.2
      | refuse => exact .fail (.same _)
      | @receive wanted rest c o h hcell hwritten =>
        rw [h] at hrest
        cases o with
        | error e => exact .fail (.same e)
        | ok v =>
          obtain ⟨hv, heq⟩ := hs.cell wanted c v hcell hwritten
          have hnext := hrest.of_await v hv
          rwa [heq] at hnext
      | deliver | late | lost => simpa only [Thread.announced_rest] using hrest
    · obtain ⟨-, -, -, work, rest, h, rfl⟩ := hm.of_start hstart
      rw [h] at hrest
      exact Thread.Deeper.eval hrest.of_spawn.1 ⟨rfl, rfl⟩ stack
    · exact hs.thread other t' hthread
  · rcases outcome_after_cases hm hc hv with ⟨c₀, hc₀, hv⟩ | ⟨hended, -⟩
    · exact hs.cell x c₀ v hc₀ hv
    · exact hs.of_outcome ht hended

theorem SpawnedWithin.of_after (hcounted : s.Counted) (ht : s.thread id = some t)
    (hm : t.Moves stack s.cell id m) (hk : (s.after id m).SpawnedWithin k) :
    s.SpawnedWithin k := by
  intro t' ht'
  obtain ⟨t'', ht'', hle⟩ := exists_after_thread hcounted ht hm ht'
  exact Nat.le_trans hle (hk t'' ht'')

/-! ### What holds in a session -/

/-- The invariant of sessions among cells from outside. The main thread keeps what it ends with. -/
structure Serving (s : System) : Prop extends s.Sound where
  main : ∀ t, s.thread .main = some t → t.delivery = none
  kept : ∀ k, s.SpawnedWithin k → s.Kept k

theorem Sound.setMain {t' : Thread} (hs : s.Sound) (ht : s.thread .main = some t)
    (hdelivery : t'.delivery = t.delivery) (hspawned : t'.spawned = t.spawned) :
    (s.setThread .main t').Sound := by
  have hold : ∀ {id t₁}, (s.setThread .main t').thread id = some t₁ →
      ∃ t₀, s.thread id = some t₀ ∧ t₀.delivery = t₁.delivery := by
    intro id t₁ ht₁
    rw [thread_setThread] at ht₁
    split at ht₁
    case isTrue hid =>
      cases ht₁
      exact ⟨t, hid ▸ ht, hdelivery.symm⟩
    case isFalse => exact ⟨t₁, ht₁, rfl⟩
  refine ⟨hs.toCounted.setThread ht (Nat.le_of_eq hspawned.symm), ?_, ?_⟩
  · intro id t₁ d u ht₁ hd hu
    obtain ⟨t₀, ht₀, hd₀⟩ := hold ht₁
    exact hs.own id t₀ d u ht₀ (hd₀.trans hd) hu
  · intro a b t₁ t₂ d₁ d₂ h₁ h₂ hd₁ hd₂ heq
    obtain ⟨ta, hta, hda⟩ := hold h₁
    obtain ⟨tb, htb, hdb⟩ := hold h₂
    exact hs.single a b ta tb d₁ d₂ hta htb (hda.trans hd₁) (hdb.trans hd₂) heq

theorem serving_launch (hout : out.WellFormed) :
    (launch out (.done (.ofValue (.vec [])))).Serving where
  toSound := sound_launch out _
  main t ht := by
    cases ht
    rfl
  kept k _ := by
    have houtside : ∀ {v : Value}, v.WellFormed ∧ v.Within CellId.Outside →
        v.WellFormed ∧ (Matching.deeper k).value v = v := by
      rintro v ⟨hv, hwithin⟩
      refine ⟨hv, Matching.value_eq (fun x hx => ?_) hwithin⟩
      cases x with
      | external => rfl
      | task id => exact hx.elim
    have hdone : ∀ {v : Value}, v.WellFormed ∧ (Matching.deeper k).value v = v →
        Prog.Matches (.deeper k) (Matching.deeper k).Results (.done (.ofValue v))
          (.done (.ofValue v)) := by
      rintro v ⟨hv, heq⟩
      refine .done ⟨⟨hv, fun f hf => absurd hf List.not_mem_nil⟩, ?_⟩
      rw [Matching.result, Result.ofValue, heq]
      rfl
    refine ⟨fun id t ht => ?_, fun x c v hc hv => ?_⟩
    · cases id with
      | main =>
        cases ht
        exact hdone ⟨(Value.wellFormed_vec []).2 fun v hv => absurd hv List.not_mem_nil, rfl⟩
      | helper n =>
        obtain ⟨⟨name, generation, o⟩, hwriter, rfl⟩ := Option.map_eq_some_iff.1 ht
        cases o with
        | ok v => exact hdone (houtside (hout.writer n name generation v hwriter))
        | error e => exact .fail (.same e)
      | child p n => cases ht
    · cases x with
      | external name generation => exact houtside (hout.cell name generation c v hc hv)
      | task id => cases hc

theorem Serving.evaluate (hs : s.Serving) (ht : s.thread .main = some t) (ctx : Context)
    {env : Env} {e : Expr} (henv : env.WellFormed) (he : e.WellFormed)
    (hknown : env.Within s.Known) (hknown' : e.Within s.Known) :
    (s.setThread .main { t with rest := stack.eval ctx env e }).Serving where
  toSound := hs.toSound.setMain ht rfl rfl
  main t' ht' := by
    cases ht'
    exact hs.main t ht
  kept k hk := by
    have hk' : s.SpawnedWithin k := by
      intro t' ht'
      cases ht.symm.trans ht'
      exact hk { t with rest := stack.eval ctx env e } rfl
    have hkept := hs.kept k hk'
    refine ⟨fun id t' ht' => ?_, hkept.cell⟩
    rw [thread_setThread] at ht'
    split at ht'
    · cases ht'
      exact Thread.Deeper.eval (hs.toCounted.works hk' ctx henv he hknown hknown') ⟨rfl, rfl⟩ stack
    · exact hkept.thread id t' ht'

theorem Serving.after (hs : s.Serving) (ht : s.thread id = some t)
    (hm : t.Moves stack s.cell id m) : (s.after id m).Serving where
  toSound := hs.toSound.after ht hm
  main t' ht' := by
    rcases after_thread_eq_some ht' with ⟨rfl, rfl⟩ | ⟨-, hstart⟩ | ⟨-, hthread⟩
    · rw [hm.delivery_eq]
      exact hs.main t ht
    · cases (hm.of_start hstart).1
    · exact hs.main t' hthread
  kept k hk := (hs.kept k (.of_after hs.toCounted ht hm hk)).after hs.toCounted ht hm hk

theorem Served.serving (hout : out.WellFormed) (hs : Served stack out s) : s.Serving := by
  induction hs with
  | launch => exact serving_launch hout
  | evaluate ctx env e hs ht hover henv he hknown hknown' ih =>
    exact ih.evaluate ht ctx henv he hknown hknown'
  | step hs hstep ih =>
    obtain ⟨t, m, ht, hm, rfl⟩ := step_eq_some_iff.1 hstep
    exact ih.after ht hm

end System

end ForkJoin

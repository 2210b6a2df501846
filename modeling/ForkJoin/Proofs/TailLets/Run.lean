import ForkJoin.Proofs.TailLets.Evaluation

/-!
# The two modes of binding agree on tail lets

An expression with tail lets only is evaluated in the main thread of any system, once with scoped
bindings and once with bindings that stay. The two evaluations are in lockstep, as long as the cells
that they claim hold values with tail lets only (`Lockstep.rescoping`), so every run in one mode is a
run in the other (`let_modes_agree`).
-/

namespace ForkJoin

/-- A work that is told that its bindings stay. -/
def Work.unscoped (work : Work) : Work :=
  { work with context.scopedLet := false }

/-- An act without the mode that a spawned task is told. -/
def Act.unscoped : Act → Act
  | .spawn task work => .spawn task work.unscoped
  | .claim x => .claim x

theorem Work.Rescoped.unscoped_eq {work work' : Work} (h : work.Rescoped work') :
    work'.unscoped = work.unscoped := by
  obtain ⟨hexpr, henv, hcontext, -, -⟩ := h
  simp only [unscoped, hexpr, henv, hcontext.debug, hcontext.task]

theorem Act.InStep.unscoped_eq {act act' : Act} (h : act.InStep Work.Rescoped act') :
    act'.unscoped = act.unscoped := by
  cases h with
  | spawn task hwork => rw [unscoped, unscoped, hwork.unscoped_eq]
  | claim x => rfl

def Lockstep.rescoping : Lockstep where
  good := Value.TailLets
  works := Work.Rescoped
  results r r' := r'.value = r.value ∧ r.value.TailLets
  value h := h
  debug h := h.context.debug
  eval {work work'} h stack id cells := by
    have hchild : (work.context.child id.label).Rescoped (work'.context.child id.label) :=
      ⟨h.context.debug, rfl⟩
    rw [h.expr, h.env]
    exact (rescopes_eval cells stack.depth stack.room _ _ _ _ true hchild h.tailLets_env
      h.tailLets).mono fun _ _ hr => ⟨hr.value, hr.tailLets⟩

namespace System

variable {s last : System} {t : Thread}

/-! ### Agreement of the modes -/

theorem map_unscoped_eq {k : Nat} {acts acts' : List (ThreadId × Act)}
    (h : List.Forall₂ (InStep.Acts .rescoping k) acts acts') :
    acts'.map (fun (u, act) => (u, act.unscoped)) =
      acts.map (fun (u, act) => (u, act.unscoped)) := by
  induction h with
  | nil => rfl
  | @cons a a' acts acts' h _ ih =>
    obtain ⟨u, act⟩ := a
    obtain ⟨u', act'⟩ := a'
    obtain ⟨rfl, ⟨-, rfl⟩ | hact⟩ := h
    · rw [List.map_cons, List.map_cons, ih]
    · have hsame : act'.unscoped = act.unscoped := Act.InStep.unscoped_eq hact
      simp only [List.map_cons, hsame, ih]

/-- On tail lets the two modes of binding agree. Let an expression with tail lets only be evaluated
in the main thread of a system, in an environment whose functions have tail lets only, and let so
have the functions in what is stored in the cells that the main thread and its new tasks claim,
other than their own. Then every run in one mode is a run in the other, in the same order: every
thread ends with the same value or the same failure, the same is stored in all cells, the same
threads wait, and the same tasks are spawned and the same cells are claimed by the same threads in
the same order. -/
theorem let_modes_agree (stack : Stack) (hs : s.Sound) (ht : s.thread .main = some t)
    (ctx : Context) (mode mode' : Bool) {env : Env} {e : Expr} (henv : env.TailLets)
    (he : e.TailLets true) {ids : List ThreadId}
    (hrun : (s.setThread .main { t with
      rest := stack.eval { ctx with scopedLet := mode } env e }).run stack ids = some last)
    (hclaims : ∀ u x v, (u, .claim x) ∈ (s.setThread .main { t with
      rest := stack.eval { ctx with scopedLet := mode } env e }).acts stack ids →
        u.Evaluates t.spawned → (∀ w, x = .task w → ¬ w.NewTask t.spawned) →
          last.stored? x = some v → v.TailLets) :
    ∃ last', (s.setThread .main { t with
        rest := stack.eval { ctx with scopedLet := mode' } env e }).run stack ids = some last' ∧
      (∀ u, last'.outcome? u = last.outcome? u) ∧ last'.cell = last.cell ∧
      (∀ u, last'.Blocked u ↔ last.Blocked u) ∧
      ((s.setThread .main { t with
          rest := stack.eval { ctx with scopedLet := mode' } env e }).acts stack ids).map
            (fun (u, act) => (u, act.unscoped)) =
        ((s.setThread .main { t with
          rest := stack.eval { ctx with scopedLet := mode } env e }).acts stack ids).map
            (fun (u, act) => (u, act.unscoped)) := by
  have hctx : Context.Rescoped { ctx with scopedLet := mode } { ctx with scopedLet := mode' } :=
    ⟨rfl, rfl⟩
  have heval : ∀ cells, (stack.eval { ctx with scopedLet := mode } env e).Rescoped cells
      Lockstep.rescoping.results (stack.eval { ctx with scopedLet := mode' } env e) := fun cells =>
    (rescopes_eval cells stack.depth stack.room _ _ env e true hctx henv he).mono
      fun _ _ hr => ⟨hr.value, hr.tailLets⟩
  obtain ⟨last', cells, hrun', hlast, hacts⟩ :=
    exists_run_inStep (L := .rescoping) stack hs ht heval hrun hclaims
  exact ⟨last', hrun', hlast.outcome?_eq, hlast.cell, hlast.blocked_iff, map_unscoped_eq hacts⟩

/-- A task with a `let` of its own, spawned and waited for in the body of a `let`. -/
theorem let_modes_agree_sync_spawn :
    ∃ last, ((launch .none (.done (.ofValue (.vec [])))).setThread .main
        { rest := Stack.eval ⟨3, none⟩ { scopedLet := true } ⟨[]⟩
            (.letIn "f" (.spawn (.letIn "y" (.lit (.int 1)) (.var "y"))) (.sync (.var "f"))) }).run
          ⟨3, none⟩ [.main, .child .main 1, .main, .main] = some last ∧
      last.outcome? .main = some (.ok (.int 1)) := by
  let stack : Stack := ⟨3, none⟩
  let e : Expr := .letIn "f" (.spawn (.letIn "y" (.lit (.int 1)) (.var "y"))) (.sync (.var "f"))
  let task : ThreadId := .child .main 1
  let s : System := launch .none (.done (.ofValue (.vec [])))
  let start : System := s.setThread .main
    { rest := stack.eval { scopedLet := false } ⟨[]⟩ e }
  obtain ⟨last, hrun, hmain, hstored⟩ : ∃ last,
      start.run stack [.main, task, .main, .main] = some last ∧
      last.outcome? .main = some (.ok (.int 1)) ∧ last.stored? (.task task) = some (.int 1) :=
    ⟨_, rfl, rfl, rfl⟩
  have hacts : ∃ work, start.acts stack [.main, task, .main, .main] =
      [(.main, .spawn task work), (.main, .claim (.task task))] := ⟨_, rfl⟩
  have hclaims : ∀ u x v, (u, .claim x) ∈ start.acts stack [.main, task, .main, .main] →
      u.Evaluates 0 → (∀ w, x = .task w → ¬ w.NewTask 0) → last.stored? x = some v →
      v.TailLets := by
    intro u x v hmem _ hown _
    obtain ⟨work, hacts⟩ := hacts
    rw [hacts] at hmem
    cases hmem with
    | tail _ hmem =>
      cases List.mem_singleton.1 hmem
      exact absurd ⟨1, Nat.one_pos, .inl rfl⟩ (hown task rfl)
  have henv : Env.TailLets ⟨[]⟩ := nofun
  have he : e.TailLets true := ⟨rfl, ⟨rfl, trivial, trivial⟩, trivial⟩
  obtain ⟨last', hrun', houtcome, -⟩ := let_modes_agree stack
    (sound_launch .none (.done (.ofValue (.vec [])))) rfl {} false true henv he hrun hclaims
  exact ⟨last', hrun', (houtcome .main).trans hmain⟩

end System

end ForkJoin

import ForkJoin.Proofs.Flat.Refinement
import ForkJoin.Proofs.Run
import ForkJoin.Schedule
import Mathlib.Data.List.Forall2

/-!
# Chains that flatten alike are alike

How a chain of frames is layered does not show. Programs are alike when they do the same and differ
at most in the layers of the environments that they hand on, to the tasks that they spawn and in
their results. Evaluations among environments that flatten to the same map are alike, since both are
the evaluation over that map. Everything that is done with threads keeps them alike: their steps, the
runs of a system, and the schedule of a pool, which looks at nothing in which they differ.
-/

namespace ForkJoin

/-- Programs that do the same, up to the layers of environments. -/
inductive Prog.Alike : Prog Work Result → Prog Work Result → Prop
  | done {r r' : Result} (h : r.flatten = r'.flatten) : Alike (.done r) (.done r')
  | fail (e : Failure) : Alike (.fail e) (.fail e)
  | emit (line : String) {p q : Prog Work Result} (h : Alike p q) :
      Alike (.emit line p) (.emit line q)
  | spawn {work work' : Work} {p q : ThreadId → Prog Work Result}
      (hwork : work.flatten = work'.flatten) (h : ∀ id, Alike (p id) (q id)) :
      Alike (.spawn work p) (.spawn work' q)
  | claim (x : CellId) {p q : Prog Work Result} (h : Alike p q) : Alike (.claim x p) (.claim x q)
  | await (x : CellId) {p q : Value → Prog Work Result} (h : ∀ v, Alike (p v) (q v)) :
      Alike (.await x p) (.await x q)

theorem Prog.Alike.refl (p : Prog Work Result) : p.Alike p := by
  induction p with
  | done r => exact .done rfl
  | fail e => exact .fail e
  | emit line rest ih => exact .emit line ih
  | spawn work rest ih => exact .spawn rfl ih
  | claim x rest ih => exact .claim x ih
  | await x rest ih => exact .await x ih

theorem Prog.Alike.of_map {p q : Prog Work Result}
    (h : p.map Work.flatten Result.flatten = q.map Work.flatten Result.flatten) : p.Alike q := by
  induction p generalizing q with
  | done r =>
    cases q with
    | done r' => exact .done (Prog.done.inj h)
    | _ => simp [map] at h
  | fail e =>
    cases q with
    | fail e' => exact Prog.fail.inj h ▸ .fail e
    | _ => simp [map] at h
  | emit line rest ih =>
    cases q with
    | emit line' rest' =>
      obtain ⟨rfl, hrest⟩ := Prog.emit.inj h
      exact .emit line (ih hrest)
    | _ => simp [map] at h
  | spawn work rest ih =>
    cases q with
    | spawn work' rest' =>
      obtain ⟨hwork, hrest⟩ := Prog.spawn.inj h
      exact .spawn hwork fun id => ih id (congrFun hrest id)
    | _ => simp [map] at h
  | claim x rest ih =>
    cases q with
    | claim x' rest' =>
      obtain ⟨rfl, hrest⟩ := Prog.claim.inj h
      exact .claim x (ih hrest)
    | _ => simp [map] at h
  | await x rest ih =>
    cases q with
    | await x' rest' =>
      obtain ⟨rfl, hrest⟩ := Prog.await.inj h
      exact .await x fun v => ih v (congrFun hrest v)
    | _ => simp [map] at h

theorem alike_eval (stack : Stack) (ctx : Context) {env env' : Env} (e : Expr)
    (h : env.flatten = env'.flatten) : (stack.eval ctx env e).Alike (stack.eval ctx env' e) := by
  have hflat : ∀ env : Env, (stack.eval ctx env e).map Work.flatten Result.flatten =
      (Flat.eval stack.depth stack.room ctx e).run env.flatten :=
    fun env => Flat.followedBy_eval stack.depth stack.room ctx env e
  exact .of_map ((hflat env).trans (h ▸ (hflat env').symm))

structure Thread.Alike (t t' : Thread) : Prop where
  rest : t.rest.Alike t'.rest
  spawned : t.spawned = t'.spawned
  delivery : t.delivery = t'.delivery
  delivered : t.delivered = t'.delivered
  printed : t.printed = t'.printed

namespace Thread.Alike

variable {t t' : Thread}

theorem refl (t : Thread) : t.Alike t :=
  ⟨.refl t.rest, rfl, rfl, rfl, rfl⟩

theorem task (stack : Stack) (id : ThreadId) {work work' : Work}
    (h : work.flatten = work'.flatten) :
    (Thread.task stack id work).Alike (.task stack id work') := by
  obtain ⟨e, env, ctx⟩ := work
  obtain ⟨e', env', ctx'⟩ := work'
  obtain ⟨rfl, hmap, rfl⟩ := Flat.Work.mk.inj h
  exact ⟨alike_eval stack _ e hmap, rfl, rfl, rfl, rfl⟩

theorem print (h : t.Alike t') (line : String) : (t.print line).Alike (t'.print line) :=
  ⟨h.rest, h.spawned, h.delivery, h.delivered, congrArg (line :: ·) h.printed⟩

theorem setRest {p q : Prog Work Result} (h : t.Alike t') (hrest : p.Alike q) :
    ({ t with rest := p } : Thread).Alike { t' with rest := q } :=
  ⟨hrest, h.spawned, h.delivery, h.delivered, h.printed⟩

theorem wanted?_eq (h : t.Alike t') : t.wanted? = t'.wanted? := by
  obtain ⟨rest, _, _, _, _⟩ := t
  obtain ⟨rest', _, _, _, _⟩ := t'
  cases h.rest <;> rfl

theorem outcome?_eq (h : t.Alike t') : t.outcome? = t'.outcome? := by
  obtain ⟨rest, _, _, _, _⟩ := t
  obtain ⟨rest', _, _, _, _⟩ := t'
  cases h.rest with
  | done hr => exact congrArg (fun r => some (Except.ok r)) (Prod.mk.inj hr).1
  | _ => rfl

theorem ended?_eq (h : t.Alike t') :
    t.rest.ended?.map (Except.map Result.flatten) =
      t'.rest.ended?.map (Except.map Result.flatten) := by
  obtain ⟨rest, _, _, _, _⟩ := t
  obtain ⟨rest', _, _, _, _⟩ := t'
  cases h.rest with
  | done hr => exact congrArg (fun r => some (Except.ok r)) hr
  | _ => rfl

theorem isOver_eq (h : t.Alike t') : t.isOver = t'.isOver := by
  rw [Bool.eq_iff_iff, isOver_iff, isOver_iff, h.outcome?_eq, due?, due?, h.delivery, h.delivered]

end Thread.Alike

structure Effect.Alike (e e' : Effect) : Prop where
  thread : e.thread.Alike e'.thread
  cells : e.cells = e'.cells
  starts : List.Forall₂ (fun a b => a.1 = b.1 ∧ a.2.Alike b.2) e.starts e'.starts

namespace Thread.Alike

variable {t t' : Thread} {stack : Stack} {cell : CellId → Option Cell} {id : ThreadId}

theorem deliver (h : t.Alike t') (d : Delivery) (o : Outcome) :
    (t.deliver cell d o).Alike (t'.deliver cell d o) := by
  have hannounced : (if d.announce then t.print (announcement d.label o) else t).Alike
      (if d.announce then t'.print (announcement d.label o) else t') := by
    split
    · exact h.print _
    · exact h
  have hdelivered : ∀ result, ({ (if d.announce then t.print (announcement d.label o) else t) with
        delivered := some result } : Thread).Alike
      { (if d.announce then t'.print (announcement d.label o) else t') with
        delivered := some result } :=
    fun _ => ⟨hannounced.rest, hannounced.spawned, hannounced.delivery, rfl, hannounced.printed⟩
  unfold Thread.deliver
  cases cell d.cell with
  | none => exact ⟨hdelivered _, rfl, .nil⟩
  | some c =>
    dsimp only
    cases c.write o with
    | ok c => exact ⟨hdelivered _, rfl, .nil⟩
    | error f => exact ⟨hdelivered _, rfl, .nil⟩

theorem finish (h : t.Alike t') (o : Outcome) :
    Option.Rel Effect.Alike (t.finish cell o) (t'.finish cell o) := by
  unfold Thread.finish
  rw [← h.delivery, ← h.delivered]
  split
  · exact .some (h.deliver _ o)
  · exact .none

theorem act (h : t.Alike t') :
    Option.Rel Effect.Alike (t.act stack cell id) (t'.act stack cell id) := by
  have hrest := h.rest
  unfold Thread.act
  generalize hp : t.rest = p at hrest ⊢
  generalize hq : t'.rest = q at hrest ⊢
  cases hrest with
  | @done r r' hr =>
    have hvalue : r.value = r'.value := (Prod.mk.inj hr).1
    dsimp only
    rw [hvalue]
    exact h.finish _
  | fail e => exact h.finish _
  | emit line hrest => exact .some ⟨(h.setRest hrest).print line, rfl, .nil⟩
  | spawn hwork hrest =>
    rw [← h.spawned]
    refine .some ⟨⟨hrest _, rfl, h.delivery, h.delivered, h.printed⟩, rfl, .cons ⟨rfl, ?_⟩ .nil⟩
    exact .task stack _ hwork
  | claim x hrest =>
    dsimp only
    cases cell x with
    | none => exact .none
    | some c =>
      dsimp only
      cases c.claim with
      | ok c => exact .some ⟨h.setRest hrest, rfl, .nil⟩
      | error e => exact .some ⟨h.setRest (.refl _), rfl, .nil⟩
  | await x hrest =>
    dsimp only
    cases (cell x).bind (·.outcome) with
    | none => exact .none
    | some o =>
      cases o with
      | ok v => exact .some ⟨h.setRest (hrest v), rfl, .nil⟩
      | error e => exact .some ⟨h.setRest (.fail e), rfl, .nil⟩

end Thread.Alike

/-! ### Systems -/

structure System.Alike (s s' : System) : Prop where
  thread : ∀ id, Option.Rel Thread.Alike (s.thread id) (s'.thread id)
  cell : s.cell = s'.cell

namespace System.Alike

variable {s s' : System} {id : ThreadId}

theorem refl (s : System) : s.Alike s := by
  refine ⟨fun id => ?_, rfl⟩
  cases s.thread id with
  | none => exact .none
  | some t => exact .some (.refl t)

theorem setThread {t t' : Thread} (h : s.Alike s') (ht : t.Alike t') :
    (s.setThread id t).Alike (s'.setThread id t') := by
  refine ⟨fun other => ?_, h.cell⟩
  rw [thread_setThread, thread_setThread]
  split
  · exact .some ht
  · exact h.thread other

theorem setCell (h : s.Alike s') (x : CellId) (c : Cell) :
    (s.setCell x c).Alike (s'.setCell x c) :=
  ⟨h.thread, by rw [System.setCell, System.setCell, h.cell]⟩

theorem bring {e e' : Effect} (h : s.Alike s') (he : e.Alike e') :
    (s.bring id e).Alike (s'.bring id e') := by
  unfold System.bring
  rw [← he.cells]
  refine setThread (List.rel_foldl (P := System.Alike) ?_ (List.foldl_rel h ?_) he.starts) he.thread
  · intro s s' h start start' hab
    dsimp only
    rw [← hab.1]
    exact h.setThread hab.2
  · exact fun entry _ s s' h => h.setCell entry.1 entry.2

theorem act (h : s.Alike s') (stack : Stack) (id : ThreadId) :
    Option.Rel Effect.Alike ((s.thread id).bind (·.act stack s.cell id))
      ((s'.thread id).bind (·.act stack s'.cell id)) := by
  rw [← h.cell]
  cases hs : s.thread id <;> cases hs' : s'.thread id <;> have hrel := h.thread id <;>
    rw [hs, hs'] at hrel <;> cases hrel
  · exact .none
  · rename_i ht
    exact ht.act

theorem isOver_eq (h : s.Alike s') (id : ThreadId) : s.isOver id = s'.isOver id := by
  have hrel := h.thread id
  unfold System.isOver
  generalize s.thread id = t at hrel ⊢
  generalize s'.thread id = t' at hrel ⊢
  cases hrel with
  | none => rfl
  | some ht => exact ht.isOver_eq

theorem ended?_eq (h : s.Alike s') (id : ThreadId) :
    ((s.thread id).bind (·.rest.ended?)).map (Except.map Result.flatten) =
      ((s'.thread id).bind (·.rest.ended?)).map (Except.map Result.flatten) := by
  have hrel := h.thread id
  generalize s.thread id = t at hrel ⊢
  generalize s'.thread id = t' at hrel ⊢
  cases hrel with
  | none => rfl
  | some ht => exact ht.ended?_eq

theorem outcome?_eq (h : s.Alike s') (id : ThreadId) :
    (s.thread id).bind Thread.outcome? = (s'.thread id).bind Thread.outcome? := by
  have hrel := h.thread id
  generalize s.thread id = t at hrel ⊢
  generalize s'.thread id = t' at hrel ⊢
  cases hrel with
  | none => rfl
  | some ht => exact ht.outcome?_eq

end System.Alike

/-! ### Pools -/

def Pool.prefer (p : Pool) (id : ThreadId) : Pool :=
  let (first, others) := p.ready.partition (·.thread = id)
  { p with ready := first ++ others }

/-- Serves threads out of turn: the threads of a list, one after another, if they have a turn. -/
def Pool.serve (stack : Stack) (p : Pool) (order : List ThreadId) : Pool :=
  order.foldl (fun p id =>
    if p.ready.any (·.thread = id) then ((p.prefer id).advance stack).getD p else p) p

/-- Pools that serve the same threads in the same order, in alike systems. -/
structure Pool.Alike (p p' : Pool) : Prop where
  system : p.system.Alike p'.system
  known : p.known = p'.known
  started : p.started = p'.started
  ready : p.ready = p'.ready
  waiting : p.waiting = p'.waiting

namespace Pool.Alike

variable {p p' : Pool} {id : ThreadId} {t t' : Thread}

theorem refl (p : Pool) : p.Alike p :=
  ⟨.refl p.system, rfl, rfl, rfl, rfl⟩

theorem with_store {store store' : Store} (h : p.Alike p') (hs : store.system.Alike store'.system) :
    ({ p with store } : Pool).Alike { p' with store := store' } :=
  ⟨hs, h.known, h.started, h.ready, h.waiting⟩

theorem setThread (h : p.Alike p') (id : ThreadId) (ht : t.Alike t') :
    ({ p with store := p.store.setThread id t } : Pool).Alike
      { p' with store := p'.store.setThread id t' } := by
  refine h.with_store ?_
  rw [Store.system_setThread, Store.system_setThread]
  exact h.system.setThread ht

theorem add (h : p.Alike p') (ht : t.Alike t') : (p.add id t).Alike (p'.add id t') := by
  have hset := h.setThread id ht
  refine ⟨hset.system, ?_, ?_, ?_, h.waiting⟩
  · exact congrArg (· ++ [id]) h.known
  · exact congrArg (· + 1) h.started
  · simp only [Pool.add, h.ready, h.started]

theorem wake (h : p.Alike p') (x : CellId) : (p.wake x).Alike (p'.wake x) := by
  refine ⟨h.system, h.known, h.started, ?_, ?_⟩
  · simp only [Pool.wake, h.waiting, h.ready]
  · simp only [Pool.wake, h.waiting]

theorem setCell (h : p.Alike p') (x : CellId) (c : Cell) :
    (p.setCell x c).Alike (p'.setCell x c) := by
  have hset : ({ p with store := p.store.setCell x c } : Pool).Alike
      { p' with store := p'.store.setCell x c } := by
    refine h.with_store ?_
    rw [Store.system_setCell, Store.system_setCell]
    exact h.system.setCell x c
  unfold Pool.setCell
  dsimp only
  split
  · exact hset.wake x
  · exact hset

theorem noteStep {e e' : Effect} (h : p.Alike p') (turn : Turn) (rest : List Turn)
    (he : e.Alike e') : (p.noteStep turn rest e).Alike (p'.noteStep turn rest e') := by
  have hbring : (p.store.bring turn.thread e).system.Alike
      (p'.store.bring turn.thread e').system := by
    rw [Store.bring_system, Store.bring_system]
    exact h.system.bring he
  unfold Pool.noteStep
  dsimp only
  rw [← he.cells, ← he.thread.isOver_eq]
  refine List.foldl_rel (List.rel_foldl (P := Pool.Alike) ?_ ?_ he.starts) ?_
  · intro p p' h start start' hab
    refine ⟨h.system, ?_, ?_, ?_, h.waiting⟩
    · simp only [h.known, hab.1]
    · exact congrArg (· + 1) h.started
    · simp only [h.ready, h.started, hab.1]
  · exact ⟨hbring, h.known, h.started, rfl, h.waiting⟩
  · intro entry _ p p' h
    split
    · exact h.wake entry.1
    · exact h

theorem setAside (h : p.Alike p') (turn : Turn) (rest : List Turn) :
    (p.setAside turn rest).Alike (p'.setAside turn rest) := by
  have hwanted : (p.store.thread turn.thread).bind Thread.wanted? =
      (p'.store.thread turn.thread).bind Thread.wanted? := by
    have hrel := h.system.thread turn.thread
    change Option.Rel _ (p.store.thread turn.thread) (p'.store.thread turn.thread) at hrel
    generalize p.store.thread turn.thread = t at hrel ⊢
    generalize p'.store.thread turn.thread = t' at hrel ⊢
    cases hrel with
    | none => rfl
    | some ht => exact ht.wanted?_eq
  unfold Pool.setAside
  rw [← hwanted]
  split
  · exact ⟨h.system, h.known, h.started, rfl, congrArg (_ :: ·) h.waiting⟩
  · exact ⟨h.system, h.known, h.started, rfl, h.waiting⟩

theorem advance (h : p.Alike p') (stack : Stack) :
    Option.Rel Pool.Alike (p.advance stack) (p'.advance stack) := by
  unfold Pool.advance
  rw [← h.ready]
  cases p.ready with
  | nil => exact .none
  | cons turn rest =>
    have hact := h.system.act stack turn.thread
    change Option.Rel _ ((p.store.thread turn.thread).bind (·.act stack p.store.cell turn.thread))
      ((p'.store.thread turn.thread).bind (·.act stack p'.store.cell turn.thread)) at hact
    dsimp only
    generalize (p.store.thread turn.thread).bind
      (·.act stack p.store.cell turn.thread) = e at hact ⊢
    generalize (p'.store.thread turn.thread).bind
      (·.act stack p'.store.cell turn.thread) = e' at hact ⊢
    cases hact with
    | none => exact .some (h.setAside turn rest)
    | some he => exact .some (h.noteStep turn rest he)

theorem prefer (h : p.Alike p') (id : ThreadId) : (p.prefer id).Alike (p'.prefer id) :=
  ⟨h.system, h.known, h.started, by simp only [Pool.prefer, h.ready], h.waiting⟩

theorem serve (h : p.Alike p') (stack : Stack) (order : List ThreadId) :
    (p.serve stack order).Alike (p'.serve stack order) := by
  induction order generalizing p p' with
  | nil => exact h
  | cons id order ih =>
    refine ih ?_
    dsimp only
    rw [← h.ready]
    split
    · have hadvance := (h.prefer id).advance stack
      generalize (p.prefer id).advance stack = next at hadvance ⊢
      generalize (p'.prefer id).advance stack = next' at hadvance ⊢
      cases hadvance with
      | none => exact h
      | some hnext => exact hnext
    · exact h

theorem settle (h : p.Alike p') (stack : Stack) (steps : Nat) :
    (p.settle stack steps).Alike (p'.settle stack steps) := by
  induction steps generalizing p p' with
  | zero => exact h
  | succ steps ih =>
    unfold Pool.settle
    have hadvance := h.advance stack
    generalize p.advance stack = next at hadvance ⊢
    generalize p'.advance stack = next' at hadvance ⊢
    cases hadvance with
    | none => exact h
    | some hnext => exact ih hnext

theorem runUntilOver (h : p.Alike p') (stack : Stack) (steps : Nat) (id : ThreadId) :
    (p.runUntilOver stack steps id).Alike (p'.runUntilOver stack steps id) := by
  induction steps generalizing p p' with
  | zero => exact h
  | succ steps ih =>
    unfold Pool.runUntilOver
    rw [← h.system.isOver_eq]
    split
    · exact h
    · have hadvance := h.advance stack
      generalize p.advance stack = next at hadvance ⊢
      generalize p'.advance stack = next' at hadvance ⊢
      cases hadvance with
      | none => exact h
      | some hnext => exact ih hnext

theorem main (h : p.Alike p') : p.main.Alike p'.main := by
  have hrel := h.system.thread .main
  change Option.Rel _ (p.store.thread .main) (p'.store.thread .main) at hrel
  unfold Pool.main
  generalize p.store.thread .main = t at hrel ⊢
  generalize p'.store.thread .main = t' at hrel ⊢
  cases hrel with
  | none => exact .refl _
  | some ht => exact ht

theorem startMain {rest rest' : Prog Work Result} (h : p.Alike p') (hrest : rest.Alike rest') :
    (p.startMain rest).Alike (p'.startMain rest') := by
  have hset := h.setThread .main (h.main.setRest hrest)
  refine ⟨hset.system, h.known, h.started, ?_, ?_⟩
  · simp only [Pool.startMain, Pool.setMain, h.ready]
  · simp only [Pool.startMain, Pool.setMain, h.waiting]

/-- Alike programs of the main thread leave alike pools, and end alike. -/
theorem runMain {rest rest' : Prog Work Result} (h : p.Alike p') (hrest : rest.Alike rest')
    (stack : Stack) (steps : Nat) :
    (p.runMain stack steps rest).1.Alike (p'.runMain stack steps rest').1 ∧
      (p.runMain stack steps rest).2.map (Except.map Result.flatten) =
        (p'.runMain stack steps rest').2.map (Except.map Result.flatten) := by
  have hrun := (h.startMain hrest).runUntilOver stack steps .main
  exact ⟨hrun, hrun.main.ended?_eq⟩

end Pool.Alike

end ForkJoin

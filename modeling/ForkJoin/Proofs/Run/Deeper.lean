import ForkJoin.Proofs.Matching
import ForkJoin.Proofs.Run.Confluence
import Mathlib.Data.List.Forall2

/-!
# A run one spawn deeper

What the main thread does from some point on can also be done by the task that it spawns next. Then
every task that the main thread would spawn is spawned by that task, and its name is longer by one
spawn; the tasks that were there before keep their names. Here two such systems are run in lockstep,
where `k` tasks were spawned before: whoever is `id` in the one is `id.nested k` in the other, and a
task that values call `id` is there called `id.deeper k`. Values and programs are the same under
these names, and so are failures, since only a claim that is refused tells the name of a task.

The one thing in which the two differ is that a main thread keeps its result and a task delivers it.
Until then every step of the one is a step of the other.
-/

namespace ForkJoin

variable {k : Nat}

namespace ThreadId

def spawnedBefore (k : Nat) (id : ThreadId) : Nat :=
  if id = .main then k else 0

/-- Who does one spawn deeper what a thread does. -/
def nested (k : Nat) : ThreadId → ThreadId
  | .main => .child .main (k + 1)
  | .helper n => .helper n
  | .child p n =>
    if n ≤ p.spawnedBefore k then .child p n else .child (p.nested k) (n - p.spawnedBefore k)

/-- What a task is called one spawn deeper. -/
def deeper (k : Nat) : ThreadId → ThreadId
  | .main => .main
  | id => id.nested k

theorem child_ne_main (p : ThreadId) (n : Nat) : child p n ≠ .main :=
  nofun

theorem deeper_of_ne {id : ThreadId} (h : id ≠ .main) : id.deeper k = id.nested k := by
  cases id with
  | main => exact absurd rfl h
  | helper | child => rfl

theorem nested_child (p : ThreadId) (n : Nat) :
    (child p (n + p.spawnedBefore k + 1)).nested k = .child (p.nested k) (n + 1) := by
  have hlt : ¬ n + p.spawnedBefore k + 1 ≤ p.spawnedBefore k := by omega
  have hsub : n + p.spawnedBefore k + 1 - p.spawnedBefore k = n + 1 := by omega
  rw [nested, if_neg hlt, hsub]

theorem nested_ne_main (id : ThreadId) : id.nested k ≠ .main := by
  cases id with
  | main | helper => simp [nested]
  | child p n => unfold nested; split <;> simp

/-- A task that was there before keeps its name; the others are new tasks of whoever does the same
one spawn deeper. -/
theorem nested_child_cases (k : Nat) (p : ThreadId) (n : Nat) :
    (n ≤ p.spawnedBefore k ∧ (child p n).nested k = child p n) ∨
      ∃ m, n = m + p.spawnedBefore k + 1 ∧
        (child p n).nested k = child (p.nested k) (m + 1) := by
  by_cases hn : n ≤ p.spawnedBefore k
  · exact .inl ⟨hn, by rw [nested, if_pos hn]⟩
  · obtain ⟨m, rfl⟩ : ∃ m, n = m + p.spawnedBefore k + 1 := ⟨n - p.spawnedBefore k - 1, by omega⟩
    exact .inr ⟨m, rfl, nested_child p m⟩

theorem child_ne_new {p q : ThreadId} {m n : Nat} (hm : m ≤ q.spawnedBefore k) :
    child q m ≠ child (p.nested k) (n + 1) := by
  intro h
  obtain ⟨rfl, rfl⟩ := child.inj h
  rw [spawnedBefore, if_neg (nested_ne_main p)] at hm
  omega

theorem nested_main_ne_child (p : ThreadId) (n : Nat) :
    ThreadId.main.nested k ≠ (child p n).nested k := by
  intro h
  rcases nested_child_cases k p n with ⟨hn, hold⟩ | ⟨m, -, hnew⟩
  · rw [hold] at h
    obtain ⟨rfl, rfl⟩ := child.inj h
    rw [spawnedBefore, if_pos rfl] at hn
    omega
  · rw [hnew] at h
    exact nested_ne_main p (child.inj h).1.symm

theorem nested_helper_ne_child (i : Nat) (p : ThreadId) (n : Nat) :
    (helper i).nested k ≠ (child p n).nested k := by
  rcases nested_child_cases k p n with ⟨-, h⟩ | ⟨m, -, h⟩
  · rw [h]
    exact nofun
  · rw [h]
    exact nofun

theorem nested_inj {a b : ThreadId} (h : a.nested k = b.nested k) : a = b := by
  induction a generalizing b with
  | main =>
    cases b with
    | main => rfl
    | helper n => cases h
    | child q n => exact absurd h (nested_main_ne_child q n)
  | helper m =>
    cases b with
    | main => cases h
    | helper n => exact h
    | child q n => exact absurd h (nested_helper_ne_child m q n)
  | child p m ih =>
    cases b with
    | main => exact absurd h.symm (nested_main_ne_child p m)
    | helper n => exact absurd h.symm (nested_helper_ne_child n p m)
    | child q n =>
      rcases nested_child_cases k p m with ⟨hm, hp⟩ | ⟨i, rfl, hp⟩ <;>
        rcases nested_child_cases k q n with ⟨hn, hq⟩ | ⟨j, rfl, hq⟩ <;> rw [hp, hq] at h
      · exact h
      · exact absurd h (child_ne_new hm)
      · exact absurd h.symm (child_ne_new hn)
      · obtain ⟨hparent, hindex⟩ := child.inj h
        cases ih hparent
        rw [Nat.succ.inj hindex]

theorem deeper_inj {a b : ThreadId} (h : a.deeper k = b.deeper k) : a = b := by
  by_cases ha : a = .main
  · by_cases hb : b = .main
    · rw [ha, hb]
    · rw [deeper_of_ne hb, ha] at h
      exact absurd h.symm (nested_ne_main b)
  · by_cases hb : b = .main
    · rw [deeper_of_ne ha, hb] at h
      exact absurd h (nested_ne_main a)
    · rw [deeper_of_ne ha, deeper_of_ne hb] at h
      exact nested_inj h

theorem deeper_ne_nested_main (id : ThreadId) : id.deeper k ≠ ThreadId.main.nested k := by
  by_cases hid : id = .main
  · rw [hid]
    exact (nested_ne_main .main).symm
  · rw [deeper_of_ne hid]
    exact fun h => hid (nested_inj h)

end ThreadId

def CellId.deeper (k : Nat) : CellId → CellId
  | .task id => .task (id.deeper k)
  | x => x

theorem CellId.deeper_inj {x y : CellId} (h : x.deeper k = y.deeper k) : x = y := by
  cases x with
  | task a =>
    cases y with
    | task b => rw [ThreadId.deeper_inj (task.inj h)]
    | external => cases h
  | external name generation =>
    cases y with
    | task b => cases h
    | external => exact h

inductive Failure.Deeper (k : Nat) : Failure → Failure → Prop
  | same (e : Failure) : Deeper k e e
  | consumed (id : ThreadId) : Deeper k (.language (.alreadyConsumed id.label))
      (.language (.alreadyConsumed (id.deeper k).label))

def Matching.deeper (k : Nat) : Matching where
  thread := ThreadId.deeper k
  cell := CellId.deeper k
  cell_task _ := rfl
  failure := Failure.Deeper k
  failure_raised e _ := .same e

inductive Outcome.Deeper (k : Nat) : Outcome → Outcome → Prop
  | ok {v : Value} (hv : v.WellFormed) : Deeper k (.ok v) (.ok ((Matching.deeper k).value v))
  | error {e e' : Failure} (h : e.Deeper k e') : Deeper k (.error e) (.error e')

structure Cell.Deeper (k : Nat) (c c' : Cell) : Prop where
  label : Failure.Deeper k (.language (.alreadyConsumed c.label))
    (.language (.alreadyConsumed c'.label))
  outcome : Option.Rel (Outcome.Deeper k) c.outcome c'.outcome
  claimed : c.claimed = c'.claimed

/-- A thread and the one that does the same one spawn deeper. A main thread keeps its result, and
who takes its place delivers it to a cell of its own. -/
structure Thread.Deeper (k : Nat) (id : ThreadId) (t t' : Thread) : Prop where
  rest : Prog.Matches (.deeper k) (Matching.deeper k).Results t.rest t'.rest
  spawned : t.spawned = t'.spawned + id.spawnedBefore k
  main : id = .main → t.delivery = none ∧
    t'.delivery.map (·.cell) = some (.task (ThreadId.main.nested k))
  delivery : id ≠ .main →
    Option.Rel (fun d d' => d'.cell = d.cell.deeper k) t.delivery t'.delivery
  delivered : id ≠ .main → t.delivered.isSome = t'.delivered.isSome

structure Effect.Deeper (k : Nat) (id : ThreadId) (e e' : Effect) : Prop where
  thread : e.thread.Deeper k id e'.thread
  cells : List.Forall₂ (fun a b => b.1 = a.1.deeper k ∧ a.2.Deeper k b.2) e.cells e'.cells
  starts : List.Forall₂ (fun a b => b.1 = a.1.nested k ∧ a.1 ≠ .main ∧ a.2.Deeper k a.1 b.2)
    e.starts e'.starts

/-! ### Steps of threads -/

namespace Thread.Deeper

variable {id : ThreadId} {t t' : Thread} {cell cell' : CellId → Option Cell} {stack : Stack}

theorem setRest {p q : Prog Work Result} (h : t.Deeper k id t')
    (hrest : Prog.Matches (.deeper k) (Matching.deeper k).Results p q) :
    Thread.Deeper k id { t with rest := p } { t' with rest := q } :=
  ⟨hrest, h.spawned, h.main, h.delivery, h.delivered⟩

theorem print (h : t.Deeper k id t') (line line' : String) :
    (t.print line).Deeper k id (t'.print line') :=
  ⟨h.rest, h.spawned, h.main, h.delivery, h.delivered⟩

theorem eval {work work' : Work} {ctx ctx' : Context} (h : (Matching.deeper k).Works work work')
    (hctx : ctx.Alike ctx') (stack : Stack) :
    Prog.Matches (.deeper k) (Matching.deeper k).Results (stack.eval ctx work.env work.expr)
      (stack.eval ctx' work'.env work'.expr) := by
  rw [h.env, h.expr]
  exact (Matching.deeper k).evaluators_eval stack.depth stack.room _ _ _ _ hctx h.wellFormed.env
    h.wellFormed.expr

theorem task {work work' : Work} (h : (Matching.deeper k).Works work work') (stack : Stack)
    {new : ThreadId} (hnew : new ≠ .main) (hold : new.spawnedBefore k = 0) :
    (Thread.task stack new work).Deeper k new (.task stack (new.nested k) work') := by
  refine ⟨?_, (congrArg (0 + ·) hold).symm, fun h => absurd h hnew, fun _ => .some ?_, fun _ => rfl⟩
  · have hctx : (work.context.child new.label).Alike (work'.context.child (new.nested k).label) :=
      ⟨h.context.debug, h.context.scopedLet⟩
    exact eval h hctx stack
  · rw [CellId.deeper, ThreadId.deeper_of_ne hnew]

theorem outcome? (h : t.Deeper k id t') :
    Option.Rel (Outcome.Deeper k) t.outcome? t'.outcome? := by
  have hrest := h.rest
  unfold Thread.outcome?
  generalize t.rest = p at hrest ⊢
  generalize t'.rest = q at hrest ⊢
  cases hrest with
  | done hr =>
    rw [hr.eq]
    exact .some (.ok hr.wellFormed.value)
  | fail he => exact .some (.error he)
  | stop he => exact he.elim
  | emit | spawn | claim | await => exact .none

theorem deliver {d d' : Delivery} {o o' : Outcome} (h : t.Deeper k id t')
    (hcell : ∀ x, Option.Rel (Cell.Deeper k) (cell x) (cell' (x.deeper k)))
    (hd : d'.cell = d.cell.deeper k) (ho : Outcome.Deeper k o o') :
    Effect.Deeper k id (t.deliver cell d o) (t'.deliver cell' d' o') := by
  have hannounced : (if d.announce then t.print (announcement d.label o) else t).Deeper k id
      (if d'.announce then t'.print (announcement d'.label o') else t') := by
    split <;> split
    · exact h.print _ _
    · exact ⟨h.rest, h.spawned, h.main, h.delivery, h.delivered⟩
    · exact ⟨h.rest, h.spawned, h.main, h.delivery, h.delivered⟩
    · exact h
  have hdelivered : ∀ result result',
      Thread.Deeper k id
        { (if d.announce then t.print (announcement d.label o) else t) with
          delivered := some result }
        { (if d'.announce then t'.print (announcement d'.label o') else t') with
          delivered := some result' } :=
    fun _ _ => ⟨hannounced.rest, hannounced.spawned, hannounced.main, hannounced.delivery,
      fun _ => rfl⟩
  have hrel := hcell d.cell
  unfold Thread.deliver
  rw [hd]
  generalize cell d.cell = c at hrel ⊢
  generalize cell' (d.cell.deeper k) = c' at hrel ⊢
  cases hrel with
  | none => exact ⟨hdelivered _ _, .nil, .nil⟩
  | @some c c' hc =>
    have houtcome := hc.outcome
    dsimp only [Cell.write]
    generalize hstored : c.outcome = stored at houtcome ⊢
    generalize hstored' : c'.outcome = stored' at houtcome ⊢
    cases houtcome with
    | none => exact ⟨hdelivered _ _, .cons ⟨rfl, hc.label, .some ho, hc.claimed⟩ .nil, .nil⟩
    | some => exact ⟨hdelivered _ _, .nil, .nil⟩

/-- A thread makes the steps that it makes one spawn deeper, but the main thread keeps its result. -/
theorem act (h : t.Deeper k id t')
    (hcell : ∀ x, Option.Rel (Cell.Deeper k) (cell x) (cell' (x.deeper k)))
    (hmain : id = .main → t.outcome? = none) :
    Option.Rel (Effect.Deeper k id) (t.act stack cell id)
      (t'.act stack cell' (id.nested k)) := by
  have hrest := h.rest
  have houtcome := h.outcome?
  have hfinish : ∀ o o', Outcome.Deeper k o o' → id ≠ .main →
      Option.Rel (Effect.Deeper k id) (t.finish cell o) (t'.finish cell' o') := by
    intro o o' ho hid
    have hdelivery := h.delivery hid
    have hdelivered := h.delivered hid
    unfold Thread.finish
    generalize t.delivery = d at hdelivery ⊢
    generalize t'.delivery = d' at hdelivery ⊢
    generalize t.delivered = sent at hdelivered ⊢
    generalize t'.delivered = sent' at hdelivered ⊢
    cases hdelivery with
    | none => exact .none
    | some hd =>
      cases sent <;> cases sent' <;> cases hdelivered
      · exact .some (h.deliver hcell hd ho)
      · exact .none
  have hended : t.outcome?.isSome → id ≠ .main := by
    intro hsome hid
    rw [hmain hid] at hsome
    cases hsome
  unfold Thread.act
  unfold Thread.outcome? at hended houtcome
  generalize t.rest = p at hrest hended houtcome ⊢
  generalize t'.rest = q at hrest houtcome ⊢
  cases hrest with
  | @done r r' hr =>
    cases houtcome with
    | some ho => exact hfinish _ _ ho (hended rfl)
  | fail he => exact hfinish _ _ (.error he) (hended rfl)
  | stop he => exact he.elim
  | emit hrest => exact .some ⟨(h.setRest hrest).print _ _, .nil, .nil⟩
  | @spawn work work' p q hwork hrest =>
    have hnew := ThreadId.nested_child (k := k) id t'.spawned
    rw [← h.spawned] at hnew
    have hspawned : t.spawned + 1 = t'.spawned + 1 + id.spawnedBefore k := by
      rw [h.spawned]
      omega
    have hrest : Prog.Matches (.deeper k) (Matching.deeper k).Results
        (p (.child id (t.spawned + 1))) (q ((ThreadId.child id (t.spawned + 1)).nested k)) :=
      hrest (.child id (t.spawned + 1))
    have hlabel := Failure.Deeper.consumed (k := k) (.child id (t.spawned + 1))
    have htask := task hwork stack (ThreadId.child_ne_main id (t.spawned + 1)) rfl
    rw [ThreadId.deeper_of_ne (ThreadId.child_ne_main id _), hnew] at hlabel
    rw [hnew] at hrest htask
    exact .some ⟨⟨hrest, hspawned, h.main, h.delivery, h.delivered⟩,
      .cons ⟨congrArg CellId.task hnew.symm, hlabel, .none, rfl⟩ .nil,
      .cons ⟨hnew.symm, ThreadId.child_ne_main id _, htask⟩ .nil⟩
  | @claim x p q hrest =>
    have hrel := hcell x
    change Option.Rel _ (cell x) (cell' ((Matching.deeper k).cell x)) at hrel
    dsimp only
    generalize cell x = c at hrel ⊢
    generalize cell' ((Matching.deeper k).cell x) = c' at hrel ⊢
    cases hrel with
    | none => exact .none
    | @some c c' hc =>
      dsimp only [Cell.claim]
      rw [← hc.claimed]
      cases c.claimed with
      | false => exact .some ⟨h.setRest hrest, .cons ⟨rfl, hc.label, hc.outcome, rfl⟩ .nil, .nil⟩
      | true => exact .some ⟨h.setRest (.fail hc.label), .nil, .nil⟩
  | @await x p q hrest =>
    have hrel := hcell x
    change Option.Rel _ (cell x) (cell' ((Matching.deeper k).cell x)) at hrel
    dsimp only
    generalize cell x = c at hrel ⊢
    generalize cell' ((Matching.deeper k).cell x) = c' at hrel ⊢
    cases hrel with
    | none => exact .none
    | @some c c' hc =>
      have hstored := hc.outcome
      dsimp only [Option.bind]
      generalize c.outcome = stored at hstored ⊢
      generalize c'.outcome = stored' at hstored ⊢
      cases hstored with
      | none => exact .none
      | some ho =>
        cases ho with
        | ok hv => exact .some ⟨h.setRest (hrest _ hv), .nil, .nil⟩
        | error he => exact .some ⟨h.setRest (.fail he), .nil, .nil⟩

end Thread.Deeper

/-! ### Steps of systems -/

namespace System

variable {s s' : System} {id other : ThreadId} {e : Effect}

theorem bring_thread_of_ne (hid : other ≠ id) (h : ∀ start ∈ e.starts, start.1 ≠ other) :
    (s.bring id e).thread other = s.thread other := by
  rcases thread_bring s id e other with ⟨heq, -⟩ | ⟨-, ⟨t, hmem, -⟩ | hsame⟩
  · exact absurd heq hid
  · exact absurd rfl (h _ hmem)
  · exact hsame

theorem bring_cell_of_ne {x : CellId} (h : ∀ entry ∈ e.cells, entry.1 ≠ x) :
    (s.bring id e).cell x = s.cell x := by
  rcases cell_bring s id e x with ⟨c, hmem, -⟩ | hsame
  · exact absurd rfl (h _ hmem)
  · exact hsame

structure Deeper (k : Nat) (s s' : System) : Prop where
  thread : ∀ id, Option.Rel (Thread.Deeper k id) (s.thread id) (s'.thread (id.nested k))
  cell : ∀ x, Option.Rel (Cell.Deeper k) (s.cell x) (s'.cell (x.deeper k))
  nested : ∀ id, id ≠ .main → (s'.thread id).isSome → ∃ other : ThreadId, id = other.nested k

namespace Deeper

theorem setThread {t t' : Thread} (h : s.Deeper k s') (id : ThreadId) (ht : t.Deeper k id t') :
    (s.setThread id t).Deeper k (s'.setThread (id.nested k) t') := by
  refine ⟨fun other => ?_, h.cell, fun other hmain hother => ?_⟩
  · by_cases hid : other = id
    · subst hid
      simpa using Option.Rel.some ht
    · have hne : other.nested k ≠ id.nested k := fun heq => hid (ThreadId.nested_inj heq)
      simpa [hid, hne] using h.thread other
  · by_cases hid : other = id.nested k
    · exact ⟨id, hid⟩
    · exact h.nested other hmain (by simpa [hid] using hother)

theorem setCell {c c' : Cell} (h : s.Deeper k s') (x : CellId) (hc : c.Deeper k c') :
    (s.setCell x c).Deeper k (s'.setCell (x.deeper k) c') := by
  refine ⟨h.thread, fun y => ?_, h.nested⟩
  by_cases hy : y = x
  · subst hy
    simpa using Option.Rel.some hc
  · have hne : y.deeper k ≠ x.deeper k := fun heq => hy (CellId.deeper_inj heq)
    simpa [hy, hne] using h.cell y

theorem bring {e e' : Effect} (h : s.Deeper k s') (he : e.Deeper k id e') :
    (s.bring id e).Deeper k (s'.bring (id.nested k) e') := by
  refine setThread (List.rel_foldl (P := Deeper k) ?_
    (List.rel_foldl (P := Deeper k) ?_ h he.cells) he.starts) id he.thread
  · intro s s' h start start' hab
    dsimp only
    rw [hab.1]
    exact h.setThread start.1 hab.2.2
  · intro s s' h entry entry' hab
    dsimp only
    rw [hab.1]
    exact h.setCell entry.1 hab.2

/-- What a thread does, and what is done one spawn deeper; the main thread must not have ended. -/
theorem act (h : s.Deeper k s') (stack : Stack) (id : ThreadId)
    (hmain : id = .main → s.outcome? .main = none) :
    Option.Rel (Effect.Deeper k id) ((s.thread id).bind (·.act stack s.cell id))
      ((s'.thread (id.nested k)).bind (·.act stack s'.cell (id.nested k))) := by
  have hrel := h.thread id
  have hended : ∀ t, s.thread id = some t → id = .main → t.outcome? = none := by
    intro t ht hid
    have hnone := hmain hid
    rw [← hid, outcome?, ht] at hnone
    exact hnone
  generalize s.thread id = t at hrel hended ⊢
  generalize s'.thread (id.nested k) = t' at hrel ⊢
  cases hrel with
  | none => exact .none
  | some ht => exact ht.act h.cell (hended _ rfl)

end Deeper

end System

end ForkJoin

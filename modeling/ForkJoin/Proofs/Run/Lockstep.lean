import ForkJoin.Proofs.Run.Acts
import ForkJoin.Proofs.Run.Aloof
import ForkJoin.Proofs.Serial.Replay

/-!
# Evaluations in lockstep

Two evaluations of an expression in the main thread of a system, which differ in something that
nobody sees. The other threads of the system are the same in both; the threads of the evaluation, the
main thread and the tasks that it spawns from now on, are in step: they print, claim and wait alike
and end alike, and they spawn works that stand for one another (`Prog.InStep`). What works stand for
one another, what may be said of the results and what is known of the values that are handed around
is the matter of a `Lockstep`, which comes with the proof that works that stand for one another make
tasks in step.

Step by step both systems do the same (`InStep.step`), as long as the cells that the evaluation
claims hold values of the kind that is known, and so does every run of theirs (`InStep.run`).
-/

namespace ForkJoin

/-- Programs that do the same, as long as they claim given cells only and are handed good values. The
works that they spawn are related, and so is what they end with. -/
inductive Prog.InStep (good : Value → Prop) (works : Work → Work → Prop) (cells : CellId → Prop)
    {α β : Type} (R : α → β → Prop) : Prog Work α → Prog Work β → Prop
  | done {a : α} {b : β} (h : R a b) : InStep good works cells R (.done a) (.done b)
  | fail (e : Failure) : InStep good works cells R (.fail e) (.fail e)
  | emit {line : String} {p : Prog Work α} {q : Prog Work β} (h : InStep good works cells R p q) :
      InStep good works cells R (.emit line p) (.emit line q)
  | spawn {work work' : Work} {p : ThreadId → Prog Work α} {q : ThreadId → Prog Work β}
      (hwork : works work work') (h : ∀ id, InStep good works cells R (p id) (q id)) :
      InStep good works cells R (.spawn work p) (.spawn work' q)
  | claim {x : CellId} {p : Prog Work α} {q : Prog Work β}
      (h : cells x → InStep good works cells R p q) :
      InStep good works cells R (.claim x p) (.claim x q)
  | await {x : CellId} {p : Value → Prog Work α} {q : Value → Prog Work β} (hx : cells x)
      (h : ∀ v, good v → InStep good works cells R (p v) (q v)) :
      InStep good works cells R (.await x p) (.await x q)

namespace Prog.InStep

variable {good : Value → Prop} {works : Work → Work → Prop} {cells : CellId → Prop}
  {α β γ δ : Type} {R : α → β → Prop} {S : γ → δ → Prop}

theorem bind {p : Prog Work α} {q : Prog Work β} {k : α → Prog Work γ} {k' : β → Prog Work δ}
    (h : p.InStep good works cells R q)
    (hk : ∀ a b, R a b → (k a).InStep good works cells S (k' b)) :
    (p >>= k).InStep good works cells S (q >>= k') := by
  induction h with
  | done h => exact hk _ _ h
  | fail e => exact .fail e
  | emit h ih => exact .emit ih
  | spawn hwork h ih => exact .spawn hwork ih
  | claim h ih => exact .claim ih
  | await hx h ih => exact .await hx ih

theorem mono {R' : α → β → Prop} {p : Prog Work α} {q : Prog Work β}
    (h : p.InStep good works cells R q) (hle : ∀ a b, R a b → R' a b) :
    p.InStep good works cells R' q := by
  have hbind : (p >>= .done).InStep good works cells R' (q >>= .done) :=
    h.bind fun a b hab => .done (hle a b hab)
  rwa [bind_eq, bind_eq, bind_done, bind_done] at hbind

theorem trace {ctx ctx' : Context} {message : String} {p : Unit → Prog Work α}
    {q : Unit → Prog Work β} (hdebug : ctx'.debug = ctx.debug) (htask : ctx'.task = ctx.task)
    (h : (p ()).InStep good works cells R (q ())) :
    (ctx.trace message >>= p).InStep good works cells R (ctx'.trace message >>= q) := by
  unfold Context.trace Context.line
  rw [hdebug, htask]
  cases ctx.debug with
  | false => exact h
  | true => exact .emit h

theorem ofPart_bind {x : Except Fault γ} {k : γ → Prog Work α} {k' : γ → Prog Work β}
    (hk : ∀ a, x = .ok a → (k a).InStep good works cells R (k' a)) :
    (ofPart x >>= k).InStep good works cells R (ofPart x >>= k') := by
  cases x with
  | error e => exact .fail _
  | ok a => exact hk a rfl

theorem ofExcept_bind {x : Except Failure γ} {k : γ → Prog Work α} {k' : γ → Prog Work β}
    (hk : ∀ a, x = .ok a → (k a).InStep good works cells R (k' a)) :
    (ofExcept x >>= k).InStep good works cells R (ofExcept x >>= k') := by
  cases x with
  | error e => exact .fail e
  | ok a => exact hk a rfl

theorem syncValue (v : Value) :
    (syncValue v).InStep good works cells (fun w w' => w' = w ∧ good w) (syncValue v) := by
  have htake : ∀ x, (Prog.claim x (.await x .done)).InStep good works cells
      (fun w w' => w' = w ∧ good w) (.claim x (.await x .done)) :=
    fun x => .claim fun hx => .await hx fun w hw => .done ⟨rfl, hw⟩
  unfold ForkJoin.syncValue
  split
  · exact htake _
  · split
    · exact ofPart_bind fun x _ => htake x
    · exact .fail _

end Prog.InStep

/-- What evaluations in lockstep have in common: which values they hand around, which of their works
stand for one another, and how their results are related. -/
structure Lockstep where
  good : Value → Prop
  works : Work → Work → Prop
  results : Result → Result → Prop
  /-- Both end with the same value, and it is a good one. -/
  value : ∀ {r r'}, results r r' → r'.value = r.value ∧ good r.value
  debug : ∀ {work work'}, works work work' → work'.context.debug = work.context.debug
  /-- Works that stand for one another are done in step. -/
  eval : ∀ {work work'}, works work work' → ∀ (stack : Stack) (id : ThreadId) cells,
    (stack.eval (work.context.child id.label) work.env work.expr).InStep good works cells results
      (stack.eval (work'.context.child id.label) work'.env work'.expr)

inductive Act.InStep (works : Work → Work → Prop) : Act → Act → Prop
  | spawn (task : ThreadId) {work work' : Work} (h : works work work') :
      InStep works (.spawn task work) (.spawn task work')
  | claim (x : CellId) : InStep works (.claim x) (.claim x)

/-! ### Threads in step -/

structure Thread.InStep (L : Lockstep) (cells : CellId → Prop) (t t' : Thread) : Prop where
  rest : t.rest.InStep L.good L.works cells L.results t'.rest
  same : t' = { t with rest := t'.rest }

structure Move.InStep (L : Lockstep) (cells : CellId → Prop) (m m' : Move) : Prop where
  thread : m.thread.InStep L cells m'.thread
  change : m'.change = m.change
  started : ∀ id, Option.Rel (Thread.InStep L cells) (m.started? id) (m'.started? id)

namespace Thread.InStep

variable {L : Lockstep} {cells : CellId → Prop} {stack : Stack} {cell : CellId → Option Cell}
  {id : ThreadId} {t t' : Thread} {m : Move}

theorem task {work work' : Work} (h : L.works work work') (stack : Stack) (id : ThreadId) :
    (Thread.task stack id work).InStep L cells (.task stack id work') where
  rest := L.eval h stack id cells
  same := by simp only [Thread.task, L.debug h]

theorem outcome?_eq (h : t.InStep L cells t') : t'.outcome? = t.outcome? := by
  obtain ⟨hrest, -⟩ := h
  unfold outcome?
  generalize t.rest = p, t'.rest = q at hrest
  cases hrest with
  | done hr => simp only [(L.value hr).1]
  | fail | emit | spawn | claim | await => rfl

theorem good (h : t.InStep L cells t') {v : Value} (hv : t.outcome? = some (.ok v)) : L.good v := by
  obtain ⟨hrest, -⟩ := h
  unfold outcome? at hv
  generalize t.rest = p, t'.rest = q at hrest hv
  cases hrest with
  | done hr =>
    cases hv
    exact (L.value hr).2
  | fail | emit | spawn | claim | await => cases hv

theorem ended (h : t.InStep L cells t') {r : Result} (hr : t.rest.ended? = some (.ok r)) :
    ∃ r', t'.rest.ended? = some (.ok r') ∧ L.results r r' := by
  obtain ⟨hrest, -⟩ := h
  generalize t.rest = p, t'.rest = q at hrest hr
  cases hrest with
  | done h =>
    cases hr
    exact ⟨_, rfl, h⟩
  | fail | emit | spawn | claim | await => cases hr

theorem due?_eq (h : t.InStep L cells t') : t'.due? = t.due? := by
  rw [h.same]
  rfl

theorem waits_iff (h : t.InStep L cells t') : t'.Waits cell ↔ t.Waits cell := by
  obtain ⟨hrest, -⟩ := h
  unfold Waits
  generalize t.rest = p, t'.rest = q at hrest
  cases hrest <;> rfl

theorem act? (h : t.InStep L cells t') (id : ThreadId) :
    Option.Rel (Act.InStep L.works) (t.act? id) (t'.act? id) := by
  obtain ⟨hrest, hsame⟩ := h
  have hspawned : t'.spawned = t.spawned := by rw [hsame]
  unfold Thread.act?
  rw [hspawned]
  generalize t.rest = p, t'.rest = q at hrest
  cases hrest with
  | spawn hwork => exact .some (.spawn _ hwork)
  | claim => exact .some (.claim _)
  | done | fail | emit | await => exact .none

theorem announced {d : Delivery} {o : Outcome} (h : t.InStep L cells t')
    (result : Option (Except Fault Unit)) :
    Thread.InStep L cells { t.announced d o with delivered := result }
      { t'.announced d o with delivered := result } where
  rest := by simpa only [announced_rest] using h.rest
  same := by
    rw [h.same]
    unfold Thread.announced
    split <;> rfl

theorem moves (h : t.InStep L cells t') (hm : t.Moves stack cell id m)
    (hstored : ∀ x c v, cells x → cell x = some c → c.outcome = some (.ok v) → L.good v)
    (hclaim : ∀ x, t.act? id = some (.claim x) → cells x) :
    ∃ m', t'.Moves stack cell id m' ∧ m.InStep L cells m' := by
  have hended := h.outcome?_eq
  have hdue := h.due?_eq
  have hannounced : ∀ d o result, Thread.InStep L cells
      { t.announced d o with delivered := result } { t'.announced d o with delivered := result } :=
    fun d o result => h.announced result
  obtain ⟨hrel, hsame⟩ := h
  have hnone : ∀ id : ThreadId, Option.Rel (Thread.InStep L cells) none none := fun _ => .none
  cases hm with
  | print hrest =>
    generalize hrest' : t'.rest = q at hrel hsame
    rw [hrest] at hrel
    cases hrel with
    | emit hrel =>
      exact ⟨_, .print hrest', ⟨hrel, by rw [hsame]; rfl⟩, rfl, hnone⟩
  | spawn hrest =>
    generalize hrest' : t'.rest = q at hrel hsame
    rw [hrest] at hrel
    cases hrel with
    | spawn hwork hrel =>
      have hspawned : t'.spawned = t.spawned := by rw [hsame]
      have hm' : t'.Moves stack cell id _ := .spawn hrest'
      rw [hspawned] at hm'
      refine ⟨_, hm', ⟨hrel _, by rw [hsame]⟩, rfl, fun other => ?_⟩
      by_cases hother : other = .child id (t.spawned + 1)
      · simpa [Move.started?, hother] using task hwork stack _
      · simp [Move.started?, hother]
  | @take wanted rest c hrest hcell hfree =>
    generalize hrest' : t'.rest = q at hrel hsame
    have hx : cells wanted := hclaim wanted (by rw [Thread.act?, hrest])
    rw [hrest] at hrel
    cases hrel with
    | claim hrel =>
      exact ⟨_, .take hrest' hcell hfree, ⟨hrel hx, by rw [hsame]⟩, rfl, hnone⟩
  | refuse hrest hcell htaken =>
    generalize hrest' : t'.rest = q at hrel hsame
    rw [hrest] at hrel
    cases hrel with
    | claim =>
      exact ⟨_, .refuse hrest' hcell htaken, ⟨.fail _, by rw [hsame]⟩, rfl, hnone⟩
  | @receive wanted rest c o hrest hcell hwritten =>
    generalize hrest' : t'.rest = q at hrel hsame
    rw [hrest] at hrel
    cases hrel with
    | await hx hrel =>
      refine ⟨_, .receive hrest' hcell hwritten, ⟨?_, by rw [hsame]⟩, rfl, hnone⟩
      cases o with
      | ok v => exact hrel v (hstored wanted c v hx hcell hwritten)
      | error e => exact .fail e
  | deliver ho hd hcell hempty =>
    exact ⟨_, .deliver (hended.trans ho) (hdue.trans hd) hcell hempty, hannounced _ _ _, rfl, hnone⟩
  | late ho hd hcell hwritten =>
    exact ⟨_, .late (hended.trans ho) (hdue.trans hd) hcell hwritten, hannounced _ _ _, rfl, hnone⟩
  | lost ho hd hcell =>
    exact ⟨_, .lost (hended.trans ho) (hdue.trans hd) hcell, hannounced _ _ _, rfl, hnone⟩

end Thread.InStep

/-! ### Systems in step -/

namespace System

/-- Systems that are the same, up to an evaluation in the main thread that is in step. -/
structure InStep (L : Lockstep) (cells : CellId → Prop) (k : Nat) (s s' : System) : Prop where
  cell : s'.cell = s.cell
  outside : ∀ id, ¬ id.Evaluates k → s'.thread id = s.thread id
  inside : ∀ id, id.Evaluates k → Option.Rel (Thread.InStep L cells) (s.thread id) (s'.thread id)
  counted : ∀ t, s.thread .main = some t → k ≤ t.spawned
  stored : ∀ u c v, u.NewTask k → s.cell (.task u) = some c → c.outcome = some (.ok v) → L.good v

variable {L : Lockstep} {cells : CellId → Prop} {k : Nat} {stack : Stack}
  {s s' next last : System} {id : ThreadId} {t : Thread} {m m' : Move}

theorem counted_after (hk : ∀ t, s.thread .main = some t → k ≤ t.spawned)
    (ht : s.thread id = some t) (hm : t.Moves stack s.cell id m) :
    ∀ t', (s.after id m).thread .main = some t' → k ≤ t'.spawned := by
  intro t' ht'
  rcases after_thread_eq_some ht' with ⟨rfl, rfl⟩ | ⟨-, hstart⟩ | ⟨-, hthread⟩
  · exact Nat.le_trans (hk t ht) hm.spawned_le
  · cases (hm.of_start hstart).1
  · exact hk t' hthread

/-- What is stored in the cells of the tasks of an evaluation comes from these tasks. -/
theorem InStep.stored_after (h : s.InStep L cells k s') (hs : s.Sound)
    (ht : s.thread id = some t) (hm : t.Moves stack s.cell id m)
    (hgood : id.Evaluates k → ∀ v, t.outcome? = some (.ok v) → L.good v) :
    ∀ u c v, u.NewTask k → (s.after id m).cell (.task u) = some c → c.outcome = some (.ok v) →
      L.good v := by
  intro u c v hu hc hv
  rcases outcome_after_cases hm hc hv with ⟨c₀, hc₀, hv₀⟩ | ⟨hended, d, hdue, hd⟩
  · exact h.stored u c₀ v hu hc₀ hv₀
  · have hown := hs.own id t d u ht (Thread.delivery_of_due? hdue) hd
    exact hgood (hown ▸ .inr hu) v hended

namespace InStep

theorem after_outside (h : s.InStep L cells k s') (hs : s.Sound) (hid : ¬ id.Evaluates k)
    (ht : s.thread id = some t) (hm : t.Moves stack s.cell id m) :
    (s.after id m).InStep L cells k (s'.after id m) where
  cell := by rw [System.after, System.after, h.cell]
  outside other hother := by simp only [System.after, h.outside other hother]
  inside other hother := by
    have hne : other ≠ id := fun heq => hid (heq ▸ hother)
    have hnew : m.started? other = none :=
      hm.started?_eq_none fun heq => hid (heq ▸ hother).of_child
    simpa only [System.after, hne, if_false, hnew, Option.none_or] using h.inside other hother
  counted := counted_after h.counted ht hm
  stored := h.stored_after hs ht hm fun hinside => absurd hinside hid

theorem after_inside (h : s.InStep L cells k s') (hs : s.Sound) (hid : id.Evaluates k)
    (ht : s.thread id = some t) {t' : Thread} (hthread : t.InStep L cells t')
    (hm : t.Moves stack s.cell id m) (hmoves : m.InStep L cells m') :
    (s.after id m).InStep L cells k (s'.after id m') where
  cell := by rw [System.after, System.after, h.cell, hmoves.change]
  outside other hother := by
    have hne : other ≠ id := fun heq => hother (heq ▸ hid)
    have hnew : m.started? other = none := by
      refine hm.started?_eq_none fun heq => hother ?_
      rw [heq]
      refine hid.child fun hmain => Nat.lt_succ_of_le (h.counted t ?_)
      rwa [← hmain]
    have hnew' : m'.started? other = none := by
      have hstarted := hmoves.started other
      rw [hnew] at hstarted
      generalize m'.started? other = started at hstarted
      cases hstarted
      rfl
    simp only [System.after, hne, if_false, hnew, hnew', Option.none_or, h.outside other hother]
  inside other hother := by
    by_cases hother' : other = id
    · simpa only [System.after, hother', if_true] using .some hmoves.thread
    · have hstarted := hmoves.started other
      simp only [System.after, hother', if_false]
      generalize m.started? other = started, m'.started? other = started' at hstarted
      cases hstarted with
      | some hstarted => exact .some hstarted
      | none => exact h.inside other hother
  counted := counted_after h.counted ht hm
  stored := h.stored_after hs ht hm fun _ _ hv => hthread.good hv

theorem thread_cases (h : s.InStep L cells k s') (id : ThreadId) :
    (¬ id.Evaluates k ∧ s'.thread id = s.thread id) ∨ (s.thread id = none ∧ s'.thread id = none) ∨
      ∃ t t', s.thread id = some t ∧ s'.thread id = some t' ∧ t.InStep L cells t' := by
  by_cases hid : id.Evaluates k
  · have hthread := h.inside id hid
    generalize s.thread id = t, s'.thread id = t' at hthread
    cases hthread with
    | some hthread => exact .inr (.inr ⟨_, _, rfl, rfl, hthread⟩)
    | none => exact .inr (.inl ⟨rfl, rfl⟩)
  · exact .inl ⟨hid, h.outside id hid⟩

theorem outcome?_eq (h : s.InStep L cells k s') (id : ThreadId) :
    s'.outcome? id = s.outcome? id := by
  rcases h.thread_cases id with ⟨-, hsame⟩ | ⟨hnone, hnone'⟩ | ⟨t, t', ht, ht', hthread⟩
  · rw [System.outcome?, System.outcome?, hsame]
  · rw [System.outcome?, System.outcome?, hnone, hnone']
  · rw [System.outcome?, System.outcome?, ht, ht']
    exact hthread.outcome?_eq

theorem blocked_iff (h : s.InStep L cells k s') (id : ThreadId) : s'.Blocked id ↔ s.Blocked id := by
  rcases h.thread_cases id with ⟨-, hsame⟩ | ⟨hnone, hnone'⟩ | ⟨t, t', ht, ht', hthread⟩
  · rw [Blocked, Blocked, hsame, h.cell]
  · simp [Blocked, hnone, hnone']
  · simp only [Blocked, ht, ht', h.cell, Option.some.injEq, exists_eq_left', hthread.waits_iff]

theorem ended (h : s.InStep L cells k s') {r : Result} (hr : s.ended? .main = some (.ok r)) :
    ∃ r', s'.ended? .main = some (.ok r') ∧ L.results r r' := by
  rcases h.thread_cases .main with ⟨hmain, -⟩ | ⟨hnone, -⟩ | ⟨t, t', ht, ht', hthread⟩
  · exact absurd (.inl rfl) hmain
  · rw [ended?, hnone] at hr
    cases hr
  · rw [ended?, ht, Option.bind_some] at hr
    rw [ended?, ht', Option.bind_some]
    exact hthread.ended hr

/-- What a thread spawns or claims in a step of the one system, it does in the other: the same if it
is not of the evaluation, and else up to works that stand for one another. -/
theorem act? (h : s.InStep L cells k s') (id : ThreadId) :
    Option.Rel (fun act act' => (¬ id.Evaluates k ∧ act' = act) ∨ Act.InStep L.works act act')
      (s.act? id) (s'.act? id) := by
  rcases h.thread_cases id with ⟨hid, hsame⟩ | ⟨hnone, hnone'⟩ | ⟨t, t', ht, ht', hthread⟩
  · rw [System.act?, System.act?, hsame]
    cases (s.thread id).bind (·.act? id) with
    | none => exact .none
    | some act => exact .some (.inl ⟨hid, rfl⟩)
  · rw [System.act?, System.act?, hnone, hnone']
    exact .none
  · rw [System.act?, System.act?, ht, ht', Option.bind_some, Option.bind_some]
    have hact := hthread.act? id
    generalize t.act? id = act, t'.act? id = act' at hact
    cases hact with
    | none => exact .none
    | some hact => exact .some (.inr hact)

/-- What a thread does in a step it does in the other system, as long as the evaluation claims given
cells only. -/
theorem step (h : s.InStep L cells k s') (hs : s.Sound)
    (hstored : ∀ x c v, cells x → s.cell x = some c → c.outcome = some (.ok v) → L.good v)
    (hclaim : id.Evaluates k → ∀ x, s.act? id = some (.claim x) → cells x)
    (hstep : s.step stack id = some next) :
    ∃ next', s'.step stack id = some next' ∧ next.InStep L cells k next' := by
  obtain ⟨t, m, ht, hm, rfl⟩ := step_eq_some_iff.1 hstep
  have hcell : s'.cell = s.cell := h.cell
  by_cases hid : id.Evaluates k
  · have hthread := h.inside id hid
    rw [ht] at hthread
    obtain ⟨t', ht', hthread⟩ : ∃ t', s'.thread id = some t' ∧ t.InStep L cells t' := by
      generalize s'.thread id = t' at hthread
      cases hthread with
      | some hthread => exact ⟨_, rfl, hthread⟩
    have hclaim' : ∀ x, t.act? id = some (.claim x) → cells x := fun x hx =>
      hclaim hid x (by rw [System.act?, ht]; exact hx)
    obtain ⟨m', hm', hmoves⟩ := hthread.moves hm hstored hclaim'
    rw [← hcell] at hm'
    exact ⟨_, step_of_moves ht' hm', h.after_inside hs hid ht hthread hm hmoves⟩
  · have ht' : s'.thread id = some t := (h.outside id hid).trans ht
    have hafter := h.after_outside hs hid ht hm
    rw [← hcell] at hm
    exact ⟨_, step_of_moves ht' hm, hafter⟩

def Acts (L : Lockstep) (k : Nat) (a a' : ThreadId × Act) : Prop :=
  a'.1 = a.1 ∧ ((¬ a.1.Evaluates k ∧ a'.2 = a.2) ∨ Act.InStep L.works a.2 a'.2)

/-- What a run does it does in the other system, in the same order. -/
theorem run {ids : List ThreadId} (h : s.InStep L cells k s') (hs : s.Sound)
    (hrun : s.run stack ids = some last)
    (hclaims : ∀ u x, (u, .claim x) ∈ s.acts stack ids → u.Evaluates k → cells x)
    (hcells : ∀ x v, cells x → (∀ u, x = .task u → ¬ u.NewTask k) →
      last.stored? x = some v → L.good v) :
    ∃ last', s'.run stack ids = some last' ∧ last.InStep L cells k last' ∧
      List.Forall₂ (Acts L k) (s.acts stack ids) (s'.acts stack ids) := by
  induction ids generalizing s s' with
  | nil =>
    cases hrun
    exact ⟨s', rfl, h, .nil⟩
  | cons first ids ih =>
    obtain ⟨next, hstep, hrest⟩ := run_cons_eq_some_iff.1 hrun
    have hstored : ∀ x c v, cells x → s.cell x = some c → c.outcome = some (.ok v) →
        L.good v := by
      intro x c v hx hc hv
      by_cases hown : ∀ u, x = .task u → ¬ u.NewTask k
      · obtain ⟨c', hc', hlater⟩ := hs.later_of_run hc hrun
        exact hcells x v hx hown (stored?_eq_some_iff.2 ⟨c', hc', hlater.outcome _ hv⟩)
      · simp only [not_forall, not_not] at hown
        obtain ⟨u, rfl, hu⟩ := hown
        exact h.stored u c v hu hc hv
    obtain ⟨next', hstep', hnext⟩ := h.step hs hstored
      (fun hfirst x hx => hclaims first x (mem_acts_head hstep hx ids) hfirst) hstep
    obtain ⟨last', hrest', hlast, hacts⟩ := ih hnext (hs.step hstep) hrest
      fun u x hmem => hclaims u x (mem_acts_tail hstep hmem)
    refine ⟨last', run_cons_eq_some_iff.2 ⟨next', hstep', hrest'⟩, hlast, ?_⟩
    rw [acts_cons hstep, acts_cons hstep']
    have hact := h.act? first
    generalize s.act? first = act, s'.act? first = act' at hact
    cases hact with
    | none => exact hacts
    | some hact => exact .cons ⟨rfl, hact⟩ hacts

end InStep

theorem inStep_setThread (hs : s.Counted) (ht : s.thread .main = some t)
    {p q : Prog Work Result} (h : p.InStep L.good L.works cells L.results q) :
    (s.setThread .main { t with rest := p }).InStep L cells t.spawned
      (s.setThread .main { t with rest := q }) where
  cell := rfl
  outside id hid := by
    have hne : id ≠ .main := fun hmain => hid (.inl hmain)
    simp only [thread_setThread, hne, if_false]
  inside id hid := by
    by_cases hmain : id = .main
    · simp only [thread_setThread, hmain, if_true]
      exact .some ⟨h, rfl⟩
    · have hnone : s.thread id = none := by
        rw [← Option.not_isSome_iff_eq_none]
        exact fun hsome => hs.not_newTask ht hsome (hid.resolve_left hmain)
      simp only [thread_setThread, hmain, if_false, hnone]
      exact .none
  counted t' ht' := by
    cases ht'
    exact Nat.le_refl _
  stored u c v hu hc _ := (hs.not_newTask_of_cell ht (Option.isSome_of_eq_some hc) hu).elim

/-- The runs of two evaluations in step do the same in the same order, as long as the values that
the evaluation finds in the cells that it claims, other than those of its own tasks, are good. -/
theorem exists_run_inStep (stack : Stack) (hs : s.Sound) (ht : s.thread .main = some t)
    {p q : Prog Work Result} (h : ∀ cells, p.InStep L.good L.works cells L.results q)
    {ids : List ThreadId}
    (hrun : (s.setThread .main { t with rest := p }).run stack ids = some last)
    (hclaims : ∀ u x v, (u, .claim x) ∈ (s.setThread .main { t with rest := p }).acts stack ids →
      u.Evaluates t.spawned → (∀ w, x = .task w → ¬ w.NewTask t.spawned) →
        last.stored? x = some v → L.good v) :
    ∃ last' cells, (s.setThread .main { t with rest := q }).run stack ids = some last' ∧
      last.InStep L cells t.spawned last' ∧
      List.Forall₂ (InStep.Acts L t.spawned)
        ((s.setThread .main { t with rest := p }).acts stack ids)
        ((s.setThread .main { t with rest := q }).acts stack ids) := by
  -- The cells that may be claimed are those whose final contents, if not made by the run, are good.
  let cells : CellId → Prop := fun x => (∀ u, x = .task u → ¬ u.NewTask t.spawned) →
    ∀ v, last.stored? x = some v → L.good v
  have hstart := inStep_setThread hs.toCounted ht (h cells)
  obtain ⟨last', hrun', hlast, hacts⟩ := hstart.run (hs.setMain ht rfl rfl) hrun
    (fun u x hmem hu hown v hv => hclaims u x v hmem hu hown hv) fun x v hx hown hv => hx hown v hv
  exact ⟨last', cells, hrun', hlast, hacts⟩

end System

end ForkJoin

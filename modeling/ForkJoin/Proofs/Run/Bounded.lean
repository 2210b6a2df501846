import ForkJoin.Proofs.Exhaustion
import ForkJoin.Proofs.Run.Confluence

/-!
# Stacks that are large enough

A bound on the stack of a thread shows only in a run in which some thread exceeds it. With a higher
bound the threads do the same as long as nobody stops, so a run in which nobody exceeds the lower
bound is a run with the higher one, step by step and to the same end (`bound_unobservable`).

A thread can end with an exhausted stack without exceeding its own: it was told so by a cell that it
waited for. Such a thread ends in the same way whatever its bound is. So it is noted who is told
(`System.Told`), and to exceed a bound is to stop without being told.
-/

namespace ForkJoin

def Thread.Hears (cell : CellId → Option Cell) (t : Thread) : Prop :=
  ∃ x rest c, t.rest = .await x rest ∧ cell x = some c ∧
    c.outcome = some (.error (.fault .stackExhausted))

namespace System

/-- Whether a thread has stopped with an exhausted stack. -/
def Stopped (s : System) (u : ThreadId) : Prop :=
  ∃ t, s.thread u = some t ∧ t.rest = .abort .stackExhausted

/-- Whether a thread is told of an exhausted stack in a run. -/
def Told (stack : Stack) (u : ThreadId) : System → List ThreadId → Prop
  | _, [] => False
  | s, id :: ids => (id = u ∧ ∃ t, s.thread u = some t ∧ t.Hears s.cell) ∨
    ∃ next, s.step stack id = some next ∧ Told stack u next ids

/-- Whether a thread that evaluates, the main thread or a task, exceeds the bound on its stack in a
run: it stops, and nobody told it to. -/
def Exceeds (stack : Stack) (s : System) (ids : List ThreadId) (u : ThreadId) : Prop :=
  (∀ n, u ≠ .helper n) ∧ (∃ last, s.run stack ids = some last ∧ last.Stopped u) ∧
    ¬Told stack u s ids

variable {stack : Stack} {s next last : System} {id u : ThreadId} {ids : List ThreadId}

theorem Counted.thread_of_ended (hs : s.Counted) (hstep : s.step stack id = some next) {t : Thread}
    (ht : s.thread u = some t) (hended : t.outcome?.isSome) :
    ∃ t', next.thread u = some t' ∧ t'.rest = t.rest := by
  obtain ⟨tm, m, htm, hm, rfl⟩ := step_eq_some_iff.1 hstep
  by_cases hu : u = id
  · subst hu
    cases ht.symm.trans htm
    refine ⟨m.thread, after_thread_self, ?_⟩
    cases hm with
    | print hrest | spawn hrest | take hrest | refuse hrest | receive hrest =>
      simp [Thread.outcome?, hrest] at hended
    | deliver | late | lost => exact Thread.announced_rest _ _ _
  · exact ⟨t, after_thread_of_ne hs htm hm hu ht, rfl⟩

theorem Counted.stopped_of_step (hs : s.Counted) (hstep : s.step stack id = some next)
    (h : s.Stopped u) : next.Stopped u := by
  obtain ⟨t, ht, hrest⟩ := h
  obtain ⟨t', ht', hrest'⟩ := hs.thread_of_ended hstep ht (by rw [Thread.outcome?, hrest]; rfl)
  exact ⟨t', ht', hrest'.trans hrest⟩

theorem Counted.stopped_of_run (hs : s.Counted) (hrun : s.run stack ids = some last)
    (h : s.Stopped u) : last.Stopped u := by
  induction ids generalizing s with
  | nil =>
    cases hrun
    exact h
  | cons id ids ih =>
    obtain ⟨next, hstep, hrest⟩ := run_cons_eq_some_iff.1 hrun
    exact ih (hs.step hstep) hrest (hs.stopped_of_step hstep h)

theorem Counted.not_told_of_stopped (hs : s.Counted) (h : s.Stopped u) :
    ¬Told stack u s ids := by
  induction ids generalizing s with
  | nil => exact id
  | cons v ids ih =>
    rintro (⟨-, t, ht, x, rest, c, hawait, -, -⟩ | ⟨next, hstep, htold⟩)
    · obtain ⟨t', ht', hrest⟩ := h
      cases ht.symm.trans ht'
      rw [hrest] at hawait
      cases hawait
    · exact ih (hs.step hstep) (hs.stopped_of_step hstep h) htold

theorem told_cons (hstep : s.step stack id = some next) :
    Told stack u s (id :: ids) ↔
      (id = u ∧ ∃ t, s.thread u = some t ∧ t.Hears s.cell) ∨ Told stack u next ids := by
  simp [Told, hstep]

theorem stopped_of_hears {t : Thread} (ht : s.thread id = some t) (hhears : t.Hears s.cell)
    (hstep : s.step stack id = some next) : next.Stopped id := by
  obtain ⟨x, rest, c, hawait, hc, hstop⟩ := hhears
  obtain ⟨t', m, ht', hm, rfl⟩ := step_eq_some_iff.1 hstep
  cases ht.symm.trans ht'
  refine ⟨m.thread, after_thread_self, ?_⟩
  cases hm with
  | print hrest | spawn hrest | take hrest | refuse hrest => simp [hawait] at hrest
  | receive hrest hcell hwritten =>
    cases hawait.symm.trans hrest
    cases hc.symm.trans hcell
    cases hstop.symm.trans hwritten
    rfl
  | deliver hended | late hended | lost hended => simp [Thread.outcome?, hawait] at hended

end System

/-! ### Threads with a higher bound -/

/-- A thread and the same thread with a higher bound: where the one stops the other goes on, but for
threads that have stopped both. -/
structure Thread.Curtails (t t' : Thread) : Prop where
  rest : t.rest.Curtails t'.rest
  same : t' = { t with rest := t'.rest }
  stopped : t.rest = .abort .stackExhausted → t'.rest = .abort .stackExhausted

structure Move.Curtails (m m' : Move) : Prop where
  thread : m.thread.Curtails m'.thread
  change : m'.change = m.change
  started : ∀ id, Option.Rel Thread.Curtails (m.started? id) (m'.started? id)

namespace Thread.Curtails

theorem refl (t : Thread) : t.Curtails t :=
  ⟨.refl _, rfl, fun h => h⟩

variable {small big : Stack} {cell : CellId → Option Cell} {id : ThreadId} {t t' : Thread}
  {m : Move}

theorem outcome?_eq (h : t.Curtails t') : t'.outcome? = t.outcome? := by
  obtain ⟨hrest, -, hstopped⟩ := h
  unfold outcome?
  generalize t.rest = p, t'.rest = q at hrest hstopped
  cases hrest with
  | stop => rw [hstopped rfl]
  | done | fail | emit | spawn | claim | await => rfl

theorem ended?_eq (h : t.Curtails t') : t'.rest.ended? = t.rest.ended? := by
  obtain ⟨hrest, -, hstopped⟩ := h
  generalize t.rest = p, t'.rest = q at hrest hstopped
  cases hrest with
  | stop => rw [hstopped rfl]
  | done | fail | emit | spawn | claim | await => rfl

theorem due?_eq (h : t.Curtails t') : t'.due? = t.due? := by
  rw [h.same]
  rfl

theorem stopped_iff (h : t.Curtails t') :
    t'.rest = .abort .stackExhausted ↔ t.rest = .abort .stackExhausted := by
  refine ⟨fun hstopped => ?_, h.stopped⟩
  have hrest := h.rest
  rw [hstopped] at hrest
  generalize t.rest = p at hrest
  cases hrest with
  | stop => rfl
  | fail => rfl

theorem hears_iff (h : t.Curtails t') : t'.Hears cell ↔ t.Hears cell := by
  obtain ⟨hrest, -, hstopped⟩ := h
  unfold Hears
  generalize t.rest = p, t'.rest = q at hrest hstopped
  cases hrest with
  | stop => rw [hstopped rfl]
  | await => simp
  | done | fail | emit | spawn | claim => simp

theorem waits_iff (h : t.Curtails t') : t'.Waits cell ↔ t.Waits cell := by
  obtain ⟨hrest, -, hstopped⟩ := h
  unfold Waits
  generalize t.rest = p, t'.rest = q at hrest hstopped
  cases hrest with
  | stop => rw [hstopped rfl]
  | done | fail | emit | spawn | claim | await => rfl

theorem announced (h : t.Curtails t') (d : Delivery) (o : Outcome)
    (result : Option (Except Fault Unit)) :
    Curtails { t.announced d o with delivered := result }
      { t'.announced d o with delivered := result } where
  rest := by simpa only [announced_rest] using h.rest
  same := by
    rw [h.same]
    unfold Thread.announced
    split <;> rfl
  stopped := by simpa only [announced_rest] using h.stopped

theorem task (hdepth : small.depth ≤ big.depth) (hroom : big.room = none) (work : Work)
    (hrest : (Thread.task small id work).rest ≠ .abort .stackExhausted) :
    (Thread.task small id work).Curtails (.task big id work) where
  rest := by
    simp only [Thread.task, Stack.eval, hroom]
    exact curtails_eval hdepth small.room _ _ _
  same := rfl
  stopped h := absurd h hrest

/-- A thread makes the same move with a higher bound, unless the move or the task that it starts
exceeds the lower one. -/
theorem moves (h : t.Curtails t') (hdepth : small.depth ≤ big.depth) (hroom : big.room = none)
    (hm : t.Moves small cell id m)
    (hfits : m.thread.rest = .abort .stackExhausted →
      t.Hears cell ∨ t.rest = .abort .stackExhausted)
    (hstarts : ∀ u t₁, m.start = some (u, t₁) → t₁.rest ≠ .abort .stackExhausted) :
    ∃ m', t'.Moves big cell id m' ∧ m.Curtails m' := by
  have hended := h.outcome?_eq
  have hdue := h.due?_eq
  have hannounced := h.announced
  obtain ⟨hrel, hsame, hstopped⟩ := h
  have hnone : ∀ id : ThreadId, Option.Rel Thread.Curtails none none := fun _ => .none
  -- A thread that neither hears of a stop nor has stopped does not stop in this move.
  have hgoes : ¬t.Hears cell → t.rest ≠ .abort .stackExhausted →
      m.thread.rest ≠ .abort .stackExhausted :=
    fun hhears habort hstop => (hfits hstop).elim hhears habort
  generalize hrest' : t'.rest = q at hrel hsame hstopped
  cases hm with
  | print hrest =>
    have hrests := hgoes (by simp [Hears, hrest]) (by simp [hrest, Prog.abort])
    rw [hrest] at hrel
    cases hrel with
    | emit line hrel =>
      exact ⟨_, .print hrest', ⟨hrel, by rw [hsame]; rfl, fun h => absurd h hrests⟩, rfl, hnone⟩
  | @spawn work rest hrest =>
    have hrests := hgoes (by simp [Hears, hrest]) (by simp [hrest, Prog.abort])
    rw [hrest] at hrel
    cases hrel with
    | spawn work hrel =>
      have hspawned : t'.spawned = t.spawned := by rw [hsame]
      have hm' : t'.Moves big cell id _ := .spawn hrest'
      rw [hspawned] at hm'
      refine ⟨_, hm', ⟨hrel _, by rw [hsame], fun h => absurd h hrests⟩, rfl, fun other => ?_⟩
      by_cases hother : other = .child id (t.spawned + 1)
      · simpa [Move.started?, hother] using task hdepth hroom work (hstarts _ _ rfl)
      · simp [Move.started?, hother]
  | take hrest hcell hfree =>
    have hrests := hgoes (by simp [Hears, hrest]) (by simp [hrest, Prog.abort])
    rw [hrest] at hrel
    cases hrel with
    | claim _ hrel =>
      exact ⟨_, .take hrest' hcell hfree, ⟨hrel, by rw [hsame], fun h => absurd h hrests⟩, rfl,
        hnone⟩
  | refuse hrest hcell htaken =>
    rw [hrest] at hrel
    cases hrel with
    | claim =>
      exact ⟨_, .refuse hrest' hcell htaken, ⟨.fail _, by rw [hsame], fun h => h⟩, rfl, hnone⟩
  | @receive wanted rest c o hrest hcell hwritten =>
    rw [hrest] at hrel
    cases hrel with
    | await _ hrel =>
      refine ⟨_, .receive hrest' hcell hwritten, ?_, rfl, hnone⟩
      cases o with
      | error e => exact ⟨.fail e, by rw [hsame], fun h => h⟩
      | ok v =>
        refine ⟨hrel v, by rw [hsame], fun h => ?_⟩
        rcases hfits h with ⟨x, rest', c', hawait, hc', hstop⟩ | habort
        · cases hrest.symm.trans hawait
          cases hcell.symm.trans hc'
          cases hwritten.symm.trans hstop
        · rw [hrest] at habort
          cases habort
  | deliver ho hd hcell hempty =>
    exact ⟨_, .deliver (hended.trans ho) (hdue.trans hd) hcell hempty, hannounced _ _ _, rfl, hnone⟩
  | late ho hd hcell hwritten =>
    exact ⟨_, .late (hended.trans ho) (hdue.trans hd) hcell hwritten, hannounced _ _ _, rfl, hnone⟩
  | lost ho hd hcell =>
    exact ⟨_, .lost (hended.trans ho) (hdue.trans hd) hcell, hannounced _ _ _, rfl, hnone⟩

end Thread.Curtails

/-! ### Systems with a higher bound -/

namespace System

structure Curtails (s s' : System) : Prop where
  cell : s'.cell = s.cell
  thread : ∀ id, Option.Rel Thread.Curtails (s.thread id) (s'.thread id)

variable {small big : Stack} {s s' next last : System} {id u : ThreadId} {ids : List ThreadId}

namespace Curtails

theorem thread_cases (h : s.Curtails s') (id : ThreadId) :
    (s.thread id = none ∧ s'.thread id = none) ∨
      ∃ t t', s.thread id = some t ∧ s'.thread id = some t' ∧ t.Curtails t' := by
  have hthread := h.thread id
  generalize s.thread id = t, s'.thread id = t' at hthread
  cases hthread with
  | some hthread => exact .inr ⟨_, _, rfl, rfl, hthread⟩
  | none => exact .inl ⟨rfl, rfl⟩

theorem stopped_iff (h : s.Curtails s') (u : ThreadId) : s'.Stopped u ↔ s.Stopped u := by
  rcases h.thread_cases u with ⟨hnone, hnone'⟩ | ⟨t, t', ht, ht', hthread⟩
  · simp [Stopped, hnone, hnone']
  · simp [Stopped, ht, ht', hthread.stopped_iff]

theorem hears_iff (h : s.Curtails s') (u : ThreadId) :
    (∃ t, s'.thread u = some t ∧ t.Hears s'.cell) ↔ ∃ t, s.thread u = some t ∧ t.Hears s.cell := by
  rcases h.thread_cases u with ⟨hnone, hnone'⟩ | ⟨t, t', ht, ht', hthread⟩
  · simp [hnone, hnone']
  · simp [ht, ht', h.cell, hthread.hears_iff]

theorem step (h : s.Curtails s') (hs : s.Counted) (hdepth : small.depth ≤ big.depth)
    (hroom : big.room = none) (hstep : s.step small id = some next)
    (hfits : ∀ u, next.Stopped u →
      s.Stopped u ∨ (id = u ∧ ∃ t, s.thread u = some t ∧ t.Hears s.cell)) :
    ∃ next', s'.step big id = some next' ∧ next.Curtails next' := by
  obtain ⟨t, m, ht, hm, rfl⟩ := step_eq_some_iff.1 hstep
  obtain ⟨t₁, t', ht₁, ht', hthread⟩ := (h.thread_cases id).resolve_left
    (fun hnone => by rw [ht] at hnone; cases hnone.1)
  cases ht.symm.trans ht₁
  have hmoves : m.thread.rest = .abort .stackExhausted →
      t.Hears s.cell ∨ t.rest = .abort .stackExhausted := by
    intro hstop
    rcases hfits id ⟨_, after_thread_self, hstop⟩ with ⟨t₂, ht₂, hrest⟩ | ⟨-, t₂, ht₂, hhears⟩
    · cases ht.symm.trans ht₂
      exact .inr hrest
    · cases ht.symm.trans ht₂
      exact .inl hhears
  have hstarts : ∀ u t₁, m.start = some (u, t₁) → t₁.rest ≠ .abort .stackExhausted := by
    intro u t₁ hstart hstop
    obtain ⟨rfl, -⟩ := hm.of_start hstart
    have hne := ThreadId.child_ne id (t.spawned + 1)
    have hnew : (s.after id m).thread (.child id (t.spawned + 1)) = some t₁ := by
      simp [after, hne, Move.started?_eq_some_iff.2 hstart]
    rcases hfits _ ⟨t₁, hnew, hstop⟩ with ⟨t₂, ht₂, -⟩ | ⟨heq, -⟩
    · rw [hs.thread_new ht] at ht₂
      cases ht₂
    · exact hne heq.symm
  obtain ⟨m', hm', hcurtails⟩ := hthread.moves hdepth hroom hm hmoves hstarts
  rw [← h.cell] at hm'
  refine ⟨s'.after id m', step_of_moves ht' hm', ?_, fun other => ?_⟩
  · rw [System.after, System.after, h.cell, hcurtails.change]
  · by_cases hother : other = id
    · simpa only [System.after, hother, if_true] using .some hcurtails.thread
    · have hstarted := hcurtails.started other
      simp only [System.after, hother, if_false]
      generalize m.started? other = started, m'.started? other = started' at hstarted
      cases hstarted with
      | some hstarted => exact .some hstarted
      | none => exact h.thread other

/-- A run that exceeds no bound is the same run with a higher one, and the same threads are told of
an exhausted stack. -/
theorem run (h : s.Curtails s') (hs : s.Counted) (hdepth : small.depth ≤ big.depth)
    (hroom : big.room = none) (hrun : s.run small ids = some last)
    (hfits : ∀ u, last.Stopped u → s.Stopped u ∨ Told small u s ids) :
    ∃ last', s'.run big ids = some last' ∧ last.Curtails last' ∧
      ∀ u, Told big u s' ids ↔ Told small u s ids := by
  induction ids generalizing s s' with
  | nil =>
    cases hrun
    exact ⟨s', rfl, h, fun u => Iff.rfl⟩
  | cons id ids ih =>
    obtain ⟨next, hstep, hrest⟩ := run_cons_eq_some_iff.1 hrun
    have hnext := hs.step hstep
    have hstays : ∀ u, next.Stopped u →
        s.Stopped u ∨ (id = u ∧ ∃ t, s.thread u = some t ∧ t.Hears s.cell) := by
      intro u hstop
      rcases hfits u (hnext.stopped_of_run hrest hstop) with hstopped | htold
      · exact .inl hstopped
      · exact .inr (((told_cons hstep).1 htold).resolve_right (hnext.not_told_of_stopped hstop))
    obtain ⟨next', hstep', hcurtails⟩ := h.step hs hdepth hroom hstep hstays
    have hlater : ∀ u, last.Stopped u → next.Stopped u ∨ Told small u next ids := by
      intro u hstop
      rcases hfits u hstop with hstopped | htold
      · exact .inl (hs.stopped_of_step hstep hstopped)
      · rcases (told_cons hstep).1 htold with ⟨rfl, t, ht, hhears⟩ | htold
        · exact .inl (stopped_of_hears ht hhears hstep)
        · exact .inr htold
    obtain ⟨last', hrun', hlast, htold⟩ := ih hcurtails hnext hrest hlater
    refine ⟨last', run_cons_eq_some_iff.2 ⟨next', hstep', hrun'⟩, hlast, fun u => ?_⟩
    rw [told_cons hstep', told_cons hstep, h.hears_iff, htold]

end Curtails

/-! ### Ends of runs -/

/-- Systems that have come to the same: the cells hold the same outcomes and are claimed alike, the
threads have ended with the same results or failures, with the same environments, have printed the
same lines, spawned as many tasks and delivered alike, and either both systems are complete or
none. -/
structure EndsAlike (s s' : System) : Prop where
  cell : s'.cell = s.cell
  ended : ∀ id, s'.ended? id = s.ended? id
  printed : ∀ id, (s'.thread id).map (·.printed) = (s.thread id).map (·.printed)
  spawned : ∀ id, (s'.thread id).map (·.spawned) = (s.thread id).map (·.spawned)
  delivered : ∀ id, (s'.thread id).map (·.delivered) = (s.thread id).map (·.delivered)
  complete : s'.Complete ↔ s.Complete

namespace EndsAlike

variable {s'' : System}

theorem symm (h : s.EndsAlike s') : s'.EndsAlike s where
  cell := h.cell.symm
  ended id := (h.ended id).symm
  printed id := (h.printed id).symm
  spawned id := (h.spawned id).symm
  delivered id := (h.delivered id).symm
  complete := h.complete.symm

theorem trans (h : s.EndsAlike s') (h' : s'.EndsAlike s'') : s.EndsAlike s'' where
  cell := h'.cell.trans h.cell
  ended id := (h'.ended id).trans (h.ended id)
  printed id := (h'.printed id).trans (h.printed id)
  spawned id := (h'.spawned id).trans (h.spawned id)
  delivered id := (h'.delivered id).trans (h.delivered id)
  complete := h'.complete.trans h.complete

end EndsAlike

/-- What two systems have in common that differ in the bounds of their threads: all that does not
depend on the programs that the threads still have to run. -/
theorem Curtails.map_eq (h : s.Curtails s') (id : ThreadId) {α : Type} (f : Thread → α)
    (hf : ∀ t t' : Thread, t.Curtails t' → f t' = f t) :
    (s'.thread id).map f = (s.thread id).map f := by
  rcases h.thread_cases id with ⟨hnone, hnone'⟩ | ⟨t, t', ht, ht', hthread⟩
  · rw [hnone, hnone']
  · rw [ht, ht', Option.map_some, Option.map_some, hf t t' hthread]

theorem Curtails.endsAlike (h : s.Curtails s') : s.EndsAlike s' where
  cell := h.cell
  ended id := by
    rcases h.thread_cases id with ⟨hnone, hnone'⟩ | ⟨t, t', ht, ht', hthread⟩
    · rw [ended?, ended?, hnone, hnone']
    · rw [ended?, ended?, ht, ht']
      exact hthread.ended?_eq
  printed id := h.map_eq id _ fun t t' hthread => by rw [hthread.same]
  spawned id := h.map_eq id _ fun t t' hthread => by rw [hthread.same]
  delivered id := h.map_eq id _ fun t t' hthread => by rw [hthread.same]
  complete := by
    refine forall_congr' fun id => ?_
    rcases h.thread_cases id with ⟨hnone, hnone'⟩ | ⟨t, t', ht, ht', hthread⟩
    · simp [hnone, hnone']
    · have hover : t'.isOver ↔ t.isOver := by
        rw [Thread.isOver_iff, Thread.isOver_iff, hthread.outcome?_eq, hthread.due?_eq]
      simp [ht, ht', hover, h.cell, hthread.waits_iff]

theorem curtails_launch (out : Provided) {p q : Prog Work Result} (h : p.Curtails q)
    (hp : p ≠ .abort .stackExhausted) : (launch out p).Curtails (launch out q) where
  cell := rfl
  thread
    | .main => .some ⟨h, rfl, fun habort => absurd habort hp⟩
    | .child _ _ => .none
    | .helper n => by
      change Option.Rel Thread.Curtails ((launch out q).thread (.helper n))
        ((launch out q).thread (.helper n))
      cases (launch out q).thread (.helper n) with
      | none => exact .none
      | some t => exact .some (.refl t)

/-- Threads from outside have ended from the start, so they have stopped then or never. -/
theorem stopped_helper_of_run {stack : Stack} {out : Provided} {p : Prog Work Result}
    (hrun : (launch out p).run stack ids = some last) {n : Nat} (h : last.Stopped (.helper n)) :
    (launch out p).Stopped (.helper n) := by
  have hlast : last.Counted ∧ ∀ t, last.thread (.helper n) = some t →
      ∃ t₀, (launch out p).thread (.helper n) = some t₀ ∧ t.rest = t₀.rest := by
    refine run_induction (P := fun s => s.Counted ∧ ∀ t, s.thread (.helper n) = some t →
      ∃ t₀, (launch out p).thread (.helper n) = some t₀ ∧ t.rest = t₀.rest)
      (fun s id next hs hstep => ⟨hs.1.step hstep, fun t ht => ?_⟩)
      ⟨(sound_launch out p).toCounted, fun t ht => ⟨t, ht, rfl⟩⟩ hrun
    obtain ⟨t₁, ht₁⟩ : ∃ t₁, s.thread (.helper n) = some t₁ := by
      obtain ⟨tm, m, htm, hm, rfl⟩ := step_eq_some_iff.1 hstep
      rcases after_thread_eq_some ht with ⟨rfl, -⟩ | ⟨-, hstart⟩ | ⟨-, hthread⟩
      · exact ⟨tm, htm⟩
      · cases (hm.of_start hstart).1
      · exact ⟨t, hthread⟩
    obtain ⟨t₀, ht₀, hrest⟩ := hs.2 t₁ ht₁
    have hended : t₁.outcome?.isSome := by
      obtain ⟨⟨name, generation, o⟩, -, rfl⟩ := Option.map_eq_some_iff.1 ht₀
      rw [Thread.outcome?, hrest]
      cases o <;> rfl
    obtain ⟨t', ht', hkept⟩ := hs.1.thread_of_ended hstep ht₁ hended
    cases ht.symm.trans ht'
    exact ⟨t₀, ht₀, hkept.trans hrest⟩
  obtain ⟨t, ht, hrest⟩ := h
  obtain ⟨t₀, ht₀, hsame⟩ := hlast.2 t ht
  exact ⟨t₀, ht₀, hsame.symm.trans hrest⟩

theorem stopped_or_told {stack : Stack} {out : Provided} {p : Prog Work Result}
    (hrun : (launch out p).run stack ids = some last)
    (hfits : ∀ u, ¬(launch out p).Exceeds stack ids u) (u : ThreadId) (h : last.Stopped u) :
    (launch out p).Stopped u ∨ Told stack u (launch out p) ids := by
  by_cases hhelper : ∃ n, u = .helper n
  · obtain ⟨n, rfl⟩ := hhelper
    exact .inl (stopped_helper_of_run hrun h)
  · refine .inr (Classical.not_not.1 fun htold => hfits u ⟨?_, ⟨last, hrun, h⟩, htold⟩)
    exact fun n hn => hhelper ⟨n, hn⟩

section

variable {out : Provided} {ctx : Context} {env : Env} {e : Expr}

theorem exists_run_bound (big : Stack)
    (hrun : (launch out (small.eval ctx env e)).run small ids = some last)
    (hfits : ∀ u, ¬(launch out (small.eval ctx env e)).Exceeds small ids u)
    (hdepth : small.depth ≤ big.depth) (hroom : big.room = none) :
    ∃ last', (launch out (big.eval ctx env e)).run big ids = some last' ∧ last.EndsAlike last' ∧
      ∀ u, ¬(launch out (big.eval ctx env e)).Exceeds big ids u := by
  have hcounted := (sound_launch out (small.eval ctx env e)).toCounted
  have hstopped := stopped_or_told hrun hfits
  have hgoes : small.eval ctx env e ≠ .abort .stackExhausted := by
    intro habort
    have hmain : (launch out (small.eval ctx env e)).Stopped .main := ⟨_, rfl, habort⟩
    exact hfits .main ⟨nofun, ⟨last, hrun, hcounted.stopped_of_run hrun hmain⟩,
      hcounted.not_told_of_stopped hmain⟩
  have hcut : (small.eval ctx env e).Curtails (big.eval ctx env e) := by
    rw [Stack.eval, Stack.eval, hroom]
    exact curtails_eval hdepth small.room ctx env e
  have hstart := curtails_launch out hcut hgoes
  obtain ⟨last', hrun', hlast, htold⟩ := hstart.run hcounted hdepth hroom hrun hstopped
  refine ⟨last', hrun', hlast.endsAlike, ?_⟩
  rintro u ⟨hworks, ⟨last₁, hrun₁, hstop⟩, hnot⟩
  cases hrun'.symm.trans hrun₁
  refine hfits u ⟨hworks, ⟨last, hrun, (hlast.stopped_iff u).1 hstop⟩, ?_⟩
  rwa [← htold]

end

/-- **A bound that no thread exceeds cannot be observed.** If no thread exceeds its stack in a run
of an evaluation, then the same steps can be made with every higher bound on the depth, nobody
exceeds it either, and the run comes to the same: the value or the error and the environment of
every thread, what it has printed, and what is stored in every cell. So it does on every other stack
that no thread exceeds in a run with the same steps. -/
theorem bound_unobservable (small : Stack) (out : Provided) (ctx : Context) (env : Env) (e : Expr)
    {ids : List ThreadId} {last : System}
    (hrun : (launch out (small.eval ctx env e)).run small ids = some last)
    (hfits : ∀ u, ¬(launch out (small.eval ctx env e)).Exceeds small ids u) :
    (∀ big : Stack, small.depth ≤ big.depth → big.room = none →
      ∃ last', (launch out (big.eval ctx env e)).run big ids = some last' ∧ last.EndsAlike last' ∧
        ∀ u, ¬(launch out (big.eval ctx env e)).Exceeds big ids u) ∧
      ∀ (other : Stack) (last' : System),
        (launch out (other.eval ctx env e)).run other ids = some last' →
        (∀ u, ¬(launch out (other.eval ctx env e)).Exceeds other ids u) → last.EndsAlike last' := by
  refine ⟨fun big hdepth hroom => exists_run_bound big hrun hfits hdepth hroom,
    fun other last' hrun' hfits' => ?_⟩
  -- Both runs come to the same as the one on a stack that is at least as large as either.
  let top : Stack := ⟨max small.depth other.depth, none⟩
  obtain ⟨last₁, hrun₁, halike₁, -⟩ :=
    exists_run_bound top hrun hfits (Nat.le_max_left _ _) rfl
  obtain ⟨last₂, hrun₂, halike₂, -⟩ :=
    exists_run_bound top hrun' hfits' (Nat.le_max_right _ _) rfl
  cases hrun₁.symm.trans hrun₂
  exact halike₁.trans halike₂.symm

/-- Waiting for a task takes two levels. The run is the same on a stack with a hundred. -/
theorem bound_unobservable_sync_spawn :
    let e : Expr := .sync (.spawn (.lit (.int 1)))
    let task := ThreadId.child .main 1
    let ids := [.main, .main, task, .main]
    ∃ last last', (launch .none (Stack.eval ⟨2, none⟩ {} ⟨[]⟩ e)).run ⟨2, none⟩ ids = some last ∧
      (∀ u, ¬(launch .none (Stack.eval ⟨2, none⟩ {} ⟨[]⟩ e)).Exceeds ⟨2, none⟩ ids u) ∧
      (launch .none (Stack.eval ⟨100, none⟩ {} ⟨[]⟩ e)).run ⟨100, none⟩ ids = some last' ∧
      last.EndsAlike last' ∧ last'.ended? .main = some (.ok ⟨.int 1, ⟨[]⟩⟩) := by
  intro e task ids
  obtain ⟨last, hlast, hended, hthreads⟩ : ∃ last,
      (launch .none (Stack.eval ⟨2, none⟩ {} ⟨[]⟩ e)).run ⟨2, none⟩ ids = some last ∧
        last.ended? .main = some (.ok ⟨.int 1, ⟨[]⟩⟩) ∧ ∀ u, ¬last.Stopped u := by
    refine ⟨_, rfl, rfl, ?_⟩
    rintro (_ | n | ⟨p, n⟩) ⟨t, ht, hstop⟩
    · cases ht
      cases hstop
    · cases ht
    · by_cases htask : ThreadId.child p n = task
      · obtain ⟨rfl, rfl⟩ : p = .main ∧ n = 1 := ThreadId.child.inj htask
        cases ht
        cases hstop
      · have hnone : (none : Option Thread) = some t :=
          ((if_neg htask).trans (if_neg htask)).symm.trans ht
        cases hnone
  have hfits : ∀ u,
      ¬(launch .none (Stack.eval ⟨2, none⟩ {} ⟨[]⟩ e)).Exceeds ⟨2, none⟩ ids u := by
    rintro u ⟨-, ⟨last', hlast', hstop⟩, -⟩
    cases hlast.symm.trans hlast'
    exact hthreads u hstop
  obtain ⟨last', hlast', halike, -⟩ :=
    (bound_unobservable ⟨2, none⟩ .none {} ⟨[]⟩ e hlast hfits).1 ⟨100, none⟩ (by decide) rfl
  exact ⟨last, last', hlast, hfits, hlast', halike, (halike.ended .main).trans hended⟩

end System

end ForkJoin

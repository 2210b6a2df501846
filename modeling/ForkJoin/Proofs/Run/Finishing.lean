import ForkJoin.Proofs.Run.Aloof
import ForkJoin.Proofs.Run.Course
import Mathlib.Algebra.BigOperators.Intervals
import Mathlib.Algebra.Order.BigOperators.Group.Finset

/-!
# Evaluations that finish

A session in which the main thread evaluates an expression whose tasks have no effects, while other
threads go on. `System.OnCourse` says of a system that its main thread is on the way that its
program goes, and that what its tasks end with is as promised; every step of any thread keeps it so.
The other threads are aloof: they never claim the cells of the tasks.

From it follows that in every order of steps the main thread finishes: it never ends in another way,
as long as it has not ended one of the threads that take part has a step, and these threads make
boundedly many (`System.Finishes`).
-/

namespace ForkJoin

theorem ThreadId.evaluates_of_takesPart {first : Nat} {id : ThreadId} (h : id.takesPart first) :
    id.Evaluates first := by
  unfold takesPart at h
  split at h
  case h_1 => exact .inl rfl
  case h_2 m => exact .inr ⟨m, of_decide_eq_true h, .inl rfl⟩
  case h_3 => cases h

namespace System

def Heads (s : System) (id : ThreadId) (o : Outcome) : Prop :=
  ∃ t c, s.thread id = some t ∧ s.cell (.task id) = some c ∧ t.Heads id c o

def leftOf (s : System) (id : ThreadId) : Nat :=
  ((s.thread id).map Thread.left).getD 0

/-- How many steps some tasks of the main thread have ahead. -/
def leftAmong (s : System) (first last : Nat) : Nat :=
  ∑ m ∈ Finset.Ioc first last, s.leftOf (.child .main m)

/-- The main thread of a system is on its way: what it still spawns and claims, and how many steps
it and its further tasks make, as far as they depend on the main thread. -/
structure OnCourse (stack : Stack) (first : Nat) (promised : Nat → Outcome)
    (o : Except Failure Result) (s : System) (t : Thread) (acts : List Act) (steps : Nat) :
    Prop extends s.Sound where
  aloof : s.Aloof first
  main : s.thread .main = some t
  delivery : t.delivery = none
  first_le : first ≤ t.spawned
  goes : ∃ last, t.rest.Goes stack first promised t.spawned acts o last steps
  heads : ∀ m, first < m → m ≤ t.spawned → s.Heads (.child .main m) (promised m)
  team : ∀ id, id.NewTask first → (s.thread id).isSome →
    ∃ m, id = .child .main m ∧ first < m ∧ m ≤ t.spawned
  nodup : acts.Nodup
  unclaimed : ∀ x c, .claim x ∈ acts → s.cell x = some c → c.claimed = false

variable {stack : Stack} {s s' last : System} {id u : ThreadId} {t : Thread} {m : Move}
  {first n steps : Nat} {promised : Nat → Outcome} {o : Except Failure Result}
  {acts acts' : List Act}

theorem claimed_after {x : CellId} {c : Cell} (hc : (s.after id m).cell x = some c)
    (hclaimed : c.claimed = true) :
    (∃ c₀, s.cell x = some c₀ ∧ c₀.claimed = true) ∨ m.change = .take x := by
  have hon : m.change.on s.cell x = some c := hc
  by_cases hcell : m.change.cell? = some x
  · cases hchange : m.change with
    | keep => simp [hchange, Change.cell?] at hcell
    | take y =>
      simp only [hchange, Change.cell?, Option.some.injEq] at hcell
      exact .inr (hcell ▸ rfl)
    | put y o =>
      simp only [hchange, Change.cell?, Option.some.injEq] at hcell
      subst hcell
      simp only [hchange, Change.on, if_true] at hon
      obtain ⟨c₀, hc₀, rfl⟩ := Option.map_eq_some_iff.1 hon
      exact .inl ⟨c₀, hc₀, hclaimed⟩
    | make y label =>
      simp only [hchange, Change.cell?, Option.some.injEq] at hcell
      subst hcell
      simp only [hchange, Change.on, if_true, Option.some.injEq] at hon
      rw [← hon] at hclaimed
      cases hclaimed
  · rw [Change.on_of_ne hcell] at hon
    exact .inl ⟨c, hon, hclaimed⟩

/-- Whoever moves, a task that prints and ends does so still, and if it moves itself it comes closer
to its end. -/
theorem Heads.after {o : Outcome} (h : s.Heads u o) (hs : s.Sound) (ht : s.thread id = some t)
    (hm : t.Moves stack s.cell id m) :
    (s.after id m).Heads u o ∧
      (s.after id m).leftOf u + (if u = id then 1 else 0) ≤ s.leftOf u := by
  obtain ⟨tu, c, htu, hc, hheads⟩ := h
  by_cases hu : u = id
  · subst hu
    cases ht.symm.trans htu
    obtain ⟨-, hleft, -, c', hc', hheads'⟩ := hheads.moves hc hm
    refine ⟨⟨m.thread, c', after_thread_self, hc', hheads'⟩, ?_⟩
    simpa [leftOf, after_thread_self, ht] using hleft
  · have htu' := after_thread_of_ne hs.toCounted ht hm hu htu
    obtain ⟨c', hc', hcases⟩ := hs.toCounted.outcome_after ht hm hc
    have hsame : c'.outcome = c.outcome := by
      rcases hcases with ⟨hsame, -⟩ | ⟨o', hput, -⟩
      · exact hsame
      · obtain ⟨-, d, hdue, hd, -⟩ := hm.of_put hput
        exact absurd (hs.own id t d u ht (Thread.delivery_of_due? hdue) hd) hu
    refine ⟨⟨tu, c', htu', hc', ?_⟩, ?_⟩
    · exact ⟨hheads.quiet, hheads.delivery, hsame.trans hheads.outcome, hheads.ended⟩
    · simp [leftOf, htu', htu, hu]

namespace OnCourse

theorem leftAmong_after_le (hs : s.OnCourse stack first promised o t acts steps) {tid : Thread}
    (ht : s.thread id = some tid) (hm : tid.Moves stack s.cell id m) :
    (s.after id m).leftAmong first t.spawned ≤ s.leftAmong first t.spawned := by
  refine Finset.sum_le_sum fun k hk => ?_
  obtain ⟨hfirst, hle⟩ := Finset.mem_Ioc.1 hk
  exact Nat.le_of_add_right_le ((hs.heads k hfirst hle).after hs.toSound ht hm).2

/-- A move of the main thread keeps it on course, if it goes on as it should. -/
theorem of_main (hs : s.OnCourse stack first promised o t acts steps)
    (hm : t.Moves stack s.cell .main m) {steps' : Nat}
    (hgoes : ∃ last, m.thread.rest.Goes stack first promised m.thread.spawned acts' o last steps')
    (hsub : acts'.Sublist acts) (htake : ∀ x, m.change = .take x → .claim x ∉ acts')
    (hnew : ∀ k, t.spawned < k → k ≤ m.thread.spawned →
      (s.after .main m).Heads (.child .main k) (promised k)) :
    (s.after .main m).OnCourse stack first promised o m.thread acts' steps' where
  toSound := hs.toSound.after hs.main hm
  aloof := by
    refine hs.aloof.after hs.main hm (fun _ => hs.first_le) fun d hd _ => ?_
    have hdelivery := Thread.delivery_of_due? hd
    rw [hs.delivery] at hdelivery
    cases hdelivery
  main := after_thread_self
  delivery := hm.delivery_eq.trans hs.delivery
  first_le := Nat.le_trans hs.first_le hm.spawned_le
  goes := hgoes
  heads k hfirst hle := by
    by_cases hk : k ≤ t.spawned
    · exact ((hs.heads k hfirst hk).after hs.toSound hs.main hm).1
    · exact hnew k (Nat.lt_of_not_le hk) hle
  team u hu husome := by
    obtain ⟨tu, htu⟩ := Option.isSome_iff_exists.1 husome
    rcases after_thread_eq_some htu with ⟨rfl, -⟩ | ⟨-, hstart⟩ | ⟨-, hthread⟩
    · exact absurd hu (ThreadId.not_newTask_main first)
    · obtain ⟨hother, hspawned, -⟩ := hm.of_start hstart
      exact ⟨_, hother, Nat.lt_succ_of_le hs.first_le, Nat.le_of_eq hspawned.symm⟩
    · obtain ⟨k, hk, hfirst, hle⟩ := hs.team u hu (by rw [hthread]; rfl)
      exact ⟨k, hk, hfirst, Nat.le_trans hle hm.spawned_le⟩
  nodup := hs.nodup.sublist hsub
  unclaimed x c hx hc := by
    rw [← Bool.not_eq_true]
    intro hclaimed
    rcases claimed_after hc hclaimed with ⟨c₀, hc₀, hclaimed₀⟩ | hchange
    · rw [hs.unclaimed x c₀ (hsub.subset hx) hc₀] at hclaimed₀
      cases hclaimed₀
    · exact htake x hchange hx

theorem exists_heads (hs : s.OnCourse stack first promised o t acts steps) (hne : id ≠ .main)
    (hid : id.Evaluates first) (hsome : (s.thread id).isSome) :
    ∃ k, id = .child .main k ∧ k ∈ Finset.Ioc first t.spawned ∧ s.Heads id (promised k) := by
  obtain ⟨k, rfl, hfirst, hle⟩ := hs.team id (hid.resolve_left hne) hsome
  exact ⟨k, rfl, Finset.mem_Ioc.2 ⟨hfirst, hle⟩, hs.heads k hfirst hle⟩

theorem task_moves (hs : s.OnCourse stack first promised o t acts steps) (hne : id ≠ .main)
    (hid : id.Evaluates first) {tid : Thread} (ht : s.thread id = some tid)
    (hm : tid.Moves stack s.cell id m) :
    m.start = none ∧ (∀ x, m.change ≠ .take x) ∧ ∀ d, tid.due? = some d → d.cell = .task id := by
  obtain ⟨k, -, -, t', c, ht', hc, hheads⟩ := hs.exists_heads hne hid (by rw [ht]; rfl)
  cases ht.symm.trans ht'
  obtain ⟨hstart, -, hchange, -⟩ := hheads.moves hc hm
  refine ⟨hstart, fun x htake => ?_, fun d hd => (hheads.cell_of_due hd).1⟩
  rcases hchange with h | ⟨o', h⟩ <;> · rw [h] at htake; cases htake

/-- A move of another thread keeps the main thread on course. -/
theorem of_other (hs : s.OnCourse stack first promised o t acts steps) (hne : id ≠ .main)
    {tid : Thread} (ht : s.thread id = some tid) (hm : tid.Moves stack s.cell id m) :
    (s.after id m).OnCourse stack first promised o t acts steps where
  toSound := hs.toSound.after ht hm
  aloof := hs.aloof.after ht hm (fun hmain => absurd hmain hne) fun d hd hid =>
    ⟨hne, (hs.task_moves hne hid ht hm).2.2 d hd⟩
  main := after_thread_of_ne hs.toCounted ht hm hne.symm hs.main
  delivery := hs.delivery
  first_le := hs.first_le
  goes := hs.goes
  heads k hfirst hle := ((hs.heads k hfirst hle).after hs.toSound ht hm).1
  team u hu husome := by
    obtain ⟨tu, htu⟩ := Option.isSome_iff_exists.1 husome
    rcases after_thread_eq_some htu with ⟨rfl, -⟩ | ⟨-, hstart⟩ | ⟨-, hthread⟩
    · exact hs.team u hu (by rw [ht]; rfl)
    · have hid : id.Evaluates first := by
        rw [(hm.of_start hstart).1] at hu
        exact ThreadId.Evaluates.of_child (.inr hu)
      rw [(hs.task_moves hne hid ht hm).1] at hstart
      cases hstart
    · exact hs.team u hu (by rw [hthread]; rfl)
  nodup := hs.nodup
  unclaimed x c hx hc := by
    by_cases hid : id.Evaluates first
    · rw [← Bool.not_eq_true]
      intro hclaimed
      rcases claimed_after hc hclaimed with ⟨c₀, hc₀, hclaimed₀⟩ | hchange
      · rw [hs.unclaimed x c₀ hx hc₀] at hclaimed₀
        cases hclaimed₀
      · exact (hs.task_moves hne hid ht hm).2.1 x hchange
    · -- What is still to be claimed are cells of tasks that take part; others leave them alone.
      obtain ⟨last, hgoes⟩ := hs.goes
      obtain ⟨k, hk, rfl⟩ := hgoes.claims hx
      rw [hs.aloof.cell_after hs.toSound ht hm hid ⟨k, hk, .inl rfl⟩] at hc
      exact hs.unclaimed _ c hx hc

theorem leftAmong_after_lt (hs : s.OnCourse stack first promised o t acts steps) (hne : id ≠ .main)
    (hid : id.Evaluates first) {tid : Thread} (ht : s.thread id = some tid)
    (hm : tid.Moves stack s.cell id m) :
    (s.after id m).leftAmong first t.spawned < s.leftAmong first t.spawned := by
  obtain ⟨k, rfl, hk, hheads⟩ := hs.exists_heads hne hid (by rw [ht]; rfl)
  refine Finset.sum_lt_sum (fun j hj => ?_) ⟨k, hk, ?_⟩
  · obtain ⟨hfirst, hle⟩ := Finset.mem_Ioc.1 hj
    exact Nat.le_of_add_right_le ((hs.heads j hfirst hle).after hs.toSound ht hm).2
  · simpa using (hheads.after hs.toSound ht hm).2

theorem not_step_main (hs : s.OnCourse stack first promised o t acts steps)
    (h : t.isOver ∨ t.Waits s.cell) : s.step stack .main = none :=
  step_eq_none_iff.2 fun t' ht' => by
    cases hs.main.symm.trans ht'
    exact h

theorem step_main (hs : s.OnCourse stack first promised o t acts steps)
    (hstep : s.step stack .main = some s') : ∃ t' acts' steps',
      s'.OnCourse stack first promised o t' acts' steps' ∧
      acts = (s.act? .main).toList ++ acts' ∧
      steps' + s'.leftAmong first t'.spawned < steps + s.leftAmong first t.spawned := by
  obtain ⟨last, hgoes⟩ := hs.goes
  have hmain := hs.main
  have hact : s.act? .main = t.act? .main := by rw [act?, hmain, Option.bind_some]
  have hended : t.rest.ended?.isSome → False := by
    intro hended
    have hover : t.isOver := by simp [Thread.isOver, hended, hs.delivery]
    rw [hs.not_step_main (.inl hover)] at hstep
    cases hstep
  have hsame : ∀ {P : Prop} k, t.spawned < k → k ≤ t.spawned → P :=
    fun k hlt hle => absurd hle (Nat.not_le_of_lt hlt)
  generalize hrest : t.rest = p at hgoes hended
  cases hgoes with
  | done a => exact (hended rfl).elim
  | fail e => exact (hended rfl).elim
  | @emit _ _ steps' line p _ _ h =>
    have hm : t.Moves stack s.cell .main _ := .print hrest
    cases hstep.symm.trans (step_of_moves hmain hm)
    have hnext := hs.of_main hm ⟨last, h⟩ (List.Sublist.refl _)
      (fun _ hx => by cases hx) fun k => hsame k
    refine ⟨_, _, steps', hnext, by rw [hact, Thread.act?, hrest]; rfl, ?_⟩
    exact Nat.add_lt_add_of_lt_of_le (Nat.lt_succ_self _) (hs.leftAmong_after_le hmain hm)
  | @spawn _ _ steps' work rest acts' _ r htask hr h =>
    have hm : t.Moves stack s.cell .main _ := .spawn hrest
    have hs' := Option.some.inj (hstep.symm.trans (step_of_moves hmain hm))
    have hthread : s'.thread (.child .main (t.spawned + 1)) =
        some (.task stack (.child .main (t.spawned + 1)) work) := by
      simp [hs', System.after, Move.started?]
    have hcell : s'.cell (.task (.child .main (t.spawned + 1))) =
        some { label := .text (ThreadId.child .main (t.spawned + 1)).label } := by
      simp [hs', System.after, Change.on]
    have hnew : ∀ k, t.spawned < k → k ≤ t.spawned + 1 →
        s'.Heads (.child .main k) (promised k) := by
      intro k hlt hle
      obtain rfl : k = t.spawned + 1 := by omega
      exact ⟨_, _, hthread, hcell, hr ▸ Thread.Heads.task htask rfl⟩
    have hnext := hs.of_main hm ⟨last, h⟩ (List.sublist_cons_self _ _)
      (fun _ hx => by cases hx) (hs' ▸ hnew)
    have hle := hs.leftAmong_after_le hmain hm
    rw [← hs'] at hnext hle
    refine ⟨_, _, steps', hnext, by rw [hact, Thread.act?, hrest]; rfl, ?_⟩
    have hsum : s'.leftAmong first (t.spawned + 1) = s'.leftAmong first t.spawned +
        (Thread.task stack (.child .main (t.spawned + 1)) work).left := by
      rw [leftAmong, Finset.sum_Ioc_succ_top hs.first_le, leftOf, hthread]
      rfl
    change steps' + s'.leftAmong first (t.spawned + 1) < _
    omega
  | @claim _ k _ steps' p acts' _ hfirst hle h =>
    obtain ⟨tk, c, -, hc, -⟩ := hs.heads k hfirst hle
    have hm : t.Moves stack s.cell .main _ :=
      .take hrest hc (hs.unclaimed _ c List.mem_cons_self hc)
    cases hstep.symm.trans (step_of_moves hmain hm)
    have hnext := hs.of_main hm ⟨last, h⟩ (List.sublist_cons_self _ _)
      (fun x hx => by cases hx; exact (List.nodup_cons.1 hs.nodup).1) fun k => hsame k
    refine ⟨_, _, steps', hnext, by rw [hact, Thread.act?, hrest]; rfl, ?_⟩
    exact Nat.add_lt_add_of_lt_of_le (Nat.lt_succ_self _) (hs.leftAmong_after_le hmain hm)
  | @await _ k _ steps' rest _ _ hfirst hle h =>
    obtain ⟨tk, c, -, hc, hheads⟩ := hs.heads k hfirst hle
    cases hdelivered : tk.delivered.isSome with
    | false =>
      -- The task has still to deliver, so it is not the main thread that has made this step.
      have hwaits : t.Waits s.cell := by
        simp [Thread.Waits, hrest, hc, hheads.outcome, hdelivered]
      rw [hs.not_step_main (.inr hwaits)] at hstep
      cases hstep
    | true =>
      have hwritten : c.outcome = some (promised k) := by simp [hheads.outcome, hdelivered]
      have hm : t.Moves stack s.cell .main _ := .receive hrest hc hwritten
      cases hstep.symm.trans (step_of_moves hmain hm)
      have hnext := hs.of_main hm ⟨last, h⟩ (List.Sublist.refl _)
        (fun _ hx => by cases hx) fun k => hsame k
      refine ⟨_, _, steps', hnext, by rw [hact, Thread.act?, hrest]; rfl, ?_⟩
      exact Nat.add_lt_add_of_lt_of_le (Nat.lt_succ_self _) (hs.leftAmong_after_le hmain hm)

/-- What the main thread does next in a step of some thread. -/
theorem step (hs : s.OnCourse stack first promised o t acts steps)
    (hstep : s.step stack id = some s') : ∃ t' acts' steps',
      s'.OnCourse stack first promised o t' acts' steps' ∧
      acts = (if id = .main then (s.act? .main).toList else []) ++ acts' ∧
      steps' + s'.leftAmong first t'.spawned + (if id.takesPart first then 1 else 0) ≤
        steps + s.leftAmong first t.spawned := by
  by_cases hne : id = .main
  · subst hne
    obtain ⟨t', acts', steps', hnext, hacts, hlt⟩ := hs.step_main hstep
    exact ⟨t', acts', steps', hnext, by simpa using hacts, by simpa [ThreadId.takesPart] using hlt⟩
  · obtain ⟨tid, m, ht, hm, rfl⟩ := step_eq_some_iff.1 hstep
    refine ⟨t, acts, steps, hs.of_other hne ht hm, by simp [hne], ?_⟩
    by_cases hid : id.takesPart first
    · have hlt := hs.leftAmong_after_lt hne (ThreadId.evaluates_of_takesPart hid) ht hm
      simp only [hid, if_true]
      omega
    · have hle := hs.leftAmong_after_le ht hm
      simp only [hid, Bool.false_eq_true, if_false]
      omega

theorem run {ids : List ThreadId} (hs : s.OnCourse stack first promised o t acts steps)
    (hrun : s.run stack ids = some last) : ∃ t' acts' steps',
      last.OnCourse stack first promised o t' acts' steps' ∧
      acts = s.actsBy stack .main ids ++ acts' ∧
      steps' + last.leftAmong first t'.spawned + ids.countP (ThreadId.takesPart first) ≤
        steps + s.leftAmong first t.spawned := by
  induction ids generalizing s t acts steps with
  | nil =>
    cases hrun
    exact ⟨t, acts, steps, hs, rfl, Nat.le_refl _⟩
  | cons id ids ih =>
    obtain ⟨next, hstep, hrest⟩ := run_cons_eq_some_iff.1 hrun
    obtain ⟨t₁, acts₁, steps₁, hnext, hacts₁, hle₁⟩ := hs.step hstep
    obtain ⟨t₂, acts₂, steps₂, hlast, hacts₂, hle₂⟩ := ih hnext hrest
    refine ⟨t₂, acts₂, steps₂, hlast, ?_, ?_⟩
    · rw [actsBy_cons hstep, List.append_assoc, ← hacts₂, hacts₁]
    · rw [List.countP_cons]
      omega

theorem of_ended? {o' : Except Failure Result}
    (hs : s.OnCourse stack first promised o t acts steps) (hended : s.ended? .main = some o') :
    o' = o ∧ acts = [] := by
  rw [ended?, hs.main, Option.bind_some] at hended
  obtain ⟨last, hgoes⟩ := hs.goes
  generalize t.rest = p at hgoes hended
  cases hgoes with
  | done | fail =>
    cases hended
    exact ⟨rfl, rfl⟩
  | emit | spawn | claim | await => cases hended

theorem exists_step (hs : s.OnCourse stack first promised o t acts steps)
    (hended : s.ended? .main = none) :
    ∃ id, id.takesPart first ∧ (s.step stack id).isSome := by
  have hmain := hs.main
  have hmoves : ∀ {m : Move}, t.Moves stack s.cell .main m →
      ∃ id, id.takesPart first ∧ (s.step stack id).isSome :=
    fun hm => ⟨.main, rfl, Option.isSome_of_eq_some (step_of_moves hmain hm)⟩
  rw [ended?, hmain, Option.bind_some] at hended
  obtain ⟨last, hgoes⟩ := hs.goes
  generalize hrest : t.rest = p at hgoes hended
  cases hgoes with
  | done | fail => cases hended
  | emit => exact hmoves (.print hrest)
  | spawn => exact hmoves (.spawn hrest)
  | @claim _ k _ _ _ _ _ hfirst hle =>
    obtain ⟨tk, c, -, hc, -⟩ := hs.heads k hfirst hle
    exact hmoves (.take hrest hc (hs.unclaimed _ c List.mem_cons_self hc))
  | @await _ k _ _ _ _ _ hfirst hle =>
    obtain ⟨tk, c, htk, hc, hheads⟩ := hs.heads k hfirst hle
    cases hdelivered : tk.delivered with
    | some result =>
      have hwritten : c.outcome = some (promised k) := by simp [hheads.outcome, hdelivered]
      exact hmoves (.receive hrest hc hwritten)
    | none =>
      obtain ⟨m, hm⟩ : ∃ m, tk.Moves stack s.cell (.child .main k) m :=
        hheads.exists_moves hc hdelivered
      exact ⟨.child .main k, decide_eq_true hfirst,
        Option.isSome_of_eq_some (step_of_moves htk hm)⟩

theorem outcome_eq (hs : s.OnCourse stack first promised o t acts steps) {k : Nat} {c : Cell}
    {result : Outcome} (hfirst : first < k) (hc : s.cell (.task (.child .main k)) = some c)
    (hresult : c.outcome = some result) : result = promised k := by
  have hle : k ≤ t.spawned := by
    refine Nat.le_of_not_lt fun hlt => ?_
    exact hs.toCounted.not_newTask_of_cell hs.main (Option.isSome_of_eq_some hc)
      ⟨k, hlt, .inl rfl⟩
  obtain ⟨tk, c', -, hc', hheads⟩ := hs.heads k hfirst hle
  cases hc.symm.trans hc'
  rw [hheads.outcome] at hresult
  split at hresult
  · exact (Option.some.inj hresult).symm
  · cases hresult

end OnCourse

/-! ### Finishing -/

/-- In every order of steps the main thread comes to one end. By its end it has spawned and claimed
what it is to spawn and claim, and before a first part of that, in order; whether tasks are told to
print is left aside. As long as it has not ended, it or one of its tasks has a step, and together
they make boundedly many. -/
structure Finishes (stack : Stack) (first : Nat) (s : System) (o : Except Failure Result)
    (acts : List Act) : Prop where
  ended : ∀ ids last o', s.run stack ids = some last → last.ended? .main = some o' →
    o' = o ∧ (s.actsBy stack .main ids).map Act.quiet = acts
  sofar : ∀ ids last, s.run stack ids = some last →
    (s.actsBy stack .main ids).map Act.quiet <+: acts
  onward : ∀ ids last, s.run stack ids = some last → last.ended? .main = none →
    ∃ id, id.takesPart first ∧ (last.step stack id).isSome
  bounded : ∃ bound, ∀ ids last, s.run stack ids = some last →
    ids.countP (ThreadId.takesPart first) ≤ bound

theorem OnCourse.finishes (hs : s.OnCourse stack first promised o t acts steps) :
    s.Finishes stack first o (acts.map Act.quiet) where
  ended ids last o' hrun hended := by
    obtain ⟨t', acts', steps', hlast, hacts, -⟩ := hs.run hrun
    obtain ⟨ho, rfl⟩ := hlast.of_ended? hended
    rw [hacts, List.append_nil]
    exact ⟨ho, rfl⟩
  sofar ids last hrun := by
    obtain ⟨t', acts', steps', -, hacts, -⟩ := hs.run hrun
    rw [hacts, List.map_append]
    exact List.prefix_append _ _
  onward ids last hrun hended := by
    obtain ⟨t', acts', steps', hlast, -⟩ := hs.run hrun
    exact hlast.exists_step hended
  bounded := by
    refine ⟨steps + s.leftAmong first t.spawned, fun ids last hrun => ?_⟩
    obtain ⟨t', acts', steps', -, -, hle⟩ := hs.run hrun
    exact Nat.le_of_add_left_le hle

section

variable {out : Provided} {p : Prog Work Result}

/-- When the main thread of a session begins to run a program it is on the way that its program
goes. -/
theorem Served.exists_onCourse (hout : out.WellFormed) (hs : Served stack out s)
    (ht : s.thread .main = some t)
    (hgoes : p.quiet.Goes stack t.spawned promised t.spawned acts o n steps)
    (hnodup : acts.Nodup) : ∃ acts' steps', acts'.map Act.quiet = acts ∧
      (s.setThread .main { t with rest := p }).OnCourse stack t.spawned promised o
        { t with rest := p } acts' steps' := by
  have hserving := hs.serving hout
  obtain ⟨acts', steps', hway, rfl⟩ := hgoes.of_quiet
  exact ⟨acts', steps', rfl,
    { toSound := hserving.toSound.setMain ht rfl rfl
      aloof := hs.aloof hout ht p
      main := by simp
      delivery := hserving.main t ht
      first_le := Nat.le_refl _
      goes := ⟨n, hway⟩
      heads := fun m hlt hle => absurd hle (Nat.not_le_of_lt hlt)
      team := by
        intro id hid hsome
        by_cases hmain : id = .main
        · exact absurd (hmain ▸ hid) (ThreadId.not_newTask_main _)
        · rw [thread_setThread, if_neg hmain] at hsome
          exact absurd hid (hserving.toCounted.not_newTask ht hsome)
      nodup := hnodup.of_map _
      unclaimed := by
        intro x c hx hc
        obtain ⟨m, hm, rfl⟩ := hway.claims hx
        exact absurd ⟨m, hm, .inl rfl⟩
          (hserving.toCounted.not_newTask_of_cell ht (Option.isSome_of_eq_some hc)) }⟩

/-- In a session the main thread finishes as the way of its program does, whatever tasks are still
running. -/
theorem Served.finishes (hout : out.WellFormed) (hs : Served stack out s)
    (ht : s.thread .main = some t)
    (hgoes : p.quiet.Goes stack t.spawned promised t.spawned acts o n steps)
    (hnodup : acts.Nodup) :
    (s.setThread .main { t with rest := p }).Finishes stack t.spawned o acts := by
  obtain ⟨acts', steps', rfl, hcourse⟩ := hs.exists_onCourse hout ht hgoes hnodup
  exact hcourse.finishes

theorem Served.outcome_eq (hout : out.WellFormed) (hs : Served stack out s)
    (ht : s.thread .main = some t)
    (hgoes : p.quiet.Goes stack t.spawned promised t.spawned acts o n steps)
    (hnodup : acts.Nodup) {ids : List ThreadId} {k : Nat} {c : Cell} {result : Outcome}
    (hrun : (s.setThread .main { t with rest := p }).run stack ids = some last)
    (hfirst : t.spawned < k) (hc : last.cell (.task (.child .main k)) = some c)
    (hresult : c.outcome = some result) : result = promised k := by
  obtain ⟨acts', steps', -, hcourse⟩ := hs.exists_onCourse hout ht hgoes hnodup
  obtain ⟨t', acts'', steps'', hlast, -⟩ := hcourse.run hrun
  exact hlast.outcome_eq hfirst hc hresult

/-- An evaluation without effects finishes, and spawns and claims nothing. -/
theorem Served.finishes_of_quiet (hout : out.WellFormed) (hs : Served stack out s)
    (ht : s.thread .main = some t) (hp : p.quiet = .ofExcept o) :
    (s.setThread .main { t with rest := p }).Finishes stack t.spawned o [] := by
  have hgoes := Prog.Goes.ofExcept stack t.spawned t.spawned (fun _ => .ok (.vec [])) o
  rw [← hp] at hgoes
  exact hs.finishes hout ht hgoes List.nodup_nil

end

end System

end ForkJoin

import ForkJoin.Proofs.Confined
import ForkJoin.Proofs.Run.Invariant
import ForkJoin.Proofs.Run.Order
import Mathlib.Data.Set.Finite.Basic

/-!
# Whose cells a thread holds

Futures travel in environments, in results of other tasks and inside function literals, so it is not
clear from a program what waits for what. But where every future comes from a spawn, a thread only
ever holds cells of tasks that are before it in the order of tasks: a new task is given what its
thread holds, all of which is before the new task too, and what a thread receives was held by a task
before it. `System.Ordered` is this invariant, and every step keeps it.
-/

namespace ForkJoin

theorem Thread.Moves.confined {stack : Stack} {cell : CellId → Option Cell} {id : ThreadId}
    {t : Thread} {m : Move} {cells more : CellId → Prop} (hm : t.Moves stack cell id m)
    (ht : t.rest.Confined Result.Within cells) (hle : ∀ x, cells x → more x)
    (hnew : ∀ work rest, t.rest = .spawn work rest → more (.task (.child id (t.spawned + 1))))
    (hstored : ∀ x c v, cells x → cell x = some c → c.outcome = some (.ok v) → v.Within more) :
    m.thread.rest.Confined Result.Within more := by
  have hmono : ∀ {p : Prog Work Result}, p.Confined Result.Within cells →
      p.Confined Result.Within more :=
    fun hp => hp.mono (fun r hr => hr.mono hle) hle
  cases hm with
  | print hrest =>
    rw [hrest] at ht
    exact hmono ht
  | spawn hrest =>
    have hspawned := hnew _ _ hrest
    rw [hrest] at ht
    exact ht.2 _ more hle hspawned
  | take hrest =>
    rw [hrest] at ht
    exact hmono ht.2
  | refuse => exact trivial
  | @receive wanted rest c o hrest hcell hwritten =>
    rw [hrest] at ht
    cases o with
    | ok v => exact ht.2 v more hle (hstored wanted c v ht.1 hcell hwritten)
    | error e => exact trivial
  | deliver | late | lost => exact hmono (by simpa only [announced_rest] using ht)

theorem Thread.within_outcome {t : Thread} {cells : CellId → Prop} {v : Value}
    (ht : t.rest.Confined Result.Within cells) (hv : t.outcome? = some (.ok v)) :
    v.Within cells := by
  unfold outcome? at hv
  split at hv
  case h_1 r hrest =>
    cases hv
    rw [hrest] at ht
    exact ht.1
  case h_2 => cases hv
  case h_3 => cases hv

namespace System

variable {stack : Stack} {s s' : System} {id other : ThreadId} {t t' : Thread} {m : Move}

def before (s : System) (id : ThreadId) (x : CellId) : Prop :=
  ∃ u, x = .task u ∧ (s.thread u).isSome ∧ u.Before id

/-- The invariant of sessions in which all futures come from spawns. Threads are finitely many: the
main thread and the tasks, each of which writes to its own cell what it has ended with. What is
stored in a cell was held by its task, and every thread holds cells of tasks before it only. -/
structure Ordered (s : System) : Prop extends s.Counted where
  finite : {id | (s.thread id).isSome}.Finite
  no_helper : ∀ n, s.thread (.helper n) = none
  main : ∀ t, s.thread .main = some t → t.delivery = none
  delivery : ∀ id t d, s.thread id = some t → t.delivery = some d → d.cell = .task id
  task : ∀ p n t, s.thread (.child p n) = some t → t.delivery.isSome ∧
    ∃ c, s.cell (.task (.child p n)) = some c ∧ c.outcome.isSome = t.delivered.isSome
  stored : ∀ id c v, s.cell (.task id) = some c → c.outcome = some (.ok v) →
    v.Within (s.before id)
  confined : ∀ id t, s.thread id = some t → t.rest.Confined Result.Within (s.before id)

theorem before_mono (hle : ∀ u, (s.thread u).isSome → (s'.thread u).isSome) (id : ThreadId)
    (x : CellId) (h : s.before id x) : s'.before id x := by
  obtain ⟨u, hx, hu, hbefore⟩ := h
  exact ⟨u, hx, hle u hu, hbefore⟩

theorem before_trans (h : other.Before id) (x : CellId) (hx : s.before other x) :
    s.before id x := by
  obtain ⟨u, hx, hu, hbefore⟩ := hx
  exact ⟨u, hx, hu, hbefore.trans h⟩

theorem Counted.isSome_of_under (hs : s.Counted) (h : id.Under other)
    (hid : (s.thread id).isSome) : (s.thread other).isSome := by
  induction id with
  | main | helper n =>
    rcases h with rfl | h
    · exact hid
    · cases h
  | child p n ih =>
    rcases h with rfl | h
    · exact hid
    · obtain ⟨t, ht, -⟩ := hs.thread p n hid
      exact ih h (by rw [ht]; rfl)

theorem Counted.le_spawned_of_under {n : Nat} (hs : s.Counted) (ht : s.thread id = some t)
    (h : other.Under (.child id n)) (hother : (s.thread other).isSome) : n ≤ t.spawned := by
  obtain ⟨t', ht', hle⟩ := hs.thread id n (hs.isSome_of_under h hother)
  cases ht.symm.trans ht'
  exact hle

/-- What a thread holds when it spawns a task is before the task. -/
theorem Counted.before_child (hs : s.Counted) (ht : s.thread id = some t) (x : CellId)
    (hx : s.before id x) : s.before (.child id (t.spawned + 1)) x := by
  obtain ⟨u, hx, hu, hbelow | hleft⟩ := hx
  · obtain ⟨n, hunder⟩ := hbelow.exists_under_child
    have hle := hs.le_spawned_of_under ht hunder hu
    exact ⟨u, hx, hu, .inr ⟨id, n, t.spawned + 1, Nat.lt_succ_of_le hle, hunder, .inl rfl⟩⟩
  · exact ⟨u, hx, hu, .inr (hleft.to_under (ThreadId.child_below _ _).under)⟩

/-- A cell that a thread holds is that of a task before it, and is written to once the task has
delivered. -/
theorem Ordered.task_of_before {x : CellId} (hs : s.Ordered) (hx : s.before id x) :
    ∃ u tu c, s.thread u = some tu ∧ u.Before id ∧ s.cell x = some c ∧
      tu.delivery.isSome ∧ c.outcome.isSome = tu.delivered.isSome := by
  obtain ⟨u, rfl, hu, hbefore⟩ := hx
  obtain ⟨tu, htu⟩ := Option.isSome_iff_exists.1 hu
  cases u with
  | main => exact absurd hbefore (ThreadId.not_main_before id)
  | helper n =>
    rw [hs.no_helper n] at htu
    cases htu
  | child p n =>
    obtain ⟨hdelivery, c, hc, hstored⟩ := hs.task p n tu htu
    exact ⟨_, tu, c, htu, hbefore, hc, hdelivery, hstored⟩

/-! ### The invariant is kept -/

theorem isSome_after_thread (hs : s.Counted) (ht : s.thread id = some t)
    (hm : t.Moves stack s.cell id m) (u : ThreadId) (hu : (s.thread u).isSome) :
    ((s.after id m).thread u).isSome := by
  obtain ⟨t', ht'⟩ := Option.isSome_iff_exists.1 hu
  obtain ⟨t'', ht'', -⟩ := exists_after_thread hs ht hm ht'
  rw [ht'']
  rfl

theorem isSome_after_spawn {work : Work} {rest : ThreadId → Prog Work Result}
    (hm : t.Moves stack s.cell id m) (hrest : t.rest = .spawn work rest) :
    ((s.after id m).thread (.child id (t.spawned + 1))).isSome := by
  have hne : ThreadId.child id (t.spawned + 1) ≠ id := ThreadId.child_ne _ _
  cases hm <;> simp_all [Thread.outcome?, System.after, Move.started?]

theorem Counted.outcome_after {x : CellId} {c : Cell} (hs : s.Counted) (ht : s.thread id = some t)
    (hm : t.Moves stack s.cell id m) (hx : s.cell x = some c) :
    ∃ c', (s.after id m).cell x = some c' ∧
      ((c'.outcome = c.outcome ∧ ∀ o, m.change ≠ .put x o) ∨
        ∃ o, m.change = .put x o ∧ c'.outcome = some o) := by
  rcases (hs.fits ht hm).on_cases hx with ⟨htake, -, hon⟩ | ⟨o, hput, -, hon⟩ | ⟨hne, hon⟩
  · refine ⟨_, hon, .inl ⟨rfl, fun o h => ?_⟩⟩
    rw [htake] at h
    cases h
  · exact ⟨_, hon, .inr ⟨o, hput, rfl⟩⟩
  · refine ⟨_, hon, .inl ⟨rfl, fun o h => hne ?_⟩⟩
    rw [h]
    rfl

theorem outcome_of_new {x : CellId} {c : Cell} (hx : s.cell x = none)
    (hnew : (s.after id m).cell x = some c) : c.outcome = none := by
  by_cases h : m.change.cell? = some x
  · cases hchange : m.change with
    | keep => simp [hchange, Change.cell?] at h
    | take y | put y o =>
      simp only [hchange, Change.cell?, Option.some.injEq] at h
      simp [after, hchange, Change.on, h, hx] at hnew
    | make y label =>
      simp only [hchange, Change.cell?, Option.some.injEq] at h
      simp only [after, hchange, Change.on, h, if_true, Option.some.injEq] at hnew
      rw [← hnew]
  · have hkept : s.cell x = some c := (Change.on_of_ne h).symm.trans hnew
    rw [hx] at hkept
    cases hkept

namespace Ordered

theorem due_empty {d : Delivery} (hs : s.Ordered) (ht : s.thread id = some t)
    (hdue : t.due? = some d) :
    d.cell = .task id ∧ ∃ c, s.cell (.task id) = some c ∧ c.outcome = none := by
  have hd := Thread.delivery_of_due? hdue
  refine ⟨hs.delivery id t d ht hd, ?_⟩
  cases id with
  | main =>
    rw [hs.main t ht] at hd
    cases hd
  | helper n =>
    rw [hs.no_helper n] at ht
    cases ht
  | child p n =>
    obtain ⟨-, c, hc, hstored⟩ := hs.task p n t ht
    refine ⟨c, hc, ?_⟩
    unfold Thread.due? at hdue
    split at hdue
    case h_1 hnone =>
      rw [hnone] at hstored
      simpa using hstored
    case h_2 => cases hdue

theorem delivered_eq (hs : s.Ordered) (ht : s.thread id = some t)
    (hm : t.Moves stack s.cell id m) (hput : ∀ x o, m.change ≠ .put x o) :
    m.thread.delivered = t.delivered := by
  cases hm with
  | print | spawn | take | refuse | receive => rfl
  | deliver => exact absurd rfl (hput _ _)
  | late hended hdue hcell hwritten =>
    obtain ⟨hown, c, hc, hempty⟩ := hs.due_empty ht hdue
    rw [hown, hc] at hcell
    cases hcell
    rw [hempty] at hwritten
    cases hwritten
  | lost hended hdue hcell =>
    obtain ⟨hown, c, hc, -⟩ := hs.due_empty ht hdue
    rw [hown, hc] at hcell
    cases hcell

theorem finite_after (hs : s.Ordered) (hm : t.Moves stack s.cell id m) :
    {other | ((s.after id m).thread other).isSome}.Finite := by
  refine ((hs.finite.insert (.child id (t.spawned + 1))).insert id).subset ?_
  intro other hother
  obtain ⟨t', ht'⟩ := Option.isSome_iff_exists.1 hother
  rcases after_thread_eq_some ht' with ⟨hid, -⟩ | ⟨-, hstart⟩ | ⟨-, hthread⟩
  · exact .inl hid
  · exact .inr (.inl (hm.of_start hstart).1)
  · exact .inr (.inr (by simp [hthread]))

theorem stored_after (hs : s.Ordered) (ht : s.thread id = some t)
    (hm : t.Moves stack s.cell id m) (u : ThreadId) (c : Cell) (v : Value)
    (hcell : (s.after id m).cell (.task u) = some c) (hv : c.outcome = some (.ok v)) :
    v.Within (s.before u) := by
  cases hold : s.cell (.task u) with
  | none =>
    rw [outcome_of_new hold hcell] at hv
    cases hv
  | some c₀ =>
    obtain ⟨c', hc', ⟨hsame, -⟩ | ⟨o, hput, ho⟩⟩ := hs.outcome_after ht hm hold
    · cases hcell.symm.trans hc'
      exact hs.stored u c₀ v hold (by rw [← hsame, hv])
    · cases hcell.symm.trans hc'
      cases hv.symm.trans ho
      obtain ⟨hended, d, hdue, hd, -⟩ := hm.of_put hput
      have hown := hs.delivery id t d ht (Thread.delivery_of_due? hdue)
      cases hd.symm.trans hown
      exact Thread.within_outcome (hs.confined id t ht) hended

theorem task_after (hs : s.Ordered) (ht : s.thread id = some t)
    (hm : t.Moves stack s.cell id m) (p : ThreadId) (n : Nat) (t' : Thread)
    (ht' : (s.after id m).thread (.child p n) = some t') : t'.delivery.isSome ∧
      ∃ c, (s.after id m).cell (.task (.child p n)) = some c ∧
        c.outcome.isSome = t'.delivered.isSome := by
  rcases after_thread_eq_some ht' with ⟨rfl, rfl⟩ | ⟨-, hstart⟩ | ⟨hne, hthread⟩
  · obtain ⟨hdelivery, c, hc, hstored⟩ := hs.task p n t ht
    rw [hm.delivery_eq]
    refine ⟨hdelivery, ?_⟩
    obtain ⟨c', hc', ⟨hsame, hput⟩ | ⟨o, hput, ho⟩⟩ := hs.outcome_after ht hm hc
    · refine ⟨c', hc', ?_⟩
      have hkept : ∀ x o, m.change ≠ .put x o := by
        intro x o h
        obtain ⟨-, d, hdue, hd, -⟩ := hm.of_put h
        rw [← hd, hs.delivery _ t d ht (Thread.delivery_of_due? hdue)] at h
        exact hput o h
      rw [hsame, hstored, hs.delivered_eq ht hm hkept]
    · obtain ⟨-, d, -, -, hdelivered⟩ := hm.of_put hput
      exact ⟨c', hc', by rw [ho, hdelivered]; rfl⟩
  · obtain ⟨-, -, hmake, work, rest, -, rfl⟩ := hm.of_start hstart
    refine ⟨rfl, { label := .text (ThreadId.child p n).label }, ?_, rfl⟩
    simp [System.after, hmake, Change.on]
  · obtain ⟨hdelivery, c, hc, hstored⟩ := hs.task p n t' hthread
    refine ⟨hdelivery, ?_⟩
    obtain ⟨c', hc', ⟨hsame, -⟩ | ⟨o, hput, -⟩⟩ := hs.outcome_after ht hm hc
    · exact ⟨c', hc', by rw [hsame, hstored]⟩
    · obtain ⟨-, d, hdue, hd, -⟩ := hm.of_put hput
      have hown := hs.delivery id t d ht (Thread.delivery_of_due? hdue)
      exact absurd (CellId.task.inj (hd.symm.trans hown)) hne

theorem confined_after (hs : s.Ordered) (ht : s.thread id = some t)
    (hm : t.Moves stack s.cell id m) (hother : (s.after id m).thread other = some t') :
    t'.rest.Confined Result.Within ((s.after id m).before other) := by
  have hmono : ∀ u x, s.before u x → (s.after id m).before u x :=
    before_mono (isSome_after_thread hs.toCounted ht hm)
  have hconfined := hs.confined id t ht
  rcases after_thread_eq_some hother with ⟨rfl, rfl⟩ | ⟨-, hstart⟩ | ⟨-, hthread⟩
  · refine hm.confined hconfined (hmono _) ?_ ?_
    · intro work rest hrest
      exact ⟨_, rfl, isSome_after_spawn hm hrest, .inl (ThreadId.child_below _ _)⟩
    · rintro x c v ⟨u, rfl, -, hbefore⟩ hc hv
      have hwithin := hs.stored u c v hc hv
      exact (hwithin.mono (before_trans hbefore)).mono (hmono _)
  · obtain ⟨rfl, -, -, work, rest, hrest, rfl⟩ := hm.of_start hstart
    rw [hrest] at hconfined
    obtain ⟨⟨hexpr, henv⟩, -⟩ := hconfined
    have hle : ∀ x, s.before id x → (s.after id m).before (.child id (t.spawned + 1)) x :=
      fun x hx => hmono _ x (hs.before_child ht x hx)
    exact confines_eval stack.depth stack.room _ _ _ _ (henv.mono hle) (hexpr.mono hle)
  · exact (hs.confined other t' hthread).mono (fun r hr => hr.mono (hmono other)) (hmono other)

theorem after (hs : s.Ordered) (ht : s.thread id = some t) (hm : t.Moves stack s.cell id m) :
    (s.after id m).Ordered where
  toCounted := hs.toCounted.after ht hm
  finite := hs.finite_after hm
  no_helper n := by
    cases hhelper : (s.after id m).thread (.helper n) with
    | none => rfl
    | some t' =>
      rcases after_thread_eq_some hhelper with ⟨rfl, -⟩ | ⟨-, hstart⟩ | ⟨-, hthread⟩
      · rw [hs.no_helper n] at ht
        cases ht
      · cases (hm.of_start hstart).1
      · rw [hs.no_helper n] at hthread
        cases hthread
  main t' ht' := by
    rcases after_thread_eq_some ht' with ⟨rfl, rfl⟩ | ⟨-, hstart⟩ | ⟨-, hthread⟩
    · rw [hm.delivery_eq, hs.main t ht]
    · cases (hm.of_start hstart).1
    · exact hs.main t' hthread
  delivery other t' d ht' hd := by
    rcases delivery_after ht hm ht' hd with ⟨t₀, ht₀, hd₀⟩ | hnew
    · exact hs.delivery other t₀ d ht₀ hd₀
    · exact hnew
  task := hs.task_after ht hm
  stored u c v hc hv :=
    (hs.stored_after ht hm u c v hc hv).mono
      (before_mono (isSome_after_thread hs.toCounted ht hm) u)
  confined _ _ := hs.confined_after ht hm

end Ordered

def tasks (s : System) (x : CellId) : Prop :=
  ∃ p n, x = .task (.child p n) ∧ (s.thread (.child p n)).isSome

theorem ordered_initial : initial.Ordered where
  toCounted := counted_initial
  finite := by
    refine (Set.finite_singleton ThreadId.main).subset fun id hid => ?_
    by_cases h : id = .main
    · exact h
    · simp [initial, h] at hid
  no_helper n := by simp [initial]
  main t ht := by
    cases ht
    rfl
  delivery id t d ht hd := by
    by_cases h : id = .main
    · subst h
      cases ht
      cases hd
    · simp [initial, h] at ht
  task p n t ht := by simp [initial] at ht
  stored id c v hc := by simp [initial, firstCell] at hc
  confined id t ht := by
    by_cases h : id = .main
    · subst h
      cases ht
      exact ⟨by simp [Result.ofValue], fun f hf => absurd hf List.not_mem_nil⟩
    · simp [initial, h] at ht

theorem Ordered.before_main (hs : s.Ordered) (x : CellId) (hx : s.tasks x) :
    s.before .main x := by
  have hbelow : ∀ u : ThreadId, (s.thread u).isSome → u.Under .main := by
    intro u hu
    induction u with
    | main => exact .inl rfl
    | helper n => simp [hs.no_helper n] at hu
    | child p n ih =>
      obtain ⟨t, ht, -⟩ := hs.toCounted.thread p n hu
      exact .inr (ThreadId.child_below_iff.2 (ih (by simp [ht])))
  obtain ⟨p, n, hx, hu⟩ := hx
  rcases hbelow _ hu with h | h
  · cases h
  · exact ⟨_, hx, hu, .inl h⟩

/-- Giving the main thread a program keeps the invariant, if the program reaches tasks only. -/
theorem Ordered.setMain {p : Prog Work Result} (hs : s.Ordered) (ht : s.thread .main = some t)
    (hp : p.Confined Result.Within s.tasks) :
    (s.setThread .main { t with rest := p }).Ordered := by
  have hold : ∀ {id t'}, id ≠ .main →
      (s.setThread .main { t with rest := p }).thread id = some t' → s.thread id = some t' := by
    intro id t' hne h
    simpa [hne] using h
  have hparent : ∀ q n, (∃ t', s.thread q = some t' ∧ n ≤ t'.spawned) →
      ∃ t', (s.setThread .main { t with rest := p }).thread q = some t' ∧ n ≤ t'.spawned := by
    rintro q n ⟨t', ht', hle⟩
    by_cases h : q = .main
    · subst h
      cases ht.symm.trans ht'
      exact ⟨{ t with rest := p }, by simp, hle⟩
    · exact ⟨t', by simp [h, ht'], hle⟩
  have hisSome : ∀ id, ((s.setThread .main { t with rest := p }).thread id).isSome =
      (s.thread id).isSome := by
    intro id
    by_cases h : id = .main
    · simp [h, ht]
    · simp [h]
  have hmono : ∀ id x, s.before id x → (s.setThread .main { t with rest := p }).before id x :=
    before_mono fun u hu => by rwa [hisSome]
  have hmain : ∀ {t'}, (s.setThread .main { t with rest := p }).thread .main = some t' →
      t' = { t with rest := p } := by
    intro t' h
    simpa using h.symm
  exact
    { thread := fun q n h => hparent q n (hs.thread q n (by rwa [hisSome] at h))
      cell := fun q n h => hparent q n (hs.cell q n h)
      finite := by simpa only [hisSome] using hs.finite
      no_helper := fun n => by simp [hs.no_helper n]
      main := fun t' ht' => by rw [hmain ht', ← hs.main t ht]
      delivery := by
        intro id t' d ht' hd
        by_cases h : id = .main
        · subst h
          rw [hmain ht'] at hd
          exact hs.delivery _ t d ht hd
        · exact hs.delivery id t' d (hold h ht') hd
      task := fun q n t' ht' => hs.task q n t' (hold (by simp) ht')
      stored := fun id c v hc hv => (hs.stored id c v hc hv).mono (hmono id)
      confined := by
        intro id t' ht'
        by_cases h : id = .main
        · subst h
          rw [hmain ht']
          have hle : ∀ x, s.tasks x → (s.setThread .main { t with rest := p }).before .main x :=
            fun x hx => hmono .main x (hs.before_main x hx)
          exact hp.mono (fun r hr => hr.mono hle) hle
        · exact (hs.confined id t' (hold h ht')).mono (fun r hr => hr.mono (hmono id))
            (hmono id) }

end System

end ForkJoin

import ForkJoin.Proofs.Run.Ordered
import ForkJoin.Proofs.Run.Served

/-!
# Threads that an evaluation leaves aside

The threads of an evaluation are the main thread and the tasks that are spawned from its start on.
Other threads go on meanwhile, those of earlier evaluations and those that write to cells from
outside. They cannot know of the new tasks: a thread only ever holds cells that it started with or
was handed, and in a session these are cells from outside or of tasks that were there before. So
they never claim the cell of a new task (`System.Aloof`).
-/

namespace ForkJoin

/-- The tasks that the main thread spawns after some first ones, and those below them. -/
def ThreadId.NewTask (k : Nat) (id : ThreadId) : Prop :=
  ∃ n, k < n ∧ id.Under (.child .main n)

def ThreadId.Evaluates (k : Nat) (id : ThreadId) : Prop :=
  id = .main ∨ id.NewTask k

def CellId.Older (k : Nat) (x : CellId) : Prop :=
  ∀ u, x = .task u → ¬ u.NewTask k

namespace ThreadId

variable {k n : Nat} {id : ThreadId}

theorem Evaluates.child (h : id.Evaluates k) (hn : id = .main → k < n) :
    (ThreadId.child id n).Evaluates k := by
  rcases h with rfl | ⟨m, hm, hunder⟩
  · exact .inr ⟨n, hn rfl, .inl rfl⟩
  · exact .inr ⟨m, hm, .inr (child_below_iff.2 hunder)⟩

theorem Evaluates.of_child (h : (ThreadId.child id n).Evaluates k) : id.Evaluates k := by
  rcases h with h | ⟨m, hm, h | h⟩
  · cases h
  · exact .inl (child.inj h).1
  · exact .inr ⟨m, hm, child_below_iff.1 h⟩

theorem not_newTask_main (k : Nat) : ¬ ThreadId.main.NewTask k := by
  rintro ⟨n, -, h | h⟩ <;> cases h

end ThreadId

namespace System

variable {stack : Stack} {out : Provided} {s s' : System} {id : ThreadId} {t : Thread} {m : Move}
  {k : Nat}

theorem Counted.not_newTask (hs : s.Counted) (ht : s.thread .main = some t)
    (hid : (s.thread id).isSome) : ¬ id.NewTask t.spawned := by
  rintro ⟨n, hn, hunder⟩
  exact absurd (hs.le_spawned_of_under ht hunder hid) (Nat.not_le_of_lt hn)

theorem Counted.not_newTask_of_cell (hs : s.Counted) (ht : s.thread .main = some t)
    (hid : (s.cell (.task id)).isSome) : ¬ id.NewTask t.spawned := by
  rintro ⟨n, hn, hunder⟩
  cases id with
  | main | helper m => rcases hunder with h | h <;> cases h
  | child p m =>
    obtain ⟨tp, htp, hle⟩ := hs.cell p m hid
    rcases hunder with h | h
    · cases h
      cases ht.symm.trans htp
      omega
    · exact hs.not_newTask ht (by rw [htp]; rfl) ⟨n, hn, h⟩

/-! ### Systems that are confined -/

/-- Some threads are confined to some cells, and what is stored in some cells mentions those
only. -/
structure Confined (threads : ThreadId → Prop) (stores cells : CellId → Prop) (s : System) :
    Prop where
  thread : ∀ id t, threads id → s.thread id = some t → t.rest.Confined Result.Within cells
  stored : ∀ x c v, stores x → s.cell x = some c → c.outcome = some (.ok v) → v.Within cells

variable {threads : ThreadId → Prop} {stores cells more : CellId → Prop}

namespace Confined

/-- A move keeps a system confined, among more cells, if a thread of the collection knows what it
spawns, and if any other thread starts no thread of the collection and delivers elsewhere. -/
theorem after (hs : s.Confined threads stores cells) (ht : s.thread id = some t)
    (hm : t.Moves stack s.cell id m) (hstores : ∀ x, cells x → stores x)
    (hle : ∀ x, cells x → more x)
    (hinside : threads id → ∀ work rest, t.rest = .spawn work rest →
      more (.task (.child id (t.spawned + 1))))
    (hchild : threads (.child id (t.spawned + 1)) → threads id)
    (hdue : ¬ threads id → ∀ d, t.due? = some d → ¬ stores d.cell) :
    (s.after id m).Confined threads stores more where
  thread other t' hother ht' := by
    rcases after_thread_eq_some ht' with ⟨rfl, rfl⟩ | ⟨-, hstart⟩ | ⟨-, hthread⟩
    · refine hm.confined (hs.thread other t hother ht) hle (hinside hother) ?_
      exact fun x c v hx hc hv => (hs.stored x c v (hstores x hx) hc hv).mono hle
    · obtain ⟨rfl, -, -, work, rest, hrest, rfl⟩ := hm.of_start hstart
      have hconfined := hs.thread id t (hchild hother) ht
      rw [hrest] at hconfined
      obtain ⟨⟨hexpr, henv⟩, -⟩ := hconfined
      exact confines_eval stack.depth stack.room _ _ _ _ (henv.mono hle) (hexpr.mono hle)
    · exact (hs.thread other t' hother hthread).mono (fun r hr => hr.mono hle) hle
  stored x c v hx hc hv := by
    rcases outcome_after_cases hm hc hv with ⟨c₀, hc₀, hv⟩ | ⟨hended, d, hd, rfl⟩
    · exact (hs.stored x c₀ v hx hc₀ hv).mono hle
    · by_cases hid : threads id
      · exact (Thread.within_outcome (hs.thread id t hid ht) hended).mono hle
      · exact absurd hx (hdue hid d hd)

end Confined

theorem Known.after (hs : s.Counted) (ht : s.thread id = some t)
    (hm : t.Moves stack s.cell id m) (x : CellId) (hx : s.Known x) : (s.after id m).Known x := by
  cases x with
  | external => exact trivial
  | task u => exact isSome_after_thread hs ht hm u hx

/-- In a session every thread is confined to the cells that are known, and so is what is stored. -/
theorem Served.confined (hout : out.WellFormed) (hs : Served stack out s) :
    s.Confined (fun _ => True) (fun _ => True) s.Known := by
  induction hs with
  | launch =>
    have houtside : ∀ x, CellId.Outside x →
        (System.launch out (.done (.ofValue (.vec [])))).Known x := by
      intro x hx
      cases x with
      | external => exact trivial
      | task u => exact hx.elim
    refine ⟨fun id t _ ht => ?_, fun x c v _ hc hv => ?_⟩
    · cases id with
      | main =>
        cases ht
        exact Result.within_ofValue (by simp)
      | helper n =>
        obtain ⟨⟨name, generation, o⟩, hwriter, rfl⟩ := Option.map_eq_some_iff.1 ht
        cases o with
        | ok v =>
          exact Result.within_ofValue ((hout.writer n name generation v hwriter).2.mono houtside)
        | error e => exact trivial
      | child p n => cases ht
    · cases x with
      | external name generation =>
        exact (hout.cell name generation c v hc hv).2.mono houtside
      | task u => cases hc
  | @evaluate s t ctx env e hs ht hover henv he hknown hknown' ih =>
    have hle : ∀ x, s.Known x →
        (s.setThread .main { t with rest := stack.eval ctx env e }).Known x := by
      intro x hx
      cases x with
      | external => exact trivial
      | task u =>
        by_cases hu : u = .main
        · simp [Known, hu]
        · simpa [Known, hu] using hx
    refine ⟨fun id t' _ ht' => ?_, fun x c v _ hc hv => (ih.stored x c v trivial hc hv).mono hle⟩
    rw [thread_setThread] at ht'
    split at ht'
    · cases ht'
      exact confines_eval stack.depth stack.room ctx env e _ (hknown.mono hle) (hknown'.mono hle)
    · exact (ih.thread id t' trivial ht').mono (fun r hr => hr.mono hle) hle
  | @step s s' id hs hstep ih =>
    obtain ⟨t, m, ht, hm, rfl⟩ := step_eq_some_iff.1 hstep
    have hcounted := (hs.serving hout).toCounted
    refine ih.after ht hm (fun _ _ => trivial) (Known.after hcounted ht hm) ?_ (fun _ => trivial)
      fun h => absurd trivial h
    exact fun _ work rest hrest => isSome_after_spawn hm hrest

/-! ### Aloof threads -/

def Aloof (k : Nat) (s : System) : Prop :=
  s.Confined (fun id => ¬ id.Evaluates k) (CellId.Older k) (CellId.Older k)

theorem Served.aloof (hout : out.WellFormed) (hs : Served stack out s)
    (ht : s.thread .main = some t) (p : Prog Work Result) :
    (s.setThread .main { t with rest := p }).Aloof t.spawned := by
  have hconfined := hs.confined hout
  have hle : ∀ x, s.Known x → x.Older t.spawned := by
    rintro x hx u rfl
    exact (hs.serving hout).toCounted.not_newTask ht hx
  refine ⟨fun id t' hid ht' => ?_, fun x c v _ hc hv => ?_⟩
  · have hne : id ≠ .main := fun hmain => hid (.inl hmain)
    rw [thread_setThread, if_neg hne] at ht'
    exact (hconfined.thread id t' trivial ht').mono (fun r hr => hr.mono hle) hle
  · exact (hconfined.stored x c v trivial hc hv).mono hle

namespace Aloof

/-- Steps keep the threads outside an evaluation aloof, if the tasks of the evaluation deliver to
their own cells and the main thread keeps what it ends with. -/
theorem after (hs : s.Aloof k) (ht : s.thread id = some t) (hm : t.Moves stack s.cell id m)
    (hspawned : id = .main → k ≤ t.spawned)
    (hdue : ∀ d, t.due? = some d → id.Evaluates k → id ≠ .main ∧ d.cell = .task id) :
    (s.after id m).Aloof k := by
  refine Confined.after hs ht hm (fun _ hx => hx) (fun _ hx => hx) ?_ ?_ ?_
  · rintro hid work rest - u hu hnew
    cases hu
    exact hid (ThreadId.Evaluates.of_child (.inr hnew))
  · exact fun hchild hid => hchild (hid.child fun hmain => Nat.lt_succ_of_le (hspawned hmain))
  · intro hid d hd holder
    obtain ⟨hne, hcell⟩ := hdue d hd (not_not.1 hid)
    exact holder id hcell ((not_not.1 hid).resolve_left hne)

theorem cell_after (hs : s.Aloof k) (hsound : s.Sound) (ht : s.thread id = some t)
    (hm : t.Moves stack s.cell id m) (hid : ¬ id.Evaluates k) {u : ThreadId}
    (hu : u.NewTask k) : (s.after id m).cell (.task u) = s.cell (.task u) := by
  refine Change.on_of_ne fun hcell => ?_
  have hconfined := hs.thread id t hid ht
  cases hchange : m.change with
  | keep => simp [hchange, Change.cell?] at hcell
  | take x =>
    simp only [hchange, Change.cell?, Option.some.injEq] at hcell
    subst hcell
    cases hm with
    | take hrest =>
      cases hchange
      rw [hrest] at hconfined
      exact hconfined.1 u rfl hu
    | print | spawn | refuse | receive | deliver | late | lost => cases hchange
  | put x o =>
    simp only [hchange, Change.cell?, Option.some.injEq] at hcell
    subst hcell
    obtain ⟨-, d, hdue, hd, -⟩ := hm.of_put hchange
    have hown := hsound.own id t d u ht (Thread.delivery_of_due? hdue) hd
    exact hid (.inr (hown ▸ hu))
  | make x label =>
    simp only [hchange, Change.cell?, Option.some.injEq] at hcell
    subst hcell
    have hnew := (hm.of_make hchange).1
    exact hid (ThreadId.Evaluates.of_child (.inr (CellId.task.inj hnew ▸ hu)))

end Aloof

end System

end ForkJoin

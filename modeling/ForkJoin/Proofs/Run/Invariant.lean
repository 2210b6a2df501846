import ForkJoin.Proofs.Run

/-!
# What every step keeps

Names of tasks are counted out by the threads that spawn them, so a new name is one that nothing has
yet: `System.Counted` says that every task and every cell of a task was counted, and every step
keeps it so. From it follows the frame of a step, that other threads are left as they are, and that
cells only grow: the label of a cell stays, and so do what was written to it and that it was
claimed.
-/

namespace ForkJoin

theorem Move.started?_eq_some_iff {m : Move} {id : ThreadId} {t : Thread} :
    m.started? id = some t ↔ m.start = some (id, t) := by
  cases hstart : m.start with
  | none => simp [started?, hstart]
  | some new =>
    obtain ⟨new, t'⟩ := new
    by_cases h : id = new
    · simp [started?, hstart, h]
    · simp [started?, hstart, h, Ne.symm h]

namespace Thread.Moves

variable {stack : Stack} {cell : CellId → Option Cell} {id : ThreadId} {t : Thread} {m : Move}

theorem delivery_eq (hm : t.Moves stack cell id m) : m.thread.delivery = t.delivery := by
  cases hm <;> first | rfl | exact announced_delivery _ _ _

theorem delivered_eq (hm : t.Moves stack cell id m) (h : t.outcome? = none) :
    m.thread.delivered = t.delivered := by
  cases hm with
  | print | spawn | take | refuse | receive => rfl
  | deliver hended | late hended | lost hended =>
    rw [h] at hended
    cases hended

theorem spawned_le (hm : t.Moves stack cell id m) : t.spawned ≤ m.thread.spawned := by
  cases hm with
  | print | take | refuse | receive => exact Nat.le_refl _
  | spawn => exact Nat.le_succ _
  | deliver | late | lost => exact Nat.le_of_eq (announced_spawned _ _ _).symm

theorem of_start {other : ThreadId} {t' : Thread} (hm : t.Moves stack cell id m)
    (h : m.start = some (other, t')) : other = .child id (t.spawned + 1) ∧
      m.thread.spawned = t.spawned + 1 ∧ m.change = .make (.task other) (.text other.label) ∧
      ∃ work rest, t.rest = .spawn work rest ∧ t' = .task stack other work := by
  cases hm with
  | spawn hrest =>
    cases h
    exact ⟨rfl, rfl, rfl, _, _, hrest, rfl⟩
  | print | take | refuse | receive | deliver | late | lost => cases h

theorem of_make {x : CellId} {label : Datum} (hm : t.Moves stack cell id m)
    (h : m.change = .make x label) :
    x = .task (.child id (t.spawned + 1)) ∧ m.thread.spawned = t.spawned + 1 := by
  cases hm with
  | spawn =>
    cases h
    exact ⟨rfl, rfl⟩
  | print | take | refuse | receive | deliver | late | lost => cases h

theorem started?_eq_none {other : ThreadId} (hm : t.Moves stack cell id m)
    (hother : other ≠ .child id (t.spawned + 1)) : m.started? other = none := by
  cases hstarted : m.started? other with
  | none => rfl
  | some t' => exact absurd (hm.of_start (Move.started?_eq_some_iff.1 hstarted)).1 hother

theorem of_put {x : CellId} {o : Outcome} (hm : t.Moves stack cell id m)
    (h : m.change = .put x o) : t.outcome? = some o ∧
      ∃ d, t.due? = some d ∧ d.cell = x ∧ m.thread.delivered = some (.ok ()) := by
  cases hm with
  | deliver hended hdue =>
    cases h
    exact ⟨hended, _, hdue, rfl, rfl⟩
  | print | spawn | take | refuse | receive | late | lost => cases h

end Thread.Moves

/-! ### Cells grow -/

structure Cell.Later (c c' : Cell) : Prop where
  label : c'.label = c.label
  outcome : ∀ o, c.outcome = some o → c'.outcome = some o
  claimed : c.claimed = true → c'.claimed = true

theorem Cell.Later.refl (c : Cell) : c.Later c :=
  ⟨rfl, fun _ h => h, fun h => h⟩

namespace Change

def cell? : Change → Option CellId
  | .keep => none
  | .take x | .put x _ | .make x _ => some x

/-- Whether a change can be made: what is claimed is free, what is written to is empty, and what is
made is new. -/
def Fits (cell : CellId → Option Cell) : Change → Prop
  | .keep => True
  | .take x => ∃ c, cell x = some c ∧ c.claimed = false
  | .put x _ => ∃ c, cell x = some c ∧ c.outcome = none
  | .make x _ => cell x = none

variable {cell : CellId → Option Cell} {change : Change} {x : CellId} {c : Cell}

theorem on_of_ne (h : change.cell? ≠ some x) : change.on cell x = cell x := by
  cases change with
  | keep => rfl
  | take y | put y o | make y label =>
    have hne : x ≠ y := fun hx => h (hx ▸ rfl)
    simp [on, hne]

theorem Fits.on_cases (hfits : change.Fits cell) (hx : cell x = some c) :
    (change = .take x ∧ c.claimed = false ∧
        change.on cell x = some { c with claimed := true }) ∨
      (∃ o, change = .put x o ∧ c.outcome = none ∧
        change.on cell x = some { c with outcome := some o }) ∨
      (change.cell? ≠ some x ∧ change.on cell x = some c) := by
  by_cases h : change.cell? = some x
  · cases change with
    | keep => cases h
    | take y =>
      cases h
      obtain ⟨c', hx', hfree⟩ := hfits
      cases hx.symm.trans hx'
      exact .inl ⟨rfl, hfree, by simp [on, hx]⟩
    | put y o =>
      cases h
      obtain ⟨c', hx', hempty⟩ := hfits
      cases hx.symm.trans hx'
      exact .inr (.inl ⟨o, rfl, hempty, by simp [on, hx]⟩)
    | make y label =>
      cases h
      exact absurd (hx.symm.trans hfits) (by simp)
  · exact .inr (.inr ⟨h, (on_of_ne h).trans hx⟩)

theorem Fits.later (hfits : change.Fits cell) (hx : cell x = some c) :
    ∃ c', change.on cell x = some c' ∧ c.Later c' := by
  rcases hfits.on_cases hx with ⟨-, -, hon⟩ | ⟨o, -, hempty, hon⟩ | ⟨-, hon⟩
  · exact ⟨_, hon, rfl, fun _ ho => ho, fun _ => rfl⟩
  · refine ⟨_, hon, rfl, fun o' ho' => ?_, fun h => h⟩
    rw [hempty] at ho'
    cases ho'
  · exact ⟨c, hon, .refl c⟩

end Change

/-! ### Counted tasks -/

/-- Every task that is there was counted by the thread that spawned it, and so was every cell of a
task. -/
structure System.Counted (s : System) : Prop where
  thread : ∀ p n, (s.thread (.child p n)).isSome → ∃ t, s.thread p = some t ∧ n ≤ t.spawned
  cell : ∀ p n, (s.cell (.task (.child p n))).isSome → ∃ t, s.thread p = some t ∧ n ≤ t.spawned

theorem ThreadId.child_ne (id : ThreadId) (n : Nat) : ThreadId.child id n ≠ id := by
  intro h
  have hsize := congrArg sizeOf h
  simp only [ThreadId.child.sizeOf_spec] at hsize
  omega

namespace System

variable {stack : Stack} {s s' : System} {id other : ThreadId} {t t' : Thread} {m : Move}

theorem counted_initial : initial.Counted where
  thread p n h := by simp [initial] at h
  cell p n h := by simp [initial, firstCell] at h

namespace Counted

theorem thread_new (hs : s.Counted) (ht : s.thread id = some t) :
    s.thread (.child id (t.spawned + 1)) = none := by
  rw [← Option.not_isSome_iff_eq_none]
  intro h
  obtain ⟨t', ht', hle⟩ := hs.thread _ _ h
  cases ht.symm.trans ht'
  omega

theorem cell_new (hs : s.Counted) (ht : s.thread id = some t) :
    s.cell (.task (.child id (t.spawned + 1))) = none := by
  rw [← Option.not_isSome_iff_eq_none]
  intro h
  obtain ⟨t', ht', hle⟩ := hs.cell _ _ h
  cases ht.symm.trans ht'
  omega

theorem fits (hs : s.Counted) (ht : s.thread id = some t) (hm : t.Moves stack s.cell id m) :
    m.change.Fits s.cell := by
  cases hm with
  | print | refuse | receive | late | lost => exact trivial
  | spawn => exact hs.cell_new ht
  | take _ hcell hfree => exact ⟨_, hcell, hfree⟩
  | deliver _ _ hcell hempty => exact ⟨_, hcell, hempty⟩

end Counted

theorem after_thread_self : (s.after id m).thread id = some m.thread := by
  simp [after]

/-- A thread after a move: the one that moved, one that was started, or one as it was before. -/
theorem after_thread_eq_some (hother : (s.after id m).thread other = some t') :
    (other = id ∧ t' = m.thread) ∨ (other ≠ id ∧ m.start = some (other, t')) ∨
      (other ≠ id ∧ s.thread other = some t') := by
  by_cases hid : other = id
  · subst hid
    exact .inl ⟨rfl, (Option.some.inj (after_thread_self.symm.trans hother)).symm⟩
  · simp only [after, hid, if_false, Option.or_eq_some_iff] at hother
    rcases hother with hstarted | ⟨-, hthread⟩
    · exact .inr (.inl ⟨hid, Move.started?_eq_some_iff.1 hstarted⟩)
    · exact .inr (.inr ⟨hid, hthread⟩)

theorem after_thread_of_ne (hs : s.Counted) (ht : s.thread id = some t)
    (hm : t.Moves stack s.cell id m) (hne : other ≠ id) (hother : s.thread other = some t') :
    (s.after id m).thread other = some t' := by
  have hstarted : m.started? other = none := by
    refine hm.started?_eq_none fun hnew => ?_
    rw [hnew, hs.thread_new ht] at hother
    cases hother
  simp [after, hne, hstarted, hother]

/-- A delivery after a move was to be made before the move, or is that of a new task to its
cell. -/
theorem delivery_after {d : Delivery} (ht : s.thread id = some t)
    (hm : t.Moves stack s.cell id m) (hother : (s.after id m).thread other = some t')
    (hd : t'.delivery = some d) :
    (∃ t₀, s.thread other = some t₀ ∧ t₀.delivery = some d) ∨ d.cell = .task other := by
  rcases after_thread_eq_some hother with ⟨rfl, rfl⟩ | ⟨-, hstart⟩ | ⟨-, hthread⟩
  · exact .inl ⟨t, ht, by rw [← hm.delivery_eq, hd]⟩
  · obtain ⟨-, -, -, work, rest, -, rfl⟩ := hm.of_start hstart
    cases hd
    exact .inr rfl
  · exact .inl ⟨t', hthread, hd⟩

theorem exists_after_thread (hs : s.Counted) (ht : s.thread id = some t)
    (hm : t.Moves stack s.cell id m) (hother : s.thread other = some t') :
    ∃ t'', (s.after id m).thread other = some t'' ∧ t'.spawned ≤ t''.spawned := by
  by_cases hne : other = id
  · subst hne
    cases ht.symm.trans hother
    exact ⟨m.thread, after_thread_self, hm.spawned_le⟩
  · exact ⟨t', after_thread_of_ne hs ht hm hne hother, Nat.le_refl _⟩

theorem Counted.after (hs : s.Counted) (ht : s.thread id = some t)
    (hm : t.Moves stack s.cell id m) : (s.after id m).Counted := by
  have hold : ∀ p n, (∃ t', s.thread p = some t' ∧ n ≤ t'.spawned) →
      ∃ t', (s.after id m).thread p = some t' ∧ n ≤ t'.spawned := by
    rintro p n ⟨t', ht', hle⟩
    obtain ⟨t'', ht'', hle'⟩ := exists_after_thread hs ht hm ht'
    exact ⟨t'', ht'', Nat.le_trans hle hle'⟩
  -- What is new is the task that was just counted, everything else was counted before.
  have hnew : ∀ p n, ThreadId.child p n = .child id (t.spawned + 1) →
      m.thread.spawned = t.spawned + 1 →
      ∃ t', (s.after id m).thread p = some t' ∧ n ≤ t'.spawned := by
    intro p n h hspawned
    obtain ⟨rfl, rfl⟩ := ThreadId.child.inj h
    exact ⟨m.thread, after_thread_self, Nat.le_of_eq hspawned.symm⟩
  refine ⟨fun p n h => ?_, fun p n h => ?_⟩
  · obtain ⟨t', ht'⟩ := Option.isSome_iff_exists.1 h
    rcases after_thread_eq_some ht' with ⟨hid, -⟩ | ⟨-, hstart⟩ | ⟨-, hthread⟩
    · exact hold p n (hs.thread p n (by rw [hid, ht]; rfl))
    · obtain ⟨hother, hspawned, -⟩ := hm.of_start hstart
      exact hnew p n hother hspawned
    · exact hold p n (hs.thread p n (by rw [hthread]; rfl))
  · by_cases hcell : (s.cell (.task (.child p n))).isSome
    · exact hold p n (hs.cell p n hcell)
    · rw [Option.not_isSome_iff_eq_none] at hcell
      cases hchange : m.change with
      | keep => simp [System.after, hchange, Change.on, hcell] at h
      | take x | put x o =>
        by_cases hx : CellId.task (.child p n) = x
        · subst hx
          simp [System.after, hchange, Change.on, hcell] at h
        · simp [System.after, hchange, Change.on, hcell, hx] at h
      | make x label =>
        by_cases hx : CellId.task (.child p n) = x
        · obtain ⟨hother, hspawned⟩ := hm.of_make hchange
          exact hnew p n (CellId.task.inj (hx.trans hother)) hspawned
        · simp [System.after, hchange, Change.on, hcell, hx] at h

/-- A thread can be put in the place of one that has spawned no more tasks. -/
theorem Counted.setThread (hs : s.Counted) (ht : s.thread id = some t)
    (hle : t.spawned ≤ t'.spawned) : (s.setThread id t').Counted := by
  have hold : ∀ p n, (∃ t₁, s.thread p = some t₁ ∧ n ≤ t₁.spawned) →
      ∃ t₁, (s.setThread id t').thread p = some t₁ ∧ n ≤ t₁.spawned := by
    rintro p n ⟨t₁, ht₁, hn⟩
    by_cases hp : p = id
    · subst hp
      cases ht.symm.trans ht₁
      exact ⟨t', by simp, Nat.le_trans hn hle⟩
    · exact ⟨t₁, by simp [hp, ht₁], hn⟩
  refine ⟨fun p n h => hold p n (hs.thread p n ?_), fun p n h => hold p n (hs.cell p n h)⟩
  rw [thread_setThread] at h
  split at h
  case isTrue hid => rw [hid, ht]; rfl
  case isFalse => exact h

theorem Counted.step (hs : s.Counted) (hstep : s.step stack id = some s') : s'.Counted := by
  obtain ⟨t, m, ht, hm, rfl⟩ := step_eq_some_iff.1 hstep
  exact hs.after ht hm

theorem Counted.later_of_step (hs : s.Counted) (hstep : s.step stack id = some s') {x : CellId}
    {c : Cell} (hx : s.cell x = some c) : ∃ c', s'.cell x = some c' ∧ c.Later c' := by
  obtain ⟨t, m, ht, hm, rfl⟩ := step_eq_some_iff.1 hstep
  exact (hs.fits ht hm).later hx

end System

end ForkJoin

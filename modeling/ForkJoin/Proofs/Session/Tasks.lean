import ForkJoin.Proofs.Run.Join
import ForkJoin.Proofs.Serial.Replay
import ForkJoin.Proofs.Session.Stage

/-!
# Tasks in a session

Of all events only the steps of threads touch tasks: the others act on the main thread, on threads
and cells from outside, and on interpreters (`Stage.next_cases`). So a task is changed by its own
steps alone, its cell holds what it has ended with as soon as it has delivered that
(`System.Posted`), and whatever is known of a cell stays true of it.
-/

namespace ForkJoin

/-- What an event that is no step of a thread leaves alone: all tasks and their cells, and whether
a cell is claimed. -/
structure System.Aside (s s' : System) : Prop where
  thread : ∀ p n, s'.thread (.child p n) = s.thread (.child p n)
  spawned : ∀ id t, s.thread id = some t → ∃ t', s'.thread id = some t' ∧ t.spawned ≤ t'.spawned
  delivery : ∀ id t' d, s'.thread id = some t' → t'.delivery = some d →
    ∃ t, s.thread id = some t ∧ t.delivery = some d
  task : ∀ u, s'.cell (.task u) = s.cell (.task u)
  later : ∀ x c, s.cell x = some c → ∃ c', s'.cell x = some c' ∧ c.Later c' ∧
    c'.claimed = c.claimed
  new : ∀ x c', s.cell x = none → s'.cell x = some c' → c'.claimed = false

namespace System.Aside

variable {s : System}

theorem refl (s : System) : s.Aside s where
  thread _ _ := rfl
  spawned _ t ht := ⟨t, ht, Nat.le_refl _⟩
  delivery _ t _ ht hd := ⟨t, ht, hd⟩
  task _ := rfl
  later _ c hx := ⟨c, hx, .refl c, rfl⟩
  new x c hx hx' := by
    rw [hx] at hx'
    cases hx'

theorem setMain (p : Prog Work Result) :
    s.Aside (s.setThread .main { (s.thread .main).getD .idle with rest := p }) where
  thread _ _ := rfl
  spawned id t ht := by
    by_cases hid : id = .main
    · subst hid
      exact ⟨{ t with rest := p }, by simp [ht], Nat.le_refl _⟩
    · exact ⟨t, by rw [thread_setThread, if_neg hid, ht], Nat.le_refl _⟩
  delivery id t' d ht' hd := by
    by_cases hid : id = .main
    · subst hid
      rw [thread_setThread, if_pos rfl] at ht'
      cases ht'
      cases ht : s.thread .main with
      | none =>
        rw [ht] at hd
        cases hd
      | some t =>
        rw [ht] at hd
        exact ⟨t, rfl, hd⟩
    · rw [thread_setThread, if_neg hid] at ht'
      exact ⟨t', ht', hd⟩
  task _ := rfl
  later _ c hx := ⟨c, hx, .refl c, rfl⟩
  new x c hx hx' := by
    rw [cell_setThread, hx] at hx'
    cases hx'

theorem addHelper {n : Nat} (hnew : (s.thread (.helper n)).isSome = false)
    (p : Prog Work Result) : s.Aside (s.setThread (.helper n) { rest := p }) where
  thread _ _ := rfl
  spawned id t ht := by
    by_cases hid : id = .helper n
    · rw [hid] at ht
      rw [ht] at hnew
      cases hnew
    · exact ⟨t, by rw [thread_setThread, if_neg hid, ht], Nat.le_refl _⟩
  delivery id t' d ht' hd := by
    rw [thread_setThread] at ht'
    split at ht'
    · cases ht'
      cases hd
    · exact ⟨t', ht', hd⟩
  task _ := rfl
  later _ c hx := ⟨c, hx, .refl c, rfl⟩
  new x c hx hx' := by
    rw [cell_setThread, hx] at hx'
    cases hx'

theorem setCell {name : Name} {generation : Nat} {c' : Cell}
    (hlater : ∀ c, s.cell (.external name generation) = some c → c.Later c' ∧
      c'.claimed = c.claimed)
    (hnew : s.cell (.external name generation) = none → c'.claimed = false) :
    s.Aside (s.setCell (.external name generation) c') where
  thread _ _ := rfl
  spawned _ t ht := ⟨t, ht, Nat.le_refl _⟩
  delivery _ t _ ht hd := ⟨t, ht, hd⟩
  task _ := rfl
  later x c hx := by
    rw [cell_setCell]
    split
    · rename_i heq
      subst heq
      exact ⟨c', rfl, hlater c hx⟩
    · exact ⟨c, hx, .refl c, rfl⟩
  new x c hx hx' := by
    rw [cell_setCell] at hx'
    split at hx'
    · rename_i heq
      subst heq
      cases hx'
      exact hnew hx
    · rw [hx] at hx'
      cases hx'

end System.Aside

theorem Cell.Later.trans {c c' c'' : Cell} (h : c.Later c') (h' : c'.Later c'') : c.Later c'' :=
  ⟨h'.label.trans h.label, fun o ho => h'.outcome o (h.outcome o ho),
    fun hc => h'.claimed (h.claimed hc)⟩

theorem Cell.later_write {c c' : Cell} {o : Outcome} (h : c.write o = .ok c') :
    c.Later c' ∧ c'.claimed = c.claimed := by
  unfold Cell.write at h
  split at h
  · rename_i hempty
    cases h
    exact ⟨⟨rfl, fun o ho => absurd ho (by simp [hempty]), fun h => h⟩, rfl⟩
  · cases h

namespace Stage

variable {stack : Stack} {tidy : Env → Env} {s s' : Stage} {ev : Event} {evs : List Event}

/-- An event is a step of a thread, which leaves the interpreters as they are, or leaves the tasks
as they are. -/
theorem next_cases (h : s.next stack tidy ev = some s') :
    (∃ id, ev = .step id ∧ s.system.step stack id = some s'.system ∧
        s'.interpreter = s.interpreter) ∨
      ((∀ id, ev ≠ .step id) ∧ s.system.Aside s'.system) := by
  cases ev with
  | step id =>
    obtain ⟨system, hstep, rfl⟩ := Option.map_eq_some_iff.1 h
    exact .inl ⟨id, rfl, hstep, rfl⟩
  | evaluate on e =>
    cases h
    exact .inr ⟨by simp, .setMain _⟩
  | sync v =>
    cases h
    exact .inr ⟨by simp, .setMain _⟩
  | conclude on =>
    obtain ⟨o, -, rfl⟩ := Option.map_eq_some_iff.1 h
    exact .inr ⟨by simp, .refl _⟩
  | define on name v =>
    cases h
    exact .inr ⟨by simp, .refl _⟩
  | make name generation label =>
    simp only [next] at h
    split at h
    · cases h
    · rename_i hnew
      cases h
      refine .inr ⟨by simp, .setCell (fun c hc => ?_) fun _ => rfl⟩
      rw [hc] at hnew
      exact absurd rfl hnew
  | write name generation o =>
    obtain ⟨c, hc, h⟩ := Option.bind_eq_some_iff.1 h
    obtain ⟨c', hwrite, h⟩ := Option.bind_eq_some_iff.1 h
    cases h
    refine .inr ⟨by simp, .setCell (fun c₁ hc₁ => ?_) fun hnone => ?_⟩
    · cases hc.symm.trans hc₁
      cases hwritten : c.write o with
      | error f =>
        rw [hwritten] at hwrite
        cases hwrite
      | ok c₂ =>
        rw [hwritten] at hwrite
        cases hwrite
        exact Cell.later_write hwritten
    · rw [hnone] at hc
      cases hc
  | claimLater n x =>
    simp only [next] at h
    split at h
    · cases h
    · rename_i hnew
      cases h
      exact .inr ⟨by simp, .addHelper (Bool.eq_false_iff.2 hnew) _⟩

end Stage

/-! ### Tasks and their cells -/

def Thread.posted? (t : Thread) : Option Outcome :=
  t.delivered.bind fun _ => t.outcome?

theorem Thread.posted?_of_undelivered {t : Thread} (h : t.delivered = none) : t.posted? = none := by
  rw [posted?, h]
  rfl

/-- Every task has its cell, which holds what the task has delivered. -/
structure System.Posted (s : System) : Prop extends s.Counted where
  delivery : ∀ id t d, s.thread id = some t → t.delivery = some d → d.cell = .task id
  delivers : ∀ p n t, s.thread (.child p n) = some t → t.delivery.isSome
  maker : ∀ p n, (s.cell (.task (.child p n))).isSome → (s.thread (.child p n)).isSome
  post : ∀ p n t, s.thread (.child p n) = some t → ∃ c, s.cell (.task (.child p n)) = some c ∧
    c.label = .text (ThreadId.child p n).label ∧ c.outcome = t.posted?
  ended : ∀ p n t, s.thread (.child p n) = some t → t.delivered.isSome → t.outcome?.isSome

namespace System.Posted

variable {stack : Stack} {s s' : System} {id : ThreadId} {t : Thread} {m : Move}

theorem initial : System.initial.Posted where
  toCounted := counted_initial
  delivery id t d ht hd := by
    simp only [System.initial] at ht
    split at ht
    · cases ht
      cases hd
    · cases ht
  delivers p n t h := by cases h
  maker p n h := by cases h
  post p n t h := by cases h
  ended p n t h := by cases h

theorem aside (hs : s.Posted) (h : s.Aside s') : s'.Posted where
  thread p n hp := by
    rw [h.thread] at hp
    obtain ⟨t, ht, hle⟩ := hs.thread p n hp
    obtain ⟨t', ht', hle'⟩ := h.spawned p t ht
    exact ⟨t', ht', Nat.le_trans hle hle'⟩
  cell p n hp := by
    rw [h.task] at hp
    obtain ⟨t, ht, hle⟩ := hs.cell p n hp
    obtain ⟨t', ht', hle'⟩ := h.spawned p t ht
    exact ⟨t', ht', Nat.le_trans hle hle'⟩
  delivery id t' d ht' hd := by
    obtain ⟨t, ht, hd⟩ := h.delivery id t' d ht' hd
    exact hs.delivery id t d ht hd
  delivers p n t ht := by
    rw [h.thread] at ht
    exact hs.delivers p n t ht
  maker p n hp := by
    rw [h.task] at hp
    rw [h.thread]
    exact hs.maker p n hp
  post p n t ht := by
    rw [h.thread] at ht
    rw [h.task]
    exact hs.post p n t ht
  ended p n t ht := by
    rw [h.thread] at ht
    exact hs.ended p n t ht

theorem posted?_of_isOver (hs : s.Posted) {p : ThreadId} {n : Nat}
    (ht : s.thread (.child p n) = some t) (hover : t.isOver) : t.posted? = t.outcome? := by
  obtain ⟨d, hd⟩ := Option.isSome_iff_exists.1 (hs.delivers p n t ht)
  have hdelivered : t.delivered.isSome := by
    simp only [Thread.isOver, hd, Option.isNone_some, Bool.false_or, Bool.and_eq_true] at hover
    exact hover.2
  obtain ⟨result, hresult⟩ := Option.isSome_iff_exists.1 hdelivered
  rw [Thread.posted?, hresult, Option.bind_some]

theorem cell_of_due (hs : s.Posted) {p : ThreadId} {n : Nat} {d : Delivery}
    (ht : s.thread (.child p n) = some t) (hdue : t.due? = some d) :
    ∃ c, s.cell d.cell = some c ∧ c.outcome = none := by
  obtain ⟨c, hc, -, houtcome⟩ := hs.post p n t ht
  have hundelivered : t.delivered = none := by
    unfold Thread.due? at hdue
    split at hdue
    · assumption
    · cases hdue
  rw [hs.delivery _ t d ht (Thread.delivery_of_due? hdue)]
  exact ⟨c, hc, houtcome.trans (Thread.posted?_of_undelivered hundelivered)⟩

theorem posted?_eq (hs : s.Posted) {p : ThreadId} {n : Nat}
    (ht : s.thread (.child p n) = some t) (hm : t.Moves stack s.cell (.child p n) m) :
    t.posted? = none ∧ ((m.thread.delivered = none ∧ ∀ x o, m.change ≠ .put x o) ∨
      ∃ o, m.change = .put (.task (.child p n)) o ∧ m.thread.posted? = some o) := by
  have hundelivered : t.delivered = none := by
    cases ho : t.outcome? with
    | some o => exact (hm.undelivered (by rw [ho]; rfl)).2
    | none =>
      cases hd : t.delivered with
      | none => rfl
      | some result =>
        have hended := hs.ended p n t ht (by rw [hd]; rfl)
        rw [ho] at hended
        cases hended
  have hkept : ∀ o, t.outcome? = some o → m.thread.outcome? = some o :=
    fun o ho => hm.outcome?_eq ho
  refine ⟨Thread.posted?_of_undelivered hundelivered, ?_⟩
  cases hm with
  | print | spawn | take | refuse | receive =>
    refine .inl ⟨hundelivered, fun x o hput => ?_⟩
    cases hput
  | @deliver d o c hended hdue hcell hempty =>
    refine .inr ⟨o, ?_, ?_⟩
    · rw [hs.delivery _ t d ht (Thread.delivery_of_due? hdue)]
    · exact hkept o hended
  | late hended hdue hcell hwritten =>
    obtain ⟨c, hc, hempty⟩ := hs.cell_of_due ht hdue
    cases hc.symm.trans hcell
    rw [hempty] at hwritten
    cases hwritten
  | lost hended hdue hcell =>
    obtain ⟨c, hc, -⟩ := hs.cell_of_due ht hdue
    rw [hcell] at hc
    cases hc

theorem cell_after (hs : s.Posted) (ht : s.thread id = some t) (hm : t.Moves stack s.cell id m)
    {u : ThreadId} {c : Cell} (hc : s.cell (.task u) = some c) :
    ∃ c', (s.after id m).cell (.task u) = some c' ∧ c'.label = c.label ∧
      ((c'.outcome = c.outcome ∧ ∀ o, m.change ≠ .put (.task u) o) ∨
        u = id ∧ ∃ o, m.change = .put (.task u) o ∧ c'.outcome = some o) := by
  obtain ⟨c', hc', houtcome⟩ := hs.toCounted.outcome_after ht hm hc
  obtain ⟨c'', hc'', hlater⟩ := (hs.fits ht hm).later hc
  cases hc'.symm.trans hc''
  refine ⟨c', hc', hlater.label, houtcome.imp_right ?_⟩
  rintro ⟨o, hput, ho⟩
  obtain ⟨-, d, hdue, hd, -⟩ := hm.of_put hput
  have hown := hs.delivery id t d ht (Thread.delivery_of_due? hdue)
  exact ⟨CellId.task.inj (hd.symm.trans hown), o, hput, ho⟩

theorem post_after (hs : s.Posted) (ht : s.thread id = some t) (hm : t.Moves stack s.cell id m)
    {p : ThreadId} {n : Nat} {t' : Thread} (ht' : (s.after id m).thread (.child p n) = some t') :
    ∃ c, (s.after id m).cell (.task (.child p n)) = some c ∧
      c.label = .text (ThreadId.child p n).label ∧ c.outcome = t'.posted? := by
  rcases after_thread_eq_some ht' with ⟨rfl, rfl⟩ | ⟨-, hstart⟩ | ⟨hne, hold⟩
  · obtain ⟨c, hc, hlabel, houtcome⟩ := hs.post p n t ht
    obtain ⟨c', hc', hlabel', hcases⟩ := hs.cell_after ht hm hc
    obtain ⟨hnone, hposted⟩ := hs.posted?_eq ht hm
    refine ⟨c', hc', hlabel'.trans hlabel, ?_⟩
    rcases hcases with ⟨hsame, hput⟩ | ⟨-, o, hput, ho⟩
    · rcases hposted with ⟨hundelivered, -⟩ | ⟨o, hput', -⟩
      · rw [hsame, houtcome, hnone, Thread.posted?_of_undelivered hundelivered]
      · exact absurd hput' (hput o)
    · rcases hposted with ⟨-, hnoput⟩ | ⟨o', hput', ho'⟩
      · exact absurd hput (hnoput _ o)
      · cases hput.symm.trans hput'
        rw [ho, ho']
  · obtain ⟨-, -, hchange, work, rest, -, rfl⟩ := hm.of_start hstart
    refine ⟨{ label := .text (ThreadId.child p n).label }, ?_, rfl, rfl⟩
    simp [System.after, hchange, Change.on]
  · obtain ⟨c, hc, hlabel, houtcome⟩ := hs.post p n t' hold
    obtain ⟨c', hc', hlabel', ⟨hsame, -⟩ | ⟨heq, -⟩⟩ := hs.cell_after ht hm hc
    · exact ⟨c', hc', hlabel'.trans hlabel, hsame.trans houtcome⟩
    · exact absurd heq hne

theorem after (hs : s.Posted) (ht : s.thread id = some t) (hm : t.Moves stack s.cell id m) :
    (s.after id m).Posted where
  toCounted := hs.toCounted.after ht hm
  delivery other t' d ht' hd := by
    rcases delivery_after ht hm ht' hd with ⟨t₀, ht₀, hd₀⟩ | hcell
    · exact hs.delivery other t₀ d ht₀ hd₀
    · exact hcell
  delivers p n t' ht' := by
    rcases after_thread_eq_some ht' with ⟨rfl, rfl⟩ | ⟨-, hstart⟩ | ⟨-, hold⟩
    · rw [hm.delivery_eq]
      exact hs.delivers p n t ht
    · obtain ⟨-, -, -, work, rest, -, rfl⟩ := hm.of_start hstart
      rfl
    · exact hs.delivers p n t' hold
  maker p n h := by
    cases hold : s.cell (.task (.child p n)) with
    | some c =>
      exact isSome_after_thread hs.toCounted ht hm _ (hs.maker p n (by rw [hold]; rfl))
    | none =>
      obtain ⟨hnew, work, rest, hrest⟩ := hm.of_new_cell hold h
      have hthread := thread_of_spawn? (spawn?_of_rest ht hrest) (step_of_moves ht hm)
      rw [CellId.task.inj hnew, hthread]
      rfl
  post p n t' ht' := hs.post_after ht hm ht'
  ended p n t' ht' hdelivered := by
    rcases after_thread_eq_some ht' with ⟨rfl, rfl⟩ | ⟨-, hstart⟩ | ⟨-, hold⟩
    · obtain ⟨-, ⟨hundelivered, -⟩ | ⟨o, -, ho⟩⟩ := hs.posted?_eq ht hm
      · rw [hundelivered] at hdelivered
        cases hdelivered
      · obtain ⟨-, -, ho⟩ := Option.bind_eq_some_iff.1 ho
        rw [ho]
        rfl
    · obtain ⟨-, -, -, work, rest, -, rfl⟩ := hm.of_start hstart
      cases hdelivered
    · exact hs.ended p n t' hold hdelivered

end System.Posted

/-! ### Tasks in a run -/

def Event.isStep (id : ThreadId) : Event → Bool
  | .step other => other = id
  | _ => false

@[simp] theorem Event.isStep_step {id other : ThreadId} :
    (step other).isStep id = true ↔ other = id :=
  decide_eq_true_iff

namespace Stage

variable {stack : Stack} {tidy : Env → Env} {s s' : Stage} {ev : Event} {evs : List Event}
  {p u : ThreadId} {n : Nat} {t t' : Thread}

def turns (u : ThreadId) (evs : List Event) : Nat :=
  evs.countP (·.isStep u)

@[simp] theorem turns_nil (u : ThreadId) : turns u [] = 0 := rfl

theorem turns_cons_step (u : ThreadId) (evs : List Event) :
    turns u (.step u :: evs) = turns u evs + 1 := by
  simp [turns]

theorem turns_cons_of_ne (h : ev ≠ .step u) (evs : List Event) :
    turns u (ev :: evs) = turns u evs := by
  have hno : ¬ ev.isStep u = true := by
    cases ev with
    | step id => exact fun hid => h (congrArg Event.step (Event.isStep_step.1 hid))
    | evaluate | sync | conclude | define | make | write | claimLater => exact nofun
  exact List.countP_cons_of_neg hno

theorem turns_append (u : ThreadId) (evs more : List Event) :
    turns u (evs ++ more) = turns u evs + turns u more :=
  List.countP_append

theorem exists_turn {k : Nat} (h : k < turns u evs) :
    ∃ before after, evs = before ++ .step u :: after ∧ turns u before = k := by
  induction evs generalizing k with
  | nil => cases h
  | cons ev evs ih =>
    by_cases hev : ev = .step u
    · subst hev
      cases k with
      | zero => exact ⟨[], evs, rfl, rfl⟩
      | succ k =>
        rw [turns_cons_step] at h
        obtain ⟨before, after, rfl, hturns⟩ := ih (Nat.lt_of_succ_lt_succ h)
        exact ⟨.step u :: before, after, rfl, by rw [turns_cons_step, hturns]⟩
    · rw [turns_cons_of_ne hev] at h
      obtain ⟨before, after, rfl, hturns⟩ := ih h
      exact ⟨ev :: before, after, rfl, by rw [turns_cons_of_ne hev, hturns]⟩

theorem posted_next (hs : s.system.Posted) (h : s.next stack tidy ev = some s') :
    s'.system.Posted := by
  rcases next_cases h with ⟨id, rfl, hstep, -⟩ | ⟨-, haside⟩
  · obtain ⟨t, m, ht, hm, hafter⟩ := System.step_eq_some_iff.1 hstep
    exact hafter ▸ hs.after ht hm
  · exact hs.aside haside

theorem posted_run (hs : s.system.Posted) (h : s.run stack tidy evs = some s') :
    s'.system.Posted := by
  induction evs generalizing s with
  | nil =>
    cases h
    exact hs
  | cons ev evs ih =>
    obtain ⟨mid, hnext, hrest⟩ := run_cons_eq_some_iff.1 h
    exact ih (posted_next hs hnext) hrest

/-- A task after an event: it made a move, or it is as it was. -/
theorem task_next (hs : s.system.Posted) (h : s.next stack tidy ev = some s')
    (ht : s.system.thread (.child p n) = some t) :
    (ev = .step (.child p n) ∧ ∃ m, t.Moves stack s.system.cell (.child p n) m ∧
        s'.system = s.system.after (.child p n) m ∧
        s'.system.thread (.child p n) = some m.thread) ∨
      (ev ≠ .step (.child p n) ∧ s'.system.thread (.child p n) = some t) := by
  rcases next_cases h with ⟨id, rfl, hstep, -⟩ | ⟨hno, haside⟩
  · obtain ⟨t₀, m, ht₀, hm, hafter⟩ := System.step_eq_some_iff.1 hstep
    by_cases hid : ThreadId.child p n = id
    · subst hid
      cases ht.symm.trans ht₀
      exact .inl ⟨rfl, m, hm, hafter, hafter ▸ System.after_thread_self⟩
    · refine .inr ⟨fun heq => hid (Event.step.inj heq).symm, ?_⟩
      exact hafter ▸ System.after_thread_of_ne hs.toCounted ht₀ hm hid ht
  · exact .inr ⟨hno _, (haside.thread p n).trans ht⟩

/-- A new task was spawned by the step of a thread. -/
theorem task_new (h : s.next stack tidy ev = some s')
    (hnone : s.system.thread (.child p n) = none)
    (ht : s'.system.thread (.child p n) = some t) :
    ev = .step p ∧ ∃ u work rest, s.system.thread p = some u ∧ u.rest = .spawn work rest ∧
      n = u.spawned + 1 ∧ t = .task stack (.child p n) work := by
  rcases next_cases h with ⟨id, rfl, hstep, -⟩ | ⟨-, haside⟩
  · obtain ⟨u, m, hu, hm, hafter⟩ := System.step_eq_some_iff.1 hstep
    rw [hafter] at ht
    rcases System.after_thread_eq_some ht with ⟨rfl, -⟩ | ⟨-, hstart⟩ | ⟨-, hold⟩
    · rw [hnone] at hu
      cases hu
    · obtain ⟨hchild, -, -, work, rest, hrest, htask⟩ := hm.of_start hstart
      obtain ⟨rfl, rfl⟩ := ThreadId.child.inj hchild
      exact ⟨rfl, u, work, rest, hu, hrest, rfl, htask⟩
    · rw [hnone] at hold
      cases hold
  · rw [haside.thread, hnone] at ht
    cases ht

end Stage

structure Thread.Later (t t' : Thread) : Prop where
  spawned : t.spawned ≤ t'.spawned
  outcome : ∀ o, t.outcome? = some o → t'.outcome? = some o
  posted : ∀ o, t.posted? = some o → t'.posted? = some o

namespace Thread.Later

variable {t t' t'' : Thread}

theorem refl (t : Thread) : t.Later t :=
  ⟨Nat.le_refl _, fun _ h => h, fun _ h => h⟩

theorem trans (h : t.Later t') (h' : t'.Later t'') : t.Later t'' :=
  ⟨Nat.le_trans h.spawned h'.spawned, fun o ho => h'.outcome o (h.outcome o ho),
    fun o ho => h'.posted o (h.posted o ho)⟩

theorem of_moves {stack : Stack} {cell : CellId → Option Cell} {id : ThreadId} {m : Move}
    (hm : t.Moves stack cell id m) : t.Later m.thread := by
  refine ⟨hm.spawned_le, fun o ho => hm.outcome?_eq ho, fun o ho => ?_⟩
  obtain ⟨result, hdelivered, hended⟩ := Option.bind_eq_some_iff.1 ho
  have hnone := (hm.undelivered (by rw [hended]; rfl)).2
  rw [hdelivered] at hnone
  cases hnone

end Thread.Later

namespace Stage

variable {stack : Stack} {tidy : Env → Env} {s s' : Stage} {evs : List Event} {p u : ThreadId}
  {n k : Nat} {t t' : Thread}

theorem task_later (hs : s.system.Posted) (h : s.run stack tidy evs = some s')
    (ht : s.system.thread (.child p n) = some t) :
    ∃ t', s'.system.thread (.child p n) = some t' ∧ t.Later t' := by
  induction evs generalizing s t with
  | nil =>
    cases h
    exact ⟨t, ht, .refl t⟩
  | cons ev evs ih =>
    obtain ⟨mid, hnext, hrest⟩ := run_cons_eq_some_iff.1 h
    rcases task_next hs hnext ht with ⟨-, m, hm, -, hself⟩ | ⟨-, hsame⟩
    · obtain ⟨t', ht', hlater⟩ := ih (posted_next hs hnext) hrest hself
      exact ⟨t', ht', (Thread.Later.of_moves hm).trans hlater⟩
    · exact ih (posted_next hs hnext) hrest hsame

theorem cell_later (hs : s.system.Posted) (h : s.run stack tidy evs = some s') {x : CellId}
    {c : Cell} (hx : s.system.cell x = some c) :
    ∃ c', s'.system.cell x = some c' ∧ c.Later c' := by
  induction evs generalizing s c with
  | nil =>
    cases h
    exact ⟨c, hx, .refl c⟩
  | cons ev evs ih =>
    obtain ⟨mid, hnext, hrest⟩ := run_cons_eq_some_iff.1 h
    obtain ⟨c₁, hx₁, hlater⟩ : ∃ c₁, mid.system.cell x = some c₁ ∧ c.Later c₁ := by
      rcases next_cases hnext with ⟨id, -, hstep, -⟩ | ⟨-, haside⟩
      · exact hs.toCounted.later_of_step hstep hx
      · obtain ⟨c₁, hx₁, hlater, -⟩ := haside.later x c hx
        exact ⟨c₁, hx₁, hlater⟩
    obtain ⟨c₂, hx₂, hlater'⟩ := ih (posted_next hs hnext) hrest hx₁
    exact ⟨c₂, hx₂, hlater.trans hlater'⟩

theorem task_of_no_turn (hs : s.system.Posted) (h : s.run stack tidy evs = some s')
    (ht : s.system.thread (.child p n) = some t) (hturns : turns (.child p n) evs = 0) :
    s'.system.thread (.child p n) = some t := by
  induction evs generalizing s with
  | nil =>
    cases h
    exact ht
  | cons ev evs ih =>
    obtain ⟨mid, hnext, hrest⟩ := run_cons_eq_some_iff.1 h
    rcases task_next hs hnext ht with ⟨rfl, -⟩ | ⟨hne, hsame⟩
    · rw [turns_cons_step] at hturns
      cases hturns
    · rw [turns_cons_of_ne hne] at hturns
      exact ih (posted_next hs hnext) hrest hsame hturns

/-- A moment of a run: what happened before it, and the move that a thread makes then. -/
structure Moment (stack : Stack) (tidy : Env → Env) (s : Stage) (evs : List Event) (u : ThreadId)
    (before : List Event) (mid : Stage) (t : Thread) (m : Move) : Prop where
  split : ∃ after, evs = before ++ .step u :: after
  run : s.run stack tidy before = some mid
  thread : mid.system.thread u = some t
  moves : t.Moves stack mid.system.cell u m

/-- A thread that makes more than some steps in a run is at some moment about to make the next. -/
theorem exists_moment (h : s.run stack tidy evs = some s') (hk : k < turns u evs) :
    ∃ before mid t m, turns u before = k ∧ Moment stack tidy s evs u before mid t m := by
  obtain ⟨before, after, rfl, hturns⟩ := exists_turn hk
  obtain ⟨mid, hmid, hrest⟩ := run_append_eq_some_iff.1 h
  obtain ⟨next, hnext, -⟩ := run_cons_eq_some_iff.1 hrest
  obtain ⟨system, hstep, -⟩ := Option.map_eq_some_iff.1 hnext
  obtain ⟨t, m, ht, hm, -⟩ := System.step_eq_some_iff.1 hstep
  exact ⟨before, mid, t, m, hturns, ⟨after, rfl⟩, hmid, ht, hm⟩

theorem Moment.exists_next {before : List Event} {mid : Stage} {m : Move}
    (hmoment : Moment stack tidy s evs u before mid t m) (h : s.run stack tidy evs = some s') :
    ∃ after next, evs = before ++ .step u :: after ∧
      mid.next stack tidy (.step u) = some next ∧ next.system = mid.system.after u m ∧
      next.run stack tidy after = some s' := by
  obtain ⟨after, rfl⟩ := hmoment.split
  obtain ⟨mid', hmid', hrest⟩ := run_append_eq_some_iff.1 h
  cases hmoment.run.symm.trans hmid'
  obtain ⟨next, hnext, hrest⟩ := run_cons_eq_some_iff.1 hrest
  refine ⟨after, next, rfl, hnext, ?_, hrest⟩
  obtain ⟨system, hstep, rfl⟩ := Option.map_eq_some_iff.1 hnext
  exact Option.some.inj (hstep.symm.trans (System.step_of_moves hmoment.thread hmoment.moves))

/-- What a move makes of a task is earlier than what the task is at the end. -/
theorem Moment.exists_later {before : List Event} {mid : Stage} {m : Move}
    (hmoment : Moment stack tidy s evs (.child p n) before mid t m) (hs : s.system.Posted)
    (h : s.run stack tidy evs = some s') :
    ∃ t', s'.system.thread (.child p n) = some t' ∧ m.thread.Later t' := by
  obtain ⟨after, next, -, hnext, hafter, hrest⟩ := hmoment.exists_next h
  have hself : next.system.thread (.child p n) = some m.thread :=
    hafter ▸ System.after_thread_self
  exact task_later (posted_next (posted_run hs hmoment.run) hnext) hrest hself

theorem exists_last_moment (hs : s.system.Posted) (h : s.run stack tidy evs = some s')
    (ht : s'.system.thread (.child p n) = some t') (hk : turns (.child p n) evs = k + 1) :
    ∃ before mid t m, turns (.child p n) before = k ∧
      Moment stack tidy s evs (.child p n) before mid t m ∧ t' = m.thread := by
  have hlt : k < turns (.child p n) evs := by omega
  obtain ⟨before, mid, t, m, hturns, hmoment⟩ := exists_moment h hlt
  obtain ⟨after, next, rfl, hnext, hafter, hrest⟩ := hmoment.exists_next h
  refine ⟨before, mid, t, m, hturns, hmoment, ?_⟩
  have hno : turns (.child p n) after = 0 := by
    rw [turns_append, turns_cons_step] at hk
    omega
  have hself : next.system.thread (.child p n) = some m.thread :=
    hafter ▸ System.after_thread_self
  have hposted := posted_next (posted_run hs hmoment.run) hnext
  exact Option.some.inj (ht.symm.trans (task_of_no_turn hposted hrest hself hno))

theorem turns_eq_zero_of_none (hs : s.system.Posted) (h : s.run stack tidy evs = some s')
    (hnone : s'.system.thread (.child p n) = none) : turns (.child p n) evs = 0 := by
  by_contra hne
  obtain ⟨before, mid, t, m, -, hmoment⟩ := exists_moment h (Nat.pos_of_ne_zero hne)
  obtain ⟨t', ht', -⟩ := hmoment.exists_later hs h
  rw [hnone] at ht'
  cases ht'

theorem turns_concat_parent (hs : s.system.Posted) (h : s.run stack tidy evs = some s')
    (hnone : s'.system.thread (.child p n) = none) :
    turns (.child p n) (evs ++ [.step p]) = 0 := by
  rw [turns_append, turns_eq_zero_of_none hs h hnone,
    turns_cons_of_ne fun h => (ThreadId.child_ne p n) (Event.step.inj h).symm]
  rfl

theorem exists_spawn_moment (hs : s.system.Posted) (h : s.run stack tidy evs = some s')
    (hnone : s.system.thread (.child p n) = none)
    (ht : s'.system.thread (.child p n) = some t') (hk : turns (.child p n) evs = 0) :
    ∃ before mid w m work rest, Moment stack tidy s evs p before mid w m ∧
      w.rest = .spawn work rest ∧ n = w.spawned + 1 ∧ t' = .task stack (.child p n) work := by
  induction evs generalizing s with
  | nil =>
    cases h
    rw [hnone] at ht
    cases ht
  | cons ev evs ih =>
    obtain ⟨next, hnext, hrest⟩ := run_cons_eq_some_iff.1 h
    have hne : ev ≠ .step (.child p n) := by
      rintro rfl
      rw [turns_cons_step] at hk
      cases hk
    rw [turns_cons_of_ne hne] at hk
    cases hnew : next.system.thread (.child p n) with
    | none =>
      obtain ⟨before, mid, w, m, work, rest, hmoment, hspawn, hn, htask⟩ :=
        ih (posted_next hs hnext) hrest hnew hk
      obtain ⟨after, rfl⟩ := hmoment.split
      refine ⟨ev :: before, mid, w, m, work, rest,
        ⟨⟨after, rfl⟩, ?_, hmoment.thread, hmoment.moves⟩, hspawn, hn, htask⟩
      exact run_cons_eq_some_iff.2 ⟨next, hnext, hmoment.run⟩
    | some t₀ =>
      obtain ⟨rfl, w, work, rest, hw, hspawn, hn, rfl⟩ := task_new hnext hnone hnew
      have hsame := task_of_no_turn (posted_next hs hnext) hrest hnew hk
      cases ht.symm.trans hsame
      exact ⟨[], s, w, _, work, rest, ⟨⟨evs, rfl⟩, rfl, hw, .spawn hspawn⟩, hspawn, hn, rfl⟩

theorem Moment.claimed {before : List Event} {mid : Stage} {m : Move} {x : CellId}
    {rest : Prog Work Result} (hmoment : Moment stack tidy s evs u before mid t m)
    (hs : s.system.Posted) (h : s.run stack tidy evs = some s') (hrest : t.rest = .claim x rest) :
    ∃ c, s'.system.cell x = some c ∧ c.claimed = true := by
  obtain ⟨after, next, -, hnext, hafter, hrun⟩ := hmoment.exists_next h
  obtain ⟨c, hc, hclaimed⟩ : ∃ c, next.system.cell x = some c ∧ c.claimed = true := by
    rw [hafter]
    obtain ⟨-, -, -, hm⟩ := hmoment
    cases hm with
    | @take _ _ c hrest' hcell hfree =>
      cases hrest.symm.trans hrest'
      exact ⟨{ c with claimed := true }, by simp [System.after, Change.on, hcell], rfl⟩
    | refuse hrest' hcell htaken =>
      cases hrest.symm.trans hrest'
      exact ⟨_, hcell, htaken⟩
    | print hrest' | spawn hrest' | receive hrest' =>
      cases hrest.symm.trans hrest'
    | deliver hended | late hended | lost hended =>
      rw [Thread.outcome?, hrest] at hended
      cases hended
  obtain ⟨c', hc', hlater⟩ := cell_later (posted_next (posted_run hs hmoment.run) hnext) hrun hc
  exact ⟨c', hc', hlater.claimed hclaimed⟩

end Stage

end ForkJoin

import ForkJoin.Proofs.Quiet
import ForkJoin.Proofs.Run.Acts

/-!
# Evaluations whose tasks have no effects

An evaluation in the main thread that spawns tasks which spawn and claim nothing themselves. What
each of the tasks ends with is then known beforehand, and so is the way that the main thread takes:
what it spawns and claims, in which order, and what it ends with (`Prog.Goes`). The way of a program
that is put together by `bind` is put together from the ways of its parts, and it is found without
regard to the lines that the program prints.

A task that only prints and ends delivers what it is expected to (`Thread.Heads`), whatever the
other threads do.
-/

namespace ForkJoin

def ThreadId.takesPart (first : Nat) : ThreadId → Bool
  | .main => true
  | .child .main m => first < m
  | _ => false

/-- How many steps a thread has ahead that prints lines and ends: it delivers what it ends with, if
that is due. -/
def Thread.left (t : Thread) : Nat :=
  if t.due?.isSome then t.rest.lines.length + 1 else 0

/-! ### The way of a program -/

/-- The way of a program of the main thread, which has spawned some tasks, if the tasks from some
first ones on end with promised outcomes: what it spawns and claims, what it ends with, how many
tasks it has spawned by then, and how many steps it and its further tasks make. -/
inductive Prog.Goes {α : Type} (stack : Stack) (first : Nat) (promised : Nat → Outcome) :
    Nat → Prog Work α → List Act → Except Failure α → Nat → Nat → Prop
  | done {n : Nat} (a : α) : Goes stack first promised n (.done a) [] (.ok a) n 0
  | fail {n : Nat} (e : Failure) : Goes stack first promised n (.fail e) [] (.error e) n 0
  | emit {n last steps : Nat} {line : String} {p : Prog Work α} {acts : List Act}
      {o : Except Failure α} (h : Goes stack first promised n p acts o last steps) :
      Goes stack first promised n (.emit line p) acts o last (steps + 1)
  | spawn {n last steps : Nat} {work : Work} {rest : ThreadId → Prog Work α} {acts : List Act}
      {o : Except Failure α} {r : Except Failure Result}
      (htask : (Thread.task stack (.child .main (n + 1)) work).rest.quiet = .ofExcept r)
      (hr : r.map Result.value = promised (n + 1))
      (h : Goes stack first promised (n + 1) (rest (.child .main (n + 1))) acts o last steps) :
      Goes stack first promised n (.spawn work rest) (.spawn (.child .main (n + 1)) work :: acts) o
        last (steps + (Thread.task stack (.child .main (n + 1)) work).left + 1)
  | claim {n m last steps : Nat} {p : Prog Work α} {acts : List Act} {o : Except Failure α}
      (hfirst : first < m) (hm : m ≤ n) (h : Goes stack first promised n p acts o last steps) :
      Goes stack first promised n (.claim (.task (.child .main m)) p)
        (.claim (.task (.child .main m)) :: acts) o last (steps + 1)
  | await {n m last steps : Nat} {rest : Value → Prog Work α} {acts : List Act}
      {o : Except Failure α} (hfirst : first < m) (hm : m ≤ n)
      (h : Goes stack first promised n (.resume rest (promised m)) acts o last steps) :
      Goes stack first promised n (.await (.task (.child .main m)) rest) acts o last (steps + 1)

def Act.quiet : Act → Act
  | .spawn task work => .spawn task work.quiet
  | .claim x => .claim x

namespace Prog.Goes

variable {α β : Type} {stack : Stack} {first n mid last steps steps' : Nat}
  {promised : Nat → Outcome} {p : Prog Work α} {acts acts' : List Act}

theorem bind {f : α → Prog Work β} {a : α} {o : Except Failure β}
    (hp : p.Goes stack first promised n acts (.ok a) mid steps)
    (hf : (f a).Goes stack first promised mid acts' o last steps') :
    (p >>= f).Goes stack first promised n (acts ++ acts') o last (steps + steps') := by
  change (p.bind f).Goes stack first promised n _ _ _ _
  generalize ho : (.ok a : Except Failure α) = r at hp
  induction hp with
  | done b =>
    cases ho
    rw [Nat.zero_add]
    exact hf
  | fail e => cases ho
  | emit _ ih =>
    rw [Nat.add_right_comm]
    exact (ih hf ho).emit
  | spawn htask hr _ ih =>
    rw [Nat.add_right_comm, Nat.add_right_comm _ _ steps']
    exact .spawn htask hr (ih hf ho)
  | claim hfirst hm _ ih =>
    rw [Nat.add_right_comm]
    exact .claim hfirst hm (ih hf ho)
  | await hfirst hm _ ih =>
    rw [Nat.add_right_comm]
    exact .await hfirst hm (by rw [resume_bind]; exact ih hf ho)

theorem bind_error {f : α → Prog Work β} {e : Failure}
    (hp : p.Goes stack first promised n acts (.error e) last steps) :
    (p >>= f).Goes stack first promised n acts (.error e) last steps := by
  change (p.bind f).Goes stack first promised n _ _ _ _
  generalize ho : (.error e : Except Failure α) = r at hp
  induction hp with
  | done b => cases ho
  | fail e =>
    cases ho
    exact .fail e
  | emit _ ih => exact (ih ho).emit
  | spawn htask hr _ ih => exact .spawn htask hr (ih ho)
  | claim hfirst hm _ ih => exact .claim hfirst hm (ih ho)
  | await hfirst hm _ ih => exact .await hfirst hm (by rw [resume_bind]; exact ih ho)

theorem map (f : α → β) {o : Except Failure α}
    (h : p.Goes stack first promised n acts o last steps) :
    (p >>= fun a => .done (f a)).Goes stack first promised n acts (o.map f) last steps := by
  cases o with
  | error e => exact h.bind_error
  | ok a =>
    have hbind := h.bind (f := fun a => .done (f a)) (.done (f a))
    rwa [List.append_nil] at hbind

theorem ofExcept (stack : Stack) (first n : Nat) (promised : Nat → Outcome)
    (o : Except Failure α) :
    (Prog.ofExcept o).Goes stack first promised n [] o n 0 := by
  cases o with
  | ok a => exact .done a
  | error e => exact .fail e

theorem of_quiet {o : Except Failure α}
    (h : p.quiet.Goes stack first promised n acts o last steps) :
    ∃ acts' steps', p.Goes stack first promised n acts' o last steps' ∧
      acts'.map Act.quiet = acts := by
  induction p generalizing n acts steps with
  | done a =>
    cases h
    exact ⟨_, _, .done a, rfl⟩
  | fail e =>
    cases h
    exact ⟨_, _, .fail e, rfl⟩
  | emit line p ih =>
    obtain ⟨acts', steps', hp, hacts⟩ := ih h
    exact ⟨acts', _, hp.emit, hacts⟩
  | spawn work rest ih =>
    cases h with
    | spawn htask hr h =>
      obtain ⟨acts', steps', hp, hacts⟩ := ih _ h
      refine ⟨_, _, .spawn (?_ : _ = _) hr hp, congrArg (_ :: ·) hacts⟩
      rw [← htask]
      change (stack.eval _ _ _).quiet = (stack.eval _ _ _).quiet
      rw [Stack.quiet_eval, Stack.quiet_eval]
      rfl
  | claim x p ih =>
    cases h with
    | claim hfirst hm h =>
      obtain ⟨acts', steps', hp, hacts⟩ := ih h
      exact ⟨_, _, .claim hfirst hm hp, congrArg (_ :: ·) hacts⟩
  | await x rest ih =>
    cases h with
    | @await _ m _ _ _ _ _ hfirst hm h =>
      -- Only what is promised is received, so the induction hypothesis is used for one value.
      cases ho : promised m with
      | error e =>
        rw [ho] at h
        cases h
        have hnext : (Prog.resume rest (promised m)).Goes stack first promised last [] (.error e)
            last 0 := by
          rw [ho]
          exact .fail e
        exact ⟨_, _, .await hfirst hm hnext, rfl⟩
      | ok v =>
        rw [ho] at h
        obtain ⟨acts', steps', hp, hacts⟩ := ih v h
        have hnext : (Prog.resume rest (promised m)).Goes stack first promised n acts' o last
            steps' := by
          rw [ho]
          exact hp
        exact ⟨_, _, .await hfirst hm hnext, hacts⟩

/-- On its way a program claims cells of its own tasks only. -/
theorem claims {o : Except Failure α} (h : p.Goes stack first promised n acts o last steps)
    {x : CellId} (hx : .claim x ∈ acts) : ∃ m, first < m ∧ x = .task (.child .main m) := by
  induction h with
  | done | fail => cases hx
  | emit _ ih | await _ _ _ ih => exact ih hx
  | spawn _ _ _ ih =>
    cases hx with
    | tail _ hx => exact ih hx
  | claim hfirst _ _ ih =>
    cases hx with
    | head => exact ⟨_, hfirst, rfl⟩
    | tail _ hx => exact ih hx

end Prog.Goes

/-! ### Tasks that print and end -/

/-- A task that prints and ends with an outcome. Its cell is empty until it has delivered that. -/
structure Thread.Heads (id : ThreadId) (t : Thread) (c : Cell) (o : Outcome) : Prop where
  quiet : ∃ r, t.rest.quiet = .ofExcept r ∧ r.map Result.value = o
  delivery : ∃ d, t.delivery = some d ∧ d.cell = .task id
  outcome : c.outcome = if t.delivered.isSome then some o else none
  ended : t.delivered.isSome → t.outcome?.isSome

theorem Thread.rest_cases {t : Thread} {r : Except Failure Result}
    (h : t.rest.quiet = .ofExcept r) :
    (∃ line p, t.rest = .emit line p ∧ p.quiet = .ofExcept r) ∨
      t.rest = .ofExcept r ∧ t.outcome? = some (r.map Result.value) := by
  cases hrest : t.rest with
  | emit line p =>
    rw [hrest] at h
    exact .inl ⟨line, p, rfl, h⟩
  | done a =>
    rw [hrest] at h
    cases r with
    | error e => cases h
    | ok b =>
      cases h
      exact .inr ⟨rfl, by simp only [outcome?, hrest, Except.map]⟩
  | fail e =>
    rw [hrest] at h
    cases r with
    | ok b => cases h
    | error e' =>
      cases h
      exact .inr ⟨rfl, by simp only [outcome?, hrest, Except.map]⟩
  | spawn | claim | await =>
    rw [hrest] at h
    cases r <;> cases h

theorem Thread.delivered_of_due? {t : Thread} {d : Delivery} (h : t.due? = some d) :
    t.delivered = none := by
  unfold due? at h
  split at h
  · assumption
  · cases h

theorem Thread.left_of_due? {t : Thread} {d : Delivery} (h : t.due? = some d) :
    t.left = t.rest.lines.length + 1 := by
  simp [left, h]

namespace Thread.Heads

variable {stack : Stack} {cell : CellId → Option Cell} {id : ThreadId} {t : Thread} {c : Cell}
  {o : Outcome} {m : Move}

theorem task {work : Work} {r : Except Failure Result} {c : Cell}
    (h : (Thread.task stack id work).rest.quiet = .ofExcept r) (hc : c.outcome = none) :
    (Thread.task stack id work).Heads id c (r.map Result.value) where
  quiet := ⟨r, h, rfl⟩
  delivery := ⟨_, rfl, rfl⟩
  outcome := hc
  ended := nofun

theorem due?_eq (h : t.Heads id c o) (hdelivered : t.delivered = none) :
    ∃ d, t.due? = some d ∧ d.cell = .task id := by
  obtain ⟨d, hd, hcell⟩ := h.delivery
  exact ⟨d, by rw [due?, hdelivered, hd], hcell⟩

theorem exists_moves (h : t.Heads id c o) (hc : cell (.task id) = some c)
    (hdelivered : t.delivered = none) : ∃ m, t.Moves stack cell id m := by
  obtain ⟨r, hr, -⟩ := h.quiet
  obtain ⟨d, hd, hcell⟩ := h.due?_eq hdelivered
  have hempty : c.outcome = none := by simp [h.outcome, hdelivered]
  rcases rest_cases hr with ⟨line, p, hrest, -⟩ | ⟨-, hended⟩
  · exact ⟨_, .print hrest⟩
  · exact ⟨_, .deliver hended hd (hcell ▸ hc) hempty⟩

theorem cell_of_due (h : t.Heads id c o) {d : Delivery} (hdue : t.due? = some d) :
    d.cell = .task id ∧ c.outcome = none := by
  have hdelivered := delivered_of_due? hdue
  obtain ⟨d', hd', hcell⟩ := h.due?_eq hdelivered
  cases hdue.symm.trans hd'
  exact ⟨hcell, by simp [h.outcome, hdelivered]⟩

/-- A task that moves prints a line or delivers what it has ended with. -/
theorem moves (h : t.Heads id c o) (hc : cell (.task id) = some c)
    (hm : t.Moves stack cell id m) :
    m.start = none ∧ m.thread.left < t.left ∧
      (m.change = .keep ∨ ∃ o', m.change = .put (.task id) o') ∧
      ∃ c', m.change.on cell (.task id) = some c' ∧ m.thread.Heads id c' o := by
  obtain ⟨r, hr, ho⟩ := h.quiet
  cases hm with
  | @print line rest hrest =>
    have hdelivered : t.delivered = none := by
      rw [← Option.not_isSome_iff_eq_none]
      intro hsome
      have hended := h.ended hsome
      rw [outcome?, hrest] at hended
      cases hended
    obtain ⟨d, hdue, -⟩ := h.due?_eq hdelivered
    refine ⟨rfl, ?_, .inl rfl, c, hc, ⟨r, ?_, ho⟩, h.delivery, h.outcome, ?_⟩
    · have hdue' : ({ t with rest := rest }.print line).due? = some d := hdue
      rw [left_of_due? hdue, left_of_due? hdue', hrest]
      exact Nat.lt_succ_self _
    · rw [hrest] at hr
      exact hr
    · intro hsome
      rw [← Option.not_isSome_iff_eq_none] at hdelivered
      exact absurd hsome hdelivered
  | @deliver d o' c' hended hdue hcell hempty =>
    obtain ⟨hd, -⟩ := h.cell_of_due hdue
    rw [hd, hc] at hcell
    cases hcell
    have ho' : o' = o := by
      rcases rest_cases hr with ⟨line, p, hrest, -⟩ | ⟨-, hended'⟩
      · rw [outcome?, hrest] at hended
        cases hended
      · exact (Option.some.inj (hended.symm.trans hended')).trans ho
    subst ho'
    refine ⟨rfl, ?_, .inr ⟨o', by rw [hd]⟩, { c with outcome := some o' }, ?_,
      ⟨r, by simpa using hr, ho⟩, by simpa using h.delivery, rfl, fun _ => ?_⟩
    · rw [left_of_due? hdue]
      exact Nat.succ_pos _
    · simp [Change.on, hd, hc]
    · have hkept : ∀ t' : Thread, t'.rest = t.rest → t'.outcome? = t.outcome? := by
        intro t' ht'
        rw [outcome?, outcome?, ht']
      exact Option.isSome_of_eq_some ((hkept _ (announced_rest t d o')).trans hended)
  | late hended hdue hcell hwritten =>
    obtain ⟨hd, hempty⟩ := h.cell_of_due hdue
    rw [hd, hc] at hcell
    cases hcell
    rw [hempty] at hwritten
    cases hwritten
  | lost hended hdue hcell =>
    rw [(h.cell_of_due hdue).1, hc] at hcell
    cases hcell
  | spawn hrest | take hrest | refuse hrest | receive hrest =>
    rw [hrest] at hr
    cases r <;> cases hr

end Thread.Heads

end ForkJoin

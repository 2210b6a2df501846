import ForkJoin.Proofs.Run.Acts
import ForkJoin.Proofs.Run.Sequel

/-!
# What a program does on its way

A program that does two things after each other does what the first does and then what the second
does. To say so, all that a program does on its way is listed in order: the lines that it prints, the
tasks that it spawns, the cells that it claims or is refused, and what it receives. What it is told
from outside, the names of its tasks and what it finds in cells, is part of the list
(`Prog.Passes`), so the way that a program takes says what it ends with.

What a thread does in a run is such a way: its lines, its spawns and its claims can be read off it
(`Counted.passes_of_run`).
-/

namespace ForkJoin

namespace Prog

/-- One thing that a program does on its way, with what it is told by it. -/
inductive Step (ω : Type) where
  | print (line : String)
  | spawn (task : ThreadId) (work : ω)
  | claim (cell : CellId)
  /-- A claim of a cell that is taken, which tells the name of the task. -/
  | refused (cell : CellId) (task : Datum)
  | receive (cell : CellId) (o : Outcome)

namespace Step

def line? {ω : Type} : Step ω → Option String
  | .print line => some line
  | _ => none

def act? : Step Work → Option Act
  | .spawn task work => some (.spawn task work)
  | .claim cell | .refused cell _ => some (.claim cell)
  | _ => none

end Step

variable {ω α β : Type} {p q r : Prog ω α} {way front back : List (Step ω)}
  {o o' : Except Failure α}

/-- A program does some things and has another one left to do. -/
inductive Passes : Prog ω α → List (Step ω) → Prog ω α → Prop
  | here (p : Prog ω α) : Passes p [] p
  | print {line : String} {rest q : Prog ω α} {way : List (Step ω)}
      (h : Passes rest way q) : Passes (.emit line rest) (.print line :: way) q
  | spawn {work : ω} {rest : ThreadId → Prog ω α} {q : Prog ω α} {way : List (Step ω)}
      (task : ThreadId) (h : Passes (rest task) way q) :
      Passes (.spawn work rest) (.spawn task work :: way) q
  | claim {cell : CellId} {rest q : Prog ω α} {way : List (Step ω)}
      (h : Passes rest way q) : Passes (.claim cell rest) (.claim cell :: way) q
  | refused {cell : CellId} {rest : Prog ω α} (task : Datum) :
      Passes (.claim cell rest) [.refused cell task] (.raise (.alreadyConsumed task))
  | receive {cell : CellId} {rest : Value → Prog ω α} {q : Prog ω α} {way : List (Step ω)}
      (o : Outcome) (h : Passes (.resume rest o) way q) :
      Passes (.await cell rest) (.receive cell o :: way) q

/-- A program does some things and ends. -/
def Performs (p : Prog ω α) (way : List (Step ω)) (o : Except Failure α) : Prop :=
  p.Passes way (.ofExcept o)

/-! ### One after the other -/

theorem Passes.trans (h : p.Passes front q) (h' : q.Passes back r) :
    p.Passes (front ++ back) r := by
  induction h with
  | here p => exact h'
  | print h ih => exact .print (ih h')
  | spawn task h ih => exact .spawn task (ih h')
  | claim h ih => exact .claim (ih h')
  | refused task =>
    cases h'
    exact .refused task
  | receive o h ih => exact .receive o (ih h')

theorem Passes.bind (h : p.Passes way q) (f : α → Prog ω β) :
    (p >>= f).Passes way (q >>= f) := by
  induction h with
  | here p => exact .here _
  | print h ih => exact .print ih
  | spawn task h ih => exact .spawn task ih
  | claim h ih => exact .claim ih
  | refused task => exact .refused task
  | @receive cell rest q way o h ih =>
    refine .receive o ?_
    rw [resume_bind]
    exact ih

@[simp] theorem performs_ofExcept {x : Except Failure α} :
    (ofExcept x : Prog ω α).Performs way o ↔ way = [] ∧ o = x := by
  constructor
  · intro h
    cases x <;> cases o <;> cases h <;> exact ⟨rfl, rfl⟩
  · rintro ⟨rfl, rfl⟩
    exact .here _

@[simp] theorem performs_done {a : α} :
    (.done a : Prog ω α).Performs way o ↔ way = [] ∧ o = .ok a :=
  performs_ofExcept (x := .ok a)

@[simp] theorem performs_fail {e : Failure} :
    (.fail e : Prog ω α).Performs way o ↔ way = [] ∧ o = .error e :=
  performs_ofExcept (x := .error e)

theorem performs_emit {line : String} {rest : Prog ω α} :
    (emit line rest).Performs way o ↔ ∃ back, rest.Performs back o ∧
      way = .print line :: back := by
  constructor
  · intro h
    cases o <;> cases h with
    | print h => exact ⟨_, h, rfl⟩
  · rintro ⟨back, h, rfl⟩
    exact .print h

theorem performs_spawn {work : ω} {rest : ThreadId → Prog ω α} :
    (spawn work rest).Performs way o ↔ ∃ task back, (rest task).Performs back o ∧
      way = .spawn task work :: back := by
  constructor
  · intro h
    cases o <;> cases h with
    | spawn task h => exact ⟨task, _, h, rfl⟩
  · rintro ⟨task, back, h, rfl⟩
    exact .spawn task h

theorem performs_claim {cell : CellId} {rest : Prog ω α} :
    (claim cell rest).Performs way o ↔
      (∃ back, rest.Performs back o ∧ way = .claim cell :: back) ∨
      ∃ task, o = .error (.language (.alreadyConsumed task)) ∧
        way = [.refused cell task] := by
  constructor
  · intro h
    cases o with
    | ok a =>
      cases h with
      | claim h => exact .inl ⟨_, h, rfl⟩
    | error e =>
      cases h with
      | claim h => exact .inl ⟨_, h, rfl⟩
      | refused task => exact .inr ⟨task, rfl, rfl⟩
  · rintro (⟨back, h, rfl⟩ | ⟨task, rfl, rfl⟩)
    · exact .claim h
    · exact .refused task

theorem performs_await {cell : CellId} {rest : Value → Prog ω α} :
    (await cell rest).Performs way o ↔ ∃ received back,
      (resume rest received).Performs back o ∧ way = .receive cell received :: back := by
  constructor
  · intro h
    cases o <;> cases h with
    | receive received h => exact ⟨received, _, h, rfl⟩
  · rintro ⟨received, back, h, rfl⟩
    exact .receive received h

/-- A program that goes on with the result of another one does what that does, and then what it does
with the result if there is one. -/
theorem performs_bind {f : α → Prog ω β} {o : Except Failure β} :
    (p >>= f).Performs way o ↔ (∃ e, p.Performs way (.error e) ∧ o = .error e) ∨
      ∃ a front back, p.Performs front (.ok a) ∧ (f a).Performs back o ∧ way = front ++ back := by
  constructor
  · intro h
    -- The first program is followed for as long as it lasts; where it ends the second one starts.
    induction p generalizing way with
    | done a => exact .inr ⟨a, [], way, .here _, h, rfl⟩
    | fail e =>
      obtain ⟨rfl, rfl⟩ := performs_fail.1 h
      exact .inl ⟨e, .here _, rfl⟩
    | emit line rest ih =>
      obtain ⟨way, hrest, rfl⟩ := performs_emit.1 h
      rcases ih hrest with ⟨e, hway, rfl⟩ | ⟨a, front, back, hfront, hback, rfl⟩
      · exact .inl ⟨e, .print hway, rfl⟩
      · exact .inr ⟨a, .print line :: front, back, .print hfront, hback, rfl⟩
    | spawn work rest ih =>
      obtain ⟨task, way, hrest, rfl⟩ := performs_spawn.1 h
      rcases ih task hrest with ⟨e, hway, rfl⟩ | ⟨a, front, back, hfront, hback, rfl⟩
      · exact .inl ⟨e, .spawn task hway, rfl⟩
      · exact .inr ⟨a, .spawn task work :: front, back, .spawn task hfront, hback, rfl⟩
    | claim cell rest ih =>
      rcases performs_claim.1 h with ⟨way, hrest, rfl⟩ | ⟨task, rfl, rfl⟩
      · rcases ih hrest with ⟨e, hway, rfl⟩ | ⟨a, front, back, hfront, hback, rfl⟩
        · exact .inl ⟨e, .claim hway, rfl⟩
        · exact .inr ⟨a, .claim cell :: front, back, .claim hfront, hback, rfl⟩
      · exact .inl ⟨_, .refused task, rfl⟩
    | await cell rest ih =>
      obtain ⟨received, way, hrest, rfl⟩ := performs_await.1 h
      cases received with
      | ok v =>
        rcases ih v hrest with ⟨e, hway, rfl⟩ | ⟨a, front, back, hfront, hback, rfl⟩
        · exact .inl ⟨e, .receive _ hway, rfl⟩
        · exact .inr ⟨a, .receive cell (.ok v) :: front, back, .receive _ hfront, hback, rfl⟩
      | error e =>
        obtain ⟨rfl, rfl⟩ := performs_fail.1 hrest
        exact .inl ⟨e, .receive _ (.here _), rfl⟩
  · rintro (⟨e, hway, rfl⟩ | ⟨a, front, back, hfront, hback, rfl⟩)
    · exact hway.bind f
    · exact (hfront.bind f).trans hback

theorem performs_bind_ok {f : α → Prog ω β} {b : β} :
    (p >>= f).Performs way (.ok b) ↔ ∃ a front back, p.Performs front (.ok a) ∧
      (f a).Performs back (.ok b) ∧ way = front ++ back := by
  rw [performs_bind]
  simp

theorem performs_bind_error {f : α → Prog ω β} {e : Failure} :
    (p >>= f).Performs way (.error e) ↔ p.Performs way (.error e) ∨
      ∃ a front back, p.Performs front (.ok a) ∧ (f a).Performs back (.error e) ∧
        way = front ++ back := by
  rw [performs_bind]
  simp

theorem performs_bind_done_ok {g : α → β} {b : β} :
    (p >>= fun a => .done (g a)).Performs way (.ok b) ↔ ∃ a, p.Performs way (.ok a) ∧ b = g a := by
  rw [performs_bind_ok]
  constructor
  · rintro ⟨a, front, back, h, hback, rfl⟩
    obtain ⟨rfl, hb⟩ := performs_done.1 hback
    exact ⟨a, by rwa [List.append_nil], Except.ok.inj hb⟩
  · rintro ⟨a, h, rfl⟩
    exact ⟨a, way, [], h, .here _, (List.append_nil way).symm⟩

theorem performs_bind_done_error {g : α → β} {e : Failure} :
    (p >>= fun a => .done (g a)).Performs way (.error e) ↔ p.Performs way (.error e) := by
  rw [performs_bind_error]
  simp

theorem Performs.unique (h : p.Performs way o) (h' : p.Performs way o') : o = o' := by
  induction p generalizing way with
  | done a => rw [(performs_done.1 h).2, (performs_done.1 h').2]
  | fail e => rw [(performs_fail.1 h).2, (performs_fail.1 h').2]
  | emit line rest ih =>
    obtain ⟨back, hrest, rfl⟩ := performs_emit.1 h
    obtain ⟨_, hrest', ⟨⟩⟩ := performs_emit.1 h'
    exact ih hrest hrest'
  | spawn work rest ih =>
    obtain ⟨task, back, hrest, rfl⟩ := performs_spawn.1 h
    obtain ⟨_, _, hrest', ⟨⟩⟩ := performs_spawn.1 h'
    exact ih task hrest hrest'
  | claim cell rest ih =>
    rcases performs_claim.1 h with ⟨back, hrest, rfl⟩ | ⟨task, rfl, rfl⟩
    · rcases performs_claim.1 h' with ⟨_, hrest', ⟨⟩⟩ | ⟨_, _, ⟨⟩⟩
      exact ih hrest hrest'
    · rcases performs_claim.1 h' with ⟨_, _, ⟨⟩⟩ | ⟨_, ho, ⟨⟩⟩
      exact ho.symm
  | await cell rest ih =>
    obtain ⟨received, back, hrest, rfl⟩ := performs_await.1 h
    obtain ⟨_, _, hrest', ⟨⟩⟩ := performs_await.1 h'
    cases received with
    | ok v => exact ih v hrest hrest'
    | error e => rw [(performs_fail.1 hrest).2, (performs_fail.1 hrest').2]

end Prog

/-! ### Runs -/

namespace System

variable {stack : Stack} {s last : System} {id : ThreadId} {t t' : Thread}
  {ids : List ThreadId}

/-- What a thread does in a step, unless it delivers its result, its program can do next. -/
theorem passes_of_moves {m : Move} (hm : t.Moves stack s.cell id m)
    (hdelivered : m.thread.delivered = none) : ∃ step, t.rest.Passes [step] m.thread.rest ∧
      t.act? id = step.act? ∧ m.thread.printed = step.line?.toList ++ t.printed := by
  cases hm with
  | @print line rest hrest =>
    rw [hrest, Thread.act?, hrest]
    exact ⟨.print line, .print (.here _), rfl, rfl⟩
  | @spawn work rest hrest =>
    rw [hrest, Thread.act?, hrest]
    exact ⟨.spawn (.child id (t.spawned + 1)) work, .spawn _ (.here _), rfl, rfl⟩
  | @take wanted rest c hrest =>
    rw [hrest, Thread.act?, hrest]
    exact ⟨.claim wanted, .claim (.here _), rfl, rfl⟩
  | @refuse wanted rest c hrest =>
    rw [hrest, Thread.act?, hrest]
    exact ⟨.refused wanted c.label, .refused c.label, rfl, rfl⟩
  | @receive wanted rest c o hrest =>
    rw [hrest, Thread.act?, hrest]
    exact ⟨.receive wanted o, .receive o (.here _), rfl, rfl⟩
  | deliver | late | lost => cases hdelivered

/-- What a thread does in a run, as long as it delivers nothing, its program does on its way. Its
spawns and claims are those of the run, in order, and so are the lines. -/
theorem Counted.passes_of_run (hs : s.Counted) (ht : s.thread id = some t)
    (hrun : s.run stack ids = some last) (ht' : last.thread id = some t')
    (hdelivered : t'.delivered = none) : ∃ way, t.rest.Passes way t'.rest ∧
      s.actsBy stack id ids = way.filterMap Prog.Step.act? ∧
      t'.printed = (way.filterMap Prog.Step.line?).reverse ++ t.printed := by
  induction ids generalizing s t with
  | nil =>
    cases hrun
    cases ht.symm.trans ht'
    exact ⟨[], .here _, rfl, rfl⟩
  | cons other ids ih =>
    obtain ⟨next, hstep, hrest⟩ := run_cons_eq_some_iff.1 hrun
    obtain ⟨t₁, ht₁, -⟩ := hs.exists_thread_of_step ht hstep
    obtain ⟨way, hpasses, hacts, hprinted⟩ := ih (hs.step hstep) ht₁ hrest
    rw [actsBy_cons hstep, hacts]
    obtain ⟨u, m, hu, hm, rfl⟩ := step_eq_some_iff.1 hstep
    by_cases hother : other = id
    · subst hother
      cases ht.symm.trans hu
      cases after_thread_self.symm.trans ht₁
      have hkept : m.thread.delivered = none := by
        obtain ⟨t₂, ht₂, -, hkept⟩ := (hs.step hstep).exists_thread_of_run ht₁ hrest
        cases ht'.symm.trans ht₂
        exact hkept hdelivered
      obtain ⟨step, hway, hact, hline⟩ := passes_of_moves hm hkept
      refine ⟨step :: way, hway.trans hpasses, ?_, ?_⟩
      · rw [if_pos rfl, System.act?, ht, Option.bind_some, hact]
        cases hd : step.act? <;> simp [hd]
      · rw [hprinted, hline]
        cases hd : step.line? <;> simp [hd]
    · cases ht₁.symm.trans (after_thread_of_ne hs hu hm (Ne.symm hother) ht)
      exact ⟨way, hpasses, by simp [hother], hprinted⟩

end System

end ForkJoin

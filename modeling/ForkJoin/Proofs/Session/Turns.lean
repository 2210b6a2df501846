import ForkJoin.Proofs.Flat.Alike
import ForkJoin.Proofs.Run

/-!
# What turns do to a system

A pool decides whose turn it is and keeps books on who is ready and who waits. None of this is part
of its system. To the system every turn is a step of one thread or nothing at all, so whatever a
pool does on its own, until it settles, until a thread is over or for some threads out of turn, is a
run.
-/

namespace ForkJoin

namespace Pool

variable {stack : Stack} {p p' p'' : Pool}

@[simp] theorem wake_system (p : Pool) (x : CellId) : (p.wake x).system = p.system := rfl

theorem setCell_system (p : Pool) (x : CellId) (c : Cell) :
    (p.setCell x c).system = p.system.setCell x c := by
  unfold setCell
  dsimp only
  split <;> exact Store.system_setCell p.store x c

theorem add_system (p : Pool) (id : ThreadId) (t : Thread) :
    (p.add id t).system = p.system.setThread id t :=
  Store.system_setThread p.store id t

theorem setMain_system (p : Pool) (t : Thread) :
    (p.setMain t).system = p.system.setThread .main t :=
  Store.system_setThread p.store .main t

theorem startMain_system (p : Pool) (rest : Prog Work Result) :
    (p.startMain rest).system = p.system.setThread .main { p.main with rest } :=
  p.setMain_system _

theorem thread_main (p : Pool) : p.system.thread .main = some p.main := by
  change p.store.thread .main = some ((p.store.thread .main).getD .idle)
  unfold Store.thread
  cases p.store.threads.get? .main <;> rfl

theorem setAside_system (p : Pool) (turn : Turn) (rest : List Turn) :
    (p.setAside turn rest).system = p.system := by
  unfold setAside
  split <;> rfl

/-- A pass through a list keeps a pool's system where each of its entries does. -/
theorem foldl_system {α : Type} {f : Pool → α → Pool} (hf : ∀ p x, (f p x).system = p.system) :
    ∀ (xs : List α) (p : Pool), (xs.foldl f p).system = p.system
  | [], _ => rfl
  | x :: xs, p => (foldl_system hf xs (f p x)).trans (hf p x)

theorem noteStep_system (p : Pool) (turn : Turn) (rest : List Turn) (e : Effect) :
    (p.noteStep turn rest e).system = p.system.bring turn.thread e := by
  unfold noteStep
  dsimp only
  rw [foldl_system, foldl_system]
  · exact Store.bring_system p.store turn.thread e
  · exact fun _ _ => rfl
  · intro p x
    split
    · exact p.wake_system _
    · rfl

theorem advance_system (h : p.advance stack = some p') :
    p'.system = p.system ∨ ∃ id, p.system.step stack id = some p'.system := by
  unfold advance at h
  split at h
  case h_1 => cases h
  case h_2 turn rest _ =>
    split at h
    case h_1 e hact =>
      cases h
      obtain ⟨t, ht, hact⟩ := Option.bind_eq_some_iff.1 hact
      refine .inr ⟨turn.thread, ?_⟩
      rw [noteStep_system]
      exact Option.bind_eq_some_iff.2 ⟨t, ht, Option.bind_eq_some_iff.2 ⟨e, hact, rfl⟩⟩
    case h_2 =>
      cases h
      exact .inl (p.setAside_system turn rest)

def Runs (stack : Stack) (p p' : Pool) : Prop :=
  ∃ ids, p.system.run stack ids = some p'.system

theorem Runs.refl (p : Pool) : p.Runs stack p :=
  ⟨[], rfl⟩

theorem Runs.trans (h : p.Runs stack p') (h' : p'.Runs stack p'') : p.Runs stack p'' := by
  obtain ⟨ids, hrun⟩ := h
  obtain ⟨more, hmore⟩ := h'
  exact ⟨ids ++ more, System.run_append hrun hmore⟩

theorem runs_of_advance (h : p.advance stack = some p') : p.Runs stack p' := by
  rcases advance_system h with heq | ⟨id, hstep⟩
  · exact ⟨[], congrArg some heq.symm⟩
  · exact ⟨[id], System.run_cons_eq_some_iff.2 ⟨p'.system, hstep, rfl⟩⟩

theorem runs_serve (p : Pool) (order : List ThreadId) : p.Runs stack (p.serve stack order) := by
  induction order generalizing p with
  | nil => exact .refl p
  | cons id order ih =>
    refine Runs.trans ?_ (ih _)
    dsimp only
    split
    · cases hadvance : (p.prefer id).advance stack with
      | none => exact .refl p
      | some p' => exact runs_of_advance (p := p.prefer id) hadvance
    · exact .refl p

theorem runs_settle (p : Pool) (steps : Nat) : p.Runs stack (p.settle stack steps) := by
  induction steps generalizing p with
  | zero => exact .refl p
  | succ steps ih =>
    unfold settle
    split
    · exact .refl p
    · rename_i hadvance
      exact (runs_of_advance hadvance).trans (ih _)

theorem runs_runUntilOver (p : Pool) (steps : Nat) (id : ThreadId) :
    p.Runs stack (p.runUntilOver stack steps id) := by
  induction steps generalizing p with
  | zero => exact .refl p
  | succ steps ih =>
    unfold runUntilOver
    split
    · exact .refl p
    · split
      · exact .refl p
      · rename_i hadvance
        exact (runs_of_advance hadvance).trans (ih _)

theorem ended?_main (p : Pool) : p.system.ended? .main = p.main.rest.ended? := by
  rw [System.ended?, p.thread_main]
  rfl

end Pool

end ForkJoin

import ForkJoin.Interpreter
import ForkJoin.Proofs.Matching
import ForkJoin.Proofs.Run.Invariant

/-!
# Nothing but values and errors of the language

In a system that starts out with values of the language, faults stay out: every thread that comes to
an end does so with a well-formed value, an error of the language or an exhausted stack, and so does
everything that is stored in a cell. What can go wrong inside an evaluation is known from
`Matching.evaluators_eval`, read with every name matched to itself. Between threads only outcomes
pass, and a cell that is claimed twice adds one more error of the language. An interpreter reports an
exhausted stack as an error of the language too, also one that happened in another thread.

Cells that are written from outside may hold errors of any kinds; these kinds and the seven that the
language defines are all that an evaluation raises.
-/

namespace ForkJoin

/-- The errors of the seven kinds that the language tells apart. -/
def LanguageError.Specific : LanguageError → Prop
  | .other _ _ _ _ _ => False
  | _ => True

/-- An error of the language of the given kinds, or an exhausted stack. -/
def Failure.Proper (kinds : LanguageError → Prop) : Failure → Prop
  | .language e => kinds e
  | .fault f => f = .stackExhausted

def Outcome.Proper (kinds : LanguageError → Prop) : Outcome → Prop
  | .ok v => v.WellFormed
  | .error e => e.Proper kinds

/-- A program that hands on well-formed works only and ends with a well-formed result or a proper
failure, whatever well-formed values it receives. -/
def Prog.Proper (kinds : LanguageError → Prop) : Prog Work Result → Prop
  | .done r => r.WellFormed
  | .fail e => e.Proper kinds
  | .emit _ rest | .claim _ rest => rest.Proper kinds
  | .spawn work rest => work.WellFormed ∧ ∀ id, (rest id).Proper kinds
  | .await _ rest => ∀ v, v.WellFormed → (rest v).Proper kinds

section

variable {kinds : LanguageError → Prop} (hkinds : ∀ e, e.Specific → kinds e)

include hkinds

theorem Failure.Raised.proper {e : Failure} (he : e.Raised) : e.Proper kinds := by
  cases e with
  | language e =>
    cases e with
    | alreadyConsumed | depthExceeded | other => exact he.elim
    | _ => exact hkinds _ trivial
  | fault f =>
    cases f with
    | stackExhausted => rfl
    | _ => exact he.elim

def Matching.self : Matching where
  thread := id
  cell := id
  cell_task _ := rfl
  failure e e' := e' = e ∧ e.Proper kinds
  failure_raised _ he := ⟨rfl, he.proper hkinds⟩

theorem Prog.Matches.proper {p q : Prog Work Result}
    (h : Matches (Matching.self hkinds) (Matching.self hkinds).Results p q) :
    p.Proper kinds := by
  induction h with
  | done h => exact h.wellFormed
  | fail h => exact h.2
  | stop h => exact h.elim
  | emit h ih => exact ih
  | spawn hwork h ih => exact ⟨hwork.wellFormed, ih⟩
  | claim h ih => exact ih
  | await h ih => exact ih

theorem proper_eval (stack : Stack) (ctx : Context) {env : Env} {e : Expr}
    (henv : env.WellFormed) (he : e.WellFormed) : (stack.eval ctx env e).Proper kinds :=
  ((Matching.self hkinds).evaluators_eval stack.depth stack.room ctx ctx env e ⟨rfl, rfl⟩ henv
    he).proper hkinds

end

/-! ### Proper systems -/

/-- A system in which every cell is empty or holds a proper outcome, and in which every thread goes
on properly. -/
structure System.Proper (kinds : LanguageError → Prop) (s : System) : Prop where
  thread : ∀ id t, s.thread id = some t → t.rest.Proper kinds
  cell : ∀ x c o, s.cell x = some c → c.outcome = some o → Outcome.Proper kinds o

section

variable {kinds : LanguageError → Prop} {stack : Stack} {s s' : System} {id : ThreadId}
  {t : Thread} {m : Move}

theorem Prog.Proper.resume {rest : Value → Prog Work Result} {x : CellId} {o : Outcome}
    (h : (Prog.await x rest).Proper kinds) (ho : Outcome.Proper kinds o) :
    (Prog.resume rest o).Proper kinds := by
  cases o with
  | ok v => exact h v ho
  | error e => exact ho

theorem Thread.proper_outcome {o : Outcome} (ht : t.rest.Proper kinds)
    (ho : t.outcome? = some o) : Outcome.Proper kinds o := by
  unfold outcome? at ho
  split at ho
  case h_1 r hrest =>
    cases ho
    rw [hrest] at ht
    exact ht.value
  case h_2 e hrest =>
    cases ho
    rw [hrest] at ht
    exact ht
  case h_3 => cases ho

theorem Thread.Moves.proper {cell : CellId → Option Cell} (hkinds : ∀ e, e.Specific → kinds e)
    (hm : t.Moves stack cell id m) (ht : t.rest.Proper kinds)
    (hcell : ∀ x c o, cell x = some c → c.outcome = some o → Outcome.Proper kinds o) :
    m.thread.rest.Proper kinds := by
  cases hm with
  | print hrest | take hrest =>
    rw [hrest] at ht
    exact ht
  | spawn hrest =>
    rw [hrest] at ht
    exact ht.2 _
  | refuse => exact hkinds _ trivial
  | receive hrest hc hwritten =>
    rw [hrest] at ht
    exact ht.resume (hcell _ _ _ hc hwritten)
  | deliver | late | lost => simpa only [announced_rest] using ht

namespace System

theorem outcome_after_cases {x : CellId} {c : Cell} {o : Outcome}
    (hm : t.Moves stack s.cell id m) (hc : (s.after id m).cell x = some c)
    (ho : c.outcome = some o) :
    (∃ c₀, s.cell x = some c₀ ∧ c₀.outcome = some o) ∨
      t.outcome? = some o ∧ ∃ d, t.due? = some d ∧ d.cell = x := by
  have hon : m.change.on s.cell x = some c := hc
  cases hchange : m.change with
  | keep =>
    rw [hchange] at hon
    exact .inl ⟨c, hon, ho⟩
  | take y =>
    by_cases hy : x = y
    · subst hy
      simp only [hchange, Change.on, if_true] at hon
      obtain ⟨c₀, hc₀, rfl⟩ := Option.map_eq_some_iff.1 hon
      exact .inl ⟨c₀, hc₀, ho⟩
    · simp only [hchange, Change.on, if_neg hy] at hon
      exact .inl ⟨c, hon, ho⟩
  | put y o' =>
    by_cases hy : x = y
    · subst hy
      simp only [hchange, Change.on, if_true] at hon
      obtain ⟨c₀, hc₀, rfl⟩ := Option.map_eq_some_iff.1 hon
      cases ho
      obtain ⟨hended, d, hdue, hd, -⟩ := hm.of_put hchange
      exact .inr ⟨hended, d, hdue, hd⟩
    · simp only [hchange, Change.on, if_neg hy] at hon
      exact .inl ⟨c, hon, ho⟩
  | make y label =>
    by_cases hy : x = y
    · simp only [hchange, Change.on, if_pos hy, Option.some.injEq] at hon
      rw [← hon] at ho
      cases ho
    · simp only [hchange, Change.on, if_neg hy] at hon
      exact .inl ⟨c, hon, ho⟩

theorem Proper.after (hkinds : ∀ e, e.Specific → kinds e) (hs : s.Proper kinds)
    (ht : s.thread id = some t) (hm : t.Moves stack s.cell id m) :
    (s.after id m).Proper kinds := by
  have htproper := hs.thread id t ht
  refine ⟨fun other t' hother => ?_, fun x c o hc ho => ?_⟩
  · rcases after_thread_eq_some hother with ⟨-, rfl⟩ | ⟨-, hstart⟩ | ⟨-, hthread⟩
    · exact hm.proper hkinds htproper hs.cell
    · obtain ⟨-, -, -, work, rest, hrest, rfl⟩ := hm.of_start hstart
      rw [hrest] at htproper
      exact proper_eval hkinds stack _ htproper.1.env htproper.1.expr
    · exact hs.thread other t' hthread
  · rcases outcome_after_cases hm hc ho with ⟨c₀, hc₀, ho⟩ | ⟨hended, -⟩
    · exact hs.cell x c₀ o hc₀ ho
    · exact Thread.proper_outcome htproper hended

theorem Proper.run {ids : List ThreadId} (hkinds : ∀ e, e.Specific → kinds e)
    (hs : s.Proper kinds) (hrun : s.run stack ids = some s') : s'.Proper kinds := by
  refine run_induction (fun s id s' hs hstep => ?_) hs hrun
  obtain ⟨t, m, ht, hm, rfl⟩ := step_eq_some_iff.1 hstep
  exact hs.after hkinds ht hm

theorem Proper.setThread {t : Thread} (hs : s.Proper kinds) (id : ThreadId)
    (ht : t.rest.Proper kinds) :
    (s.setThread id t).Proper kinds := by
  refine ⟨fun other t' hother => ?_, hs.cell⟩
  rw [thread_setThread] at hother
  split at hother
  · cases hother
    exact ht
  · exact hs.thread other t' hother

theorem proper_initial : initial.Proper kinds := by
  refine ⟨fun id t ht => ?_, fun x c o hc ho => ?_⟩
  · simp only [initial, Option.ite_none_right_eq_some, Option.some.injEq] at ht
    rw [← ht.2]
    exact ⟨Value.wellFormed_vec [] |>.2 fun v hv => absurd hv List.not_mem_nil,
      fun f hf => absurd hf List.not_mem_nil⟩
  · simp only [initial, firstCell] at hc
    split at hc
    · cases hc
      cases ho
    · cases hc

end System

end

/-! ### Interpreters -/

theorem Env.wellFormed_builtins : Env.builtins.WellFormed := by
  refine List.forall_mem_singleton.2 (Frame.wellFormed_ofList fun binding hbinding => ?_)
  obtain ⟨b, -, rfl⟩ := List.mem_map.1 hbinding
  exact trivial

namespace Interpreter

/-- **No fault escapes.** In a proper system, whatever other threads do, an evaluation that an
interpreter makes of a well-formed expression among well-formed bindings, if it ends, ends with a
well-formed value or with an error of the language, of one of the seven kinds or of a kind that was
stored in a cell; it leaves all bindings well-formed and the system proper. -/
theorem value_or_language_error {kinds : LanguageError → Prop}
    (hkinds : ∀ e, e.Specific → kinds e) (stack : Stack) (steps : Nat) {s last : System}
    (hs : s.Proper kinds) {i : Interpreter} {e : Expr} (hi : i.env.WellFormed)
    (he : e.WellFormed) {t t' : Thread} {ids : List ThreadId}
    (hrun : (s.setThread .main { t with rest := i.program ⟨stack, steps, .compact⟩ e }).run stack
      ids = some last)
    (ht' : last.thread .main = some t') {o : Except Failure Result}
    (hended : t'.rest.ended? = some o) :
    last.Proper kinds ∧
      match i.conclude ⟨stack, steps, .compact⟩ o with
      | (j, .ok v) => v.WellFormed ∧ j.env.WellFormed
      | (j, .error (.language err)) => kinds err ∧ j = i
      | (_, .error (.fault _)) => False := by
  have hstart := hs.setThread (t := { t with rest := i.program ⟨stack, steps, .compact⟩ e }) .main
    (proper_eval hkinds stack i.context hi he)
  have hlast := hstart.run hkinds hrun
  refine ⟨hlast, ?_⟩
  have hproper := hlast.thread .main t' ht'
  cases hrest : t'.rest with
  | done r =>
    rw [hrest] at hended hproper
    cases hended
    exact ⟨hproper.value, hproper.env.compact⟩
  | fail failure =>
    rw [hrest] at hended hproper
    cases hended
    cases failure with
    | language err => exact ⟨hproper, rfl⟩
    | fault f =>
      have hf : f = .stackExhausted := hproper
      subst hf
      exact ⟨hkinds _ trivial, rfl⟩
  | emit | spawn | claim | await =>
    rw [hrest] at hended
    cases hended

/-- The failure of a task comes out where the task is waited for, as the error that it is. -/
theorem value_or_language_error_of_task :
    ∃ (last : System) (t : Thread) (o : Except Failure Result),
      (System.initial.setThread .main { Thread.idle with
        rest := Interpreter.program ⟨⟨3, none⟩, 4, .compact⟩ {} (.sync (.spawn (.var "x"))) }).run
          ⟨3, none⟩ [.main, .main, .child .main 1, .main] = some last ∧
      last.thread .main = some t ∧ t.rest.ended? = some o ∧ last.Proper LanguageError.Specific ∧
      Interpreter.conclude ⟨⟨3, none⟩, 4, .compact⟩ {} o =
        ({}, .error (.language (.undefinedVariable "x"))) := by
  obtain ⟨last, t, o, hrun, ht, hended, hconclude⟩ :
      ∃ (last : System) (t : Thread) (o : Except Failure Result),
        (System.initial.setThread .main { Thread.idle with
          rest := Interpreter.program ⟨⟨3, none⟩, 4, .compact⟩ {} (.sync (.spawn (.var "x"))) }).run
            ⟨3, none⟩ [.main, .main, .child .main 1, .main] = some last ∧
        last.thread .main = some t ∧ t.rest.ended? = some o ∧
        Interpreter.conclude ⟨⟨3, none⟩, 4, .compact⟩ {} o =
          ({}, .error (.language (.undefinedVariable "x"))) :=
    ⟨_, _, _, rfl, rfl, rfl, rfl⟩
  have hproper := value_or_language_error (fun _ h => h) ⟨3, none⟩ 4 System.proper_initial
    (i := {}) (e := .sync (.spawn (.var "x"))) Env.wellFormed_builtins trivial hrun ht hended
  exact ⟨last, t, o, hrun, ht, hended, hproper.1, hconclude⟩

end Interpreter

end ForkJoin

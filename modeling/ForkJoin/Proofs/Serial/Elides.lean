import ForkJoin.Proofs.Serial.Replay

/-!
# Evaluations whose spawns and syncs are taken away

Without spawns and syncs an evaluation is one of a single thread: it prints, and then it has a value
or a failure. How deep it nests is not known beforehand, since what was done by a task is now done
in place. So it is stated for all depths and rooms that are large enough what it ends with:
`Staged.Settles` says so, and goes through every way in which an evaluation is put together.

`Prog.Elides` relates a program of a run to one without spawns and syncs. Whenever the first was
replayed with success, the second settles on a related result.
-/

namespace ForkJoin

open Prog (Leads)

theorem Prog.Leads.trans {ω α : Type} {p q r : Prog ω α} (h : p.Leads q) (h' : q.Leads r) :
    p.Leads r := by
  induction h with
  | here p => exact h'
  | emit h ih => exact .emit (ih h')

abbrev Staged (α : Type) := Nat → Room → Context → Prog Work α

/-- With scoped bindings, where limit and room are large enough, a program prints and ends with a
result. -/
def Staged.Settles {α : Type} (p : Staged α) (a : α) : Prop :=
  ∃ enough, ∀ limit (room : Room) ctx, enough ≤ limit → room.has enough →
    ctx.scopedLet = true → (p limit room ctx).Leads (.done a)

namespace Staged.Settles

variable {α β : Type} {a : α} {b : β}

theorem done {f : Context → α} (hf : ∀ ctx, ctx.scopedLet = true → f ctx = a) :
    Settles (fun _ _ ctx => .done (f ctx)) a := by
  refine ⟨0, fun _ _ ctx _ _ hscoped => ?_⟩
  rw [← hf ctx hscoped]
  exact .here _

theorem ofExcept {x : Room → Except Failure α} {n : Nat}
    (hx : ∀ room : Room, room.has n → x room = .ok a) :
    Settles (fun _ room _ => .ofExcept (x room)) a := by
  refine ⟨n, fun _ room _ _ hroom _ => ?_⟩
  change (Prog.ofExcept (x room)).Leads (.done a)
  rw [hx room hroom]
  exact .here _

theorem bind {p : Staged α} {f : Nat → Room → Context → α → Prog Work β} (hp : p.Settles a)
    (hf : Settles (fun limit room ctx => f limit room ctx a) b) :
    Settles (fun limit room ctx => p limit room ctx >>= f limit room ctx) b := by
  obtain ⟨m, hm⟩ := hp
  obtain ⟨n, hn⟩ := hf
  refine ⟨max m n, fun limit room ctx hlimit hroom hscoped => ?_⟩
  have hfirst := hm limit room ctx (Nat.le_trans (Nat.le_max_left m n) hlimit)
    (Room.has_of_le hroom (Nat.le_max_left m n)) hscoped
  exact (hfirst.bind _).trans (hn limit room ctx (Nat.le_trans (Nat.le_max_right m n) hlimit)
    (Room.has_of_le hroom (Nat.le_max_right m n)) hscoped)

theorem less {p : Staged α} (hp : p.Settles a) (k : Nat) :
    Settles (fun limit room ctx => p limit (room.less k) ctx) a := by
  obtain ⟨n, hn⟩ := hp
  refine ⟨n + k, fun limit room ctx hlimit hroom hscoped => ?_⟩
  exact hn limit (room.less k) ctx (Nat.le_trans (Nat.le_add_right n k) hlimit)
    (Room.has_less hroom) hscoped

theorem trace {p : Staged α} (hp : p.Settles a) (message : String) :
    Settles (fun limit room ctx => ctx.trace message >>= fun _ => p limit room ctx) a := by
  obtain ⟨n, hn⟩ := hp
  exact ⟨n, fun limit room ctx hlimit hroom hscoped =>
    Prog.leads_trace (hn limit room ctx hlimit hroom hscoped)⟩

theorem eval {env : Env} {e : Expr} {r : Result}
    (h : Settles (fun limit room ctx => evalNode (ForkJoin.eval limit) room ctx env e) r) :
    Settles (fun limit room ctx => ForkJoin.eval limit room ctx env e) r := by
  obtain ⟨n, hn⟩ := h
  refine ⟨n + 2, fun limit room ctx hlimit hroom hscoped => ?_⟩
  obtain ⟨below, rfl⟩ := Nat.exists_eq_add_one_of_ne_zero (n := limit) (by omega)
  change (ForkJoin.eval (below + 1) room ctx env e).Leads (.done r)
  rw [eval_succ below (Room.has_of_le hroom (Nat.le_add_left 2 n))]
  exact hn below room ctx (by omega) (Room.has_of_le hroom (Nat.le_add_right n 2)) hscoped

end Staged.Settles

/-! ### Programs and what is left of them -/

/-- Whenever a program was replayed with success, a staged program settles on a related result. -/
def Prog.Elides {α β : Type} (ρ : Record) (id : ThreadId) (R : α → β → Prop) (p : Prog Work α)
    (q : Staged β) : Prop :=
  ∀ n a m, p.Replays ρ id n (.ok a) m → ∃ b, R a b ∧ q.Settles b

namespace Prog.Elides

variable {ρ : Record} {id : ThreadId} {α β γ δ : Type} {R : α → β → Prop} {S : γ → δ → Prop}
  {p : Prog Work α} {q : Staged β}

theorem done {a : α} {b : β} {f : Context → β} (h : R a b)
    (hf : ∀ ctx, ctx.scopedLet = true → f ctx = b) :
    (Prog.done a).Elides ρ id R (fun _ _ ctx => .done (f ctx)) := by
  intro n a' m hp
  cases hp
  exact ⟨b, h, .done hf⟩

theorem fail {e : Failure} : (Prog.fail e).Elides ρ id R q := by
  intro n a m hp
  cases hp

theorem bind {f : α → Prog Work γ} {g : Nat → Room → Context → β → Prog Work δ}
    (hp : p.Elides ρ id R q)
    (hf : ∀ a b, R a b → (f a).Elides ρ id S fun limit room ctx => g limit room ctx b) :
    (p >>= f).Elides ρ id S (fun limit room ctx => q limit room ctx >>= g limit room ctx) := by
  intro n c m h
  obtain ⟨a, k, hfirst, hrest⟩ := h.of_bind
  obtain ⟨b, hab, hq⟩ := hp n a k hfirst
  obtain ⟨d, hcd, hg⟩ := hf a b hab k c m hrest
  exact ⟨d, hcd, hq.bind hg⟩

theorem bind_left {S : γ → β → Prop} {f : α → Prog Work γ} (hp : p.Elides ρ id R q)
    (hf : ∀ a b, R a b → ∀ n c m, (f a).Replays ρ id n (.ok c) m → S c b) :
    (p >>= f).Elides ρ id S q := by
  intro n c m h
  obtain ⟨a, k, hfirst, hrest⟩ := h.of_bind
  obtain ⟨b, hab, hq⟩ := hp n a k hfirst
  exact ⟨b, hf a b hab k c m hrest, hq⟩

theorem less (h : p.Elides ρ id R q) (k : Nat) :
    p.Elides ρ id R fun limit room ctx => q limit (room.less k) ctx := by
  intro n a m hp
  obtain ⟨b, hab, hq⟩ := h n a m hp
  exact ⟨b, hab, hq.less k⟩

theorem trace_left {ctx : Context} {message : String} {f : Unit → Prog Work α}
    (h : (f ()).Elides ρ id R q) : (ctx.trace message >>= f).Elides ρ id R q := by
  intro n a m hp
  unfold Context.trace at hp
  split at hp
  · cases hp with
    | emit hp => exact h n a m hp
  · exact h n a m hp

theorem trace {ctx : Context} {message message' : String} {f : Unit → Prog Work α}
    (h : (f ()).Elides ρ id R q) : (ctx.trace message >>= f).Elides ρ id R
      fun limit room ctx => ctx.trace message' >>= fun _ => q limit room ctx := by
  refine trace_left fun n a m hp => ?_
  obtain ⟨b, hab, hq⟩ := h n a m hp
  exact ⟨b, hab, hq.trace message'⟩

theorem ofExcept {x : Except Failure α} {y : Room → Except Failure β}
    (h : ∀ a, x = .ok a → ∃ b, R a b ∧ ∃ n, ∀ room : Room, room.has n → y room = .ok b) :
    (Prog.ofExcept x).Elides ρ id R fun _ room _ => .ofExcept (y room) := by
  intro n a m hp
  cases x with
  | error e => cases hp
  | ok a' =>
    cases hp
    obtain ⟨b, hab, k, hk⟩ := h a rfl
    exact ⟨b, hab, .ofExcept hk⟩

end Prog.Elides

end ForkJoin

import ForkJoin.Interpreter
import ForkJoin.Proofs.Calls
import ForkJoin.Proofs.Equal
import ForkJoin.Proofs.Within.Value

/-!
# Equality is identity of values without futures

Two values of the language are equal exactly when they are the same value and no future is in it,
however vectors, functions, bodies and literals are put into one another. What a comparison needs is
room: a value has a number of entries that is read off its parts, and a comparison that finds as
many comes to an answer (`Value.tells_equal`). To compare a value without futures with itself takes
just that many (`Value.equal_self`), so vectors that are nested deep enough exhaust the stack.

All of this is by induction along the two syntaxes, with one case for each pair of like kinds; pairs
of unlike kinds go together.
-/

namespace ForkJoin

/-- A comparison answers nothing but whether `same` holds, and it does answer where there is room
for some entries. -/
structure Tells (room : Room) (entries : Nat) (same : Prop) (answer : Except Fault Bool) :
    Prop where
  right : ∀ b, answer = .ok b → (b = true ↔ same)
  enough : room.has entries → ∃ b, answer = .ok b

namespace Tells

variable {room : Room} {m n : Nat} {p q : Prop} {x y : Except Fault Bool}

theorem ok {b : Bool} (h : b = true ↔ p) : Tells room n p (.ok b) where
  right _ hb := Except.ok.inj hb ▸ h
  enough _ := ⟨b, rfl⟩

theorem congr (h : Tells room n p x) (hpq : p ↔ q) : Tells room n q x where
  right b hb := (h.right b hb).trans hpq
  enough := h.enough

theorem mono (h : Tells room m p x) (hle : m ≤ n) : Tells room n p x where
  right := h.right
  enough hroom := h.enough (Room.has_of_le hroom hle)

theorem need (h : Tells room n p x) (hle : m ≤ n) : Tells room n p (room.need m x) where
  right b hb := by
    unfold Room.need at hb
    split at hb
    · exact h.right b hb
    · cases hb
  enough hroom := by
    rw [Room.need_of_has (Room.has_of_le hroom hle)]
    exact h.enough hroom

theorem less (h : Tells (room.less m) n p x) : Tells room (m + n) p x where
  right := h.right
  enough hroom := h.enough (Room.has_less (Nat.add_comm m n ▸ hroom))

theorem both (hx : Tells room n p x) (hy : Tells room n q y) :
    Tells room n (p ∧ q) (bothEqual x y) where
  right b hb := by
    cases x with
    | error f => cases hb
    | ok first =>
      have hfirst := hx.right first rfl
      cases first with
      | false =>
        cases hb
        simpa using fun hp => absurd (hfirst.2 hp) Bool.false_ne_true
      | true => rw [hy.right b hb, and_iff_right (hfirst.1 rfl)]
  enough hroom := by
    obtain ⟨first, rfl⟩ := hx.enough hroom
    cases first with
    | false => exact ⟨false, rfl⟩
    | true => exact hy.enough hroom

theorem ite {c : Prop} [Decidable c] (hx : Tells room n p x) :
    Tells room n (c ∧ p) (if c then x else .ok false) := by
  split
  case isTrue hc => exact hx.congr (and_iff_right hc).symm
  case isFalse hc => exact .ok (by simp [hc])

theorem iteLength {α : Type} {xs ys : List α} {q : Prop} (hx : Tells room n (xs = ys ∧ q) x) :
    Tells room n (xs = ys ∧ q) (if xs.length = ys.length then x else .ok false) :=
  hx.ite.congr (and_iff_right_of_imp fun h => congrArg List.length h.1)

end Tells

def Value.FutureFree (v : Value) : Prop :=
  v.Within fun _ => False

def Expr.FutureFree (e : Expr) : Prop :=
  e.Within fun _ => False

/-! ### The room that a comparison takes -/

mutual

/-- How many entries of the stack it takes to compare a value with itself. -/
def Value.entries : Value → Nat
  | .int _ | .bool _ | .future _ | .foreign _ => 2
  | .vec items => 3 + Value.allEntries items
  | .fn _ _ body => 1 + body.entries

def Value.allEntries : List Value → Nat
  | [] => 0
  | v :: vs => max v.entries (Value.allEntries vs)

def Expr.entries : Expr → Nat
  | .lit value => 4 + value.entries
  | .var _ | .foreign _ => 5
  | .app callee args => max (6 + callee.entries) (9 + Expr.allEntries args)
  | .letIn _ value body => 6 + max value.entries body.entries
  | .cond test yes no => 6 + max test.entries (max yes.entries no.entries)
  | .spawn body | .sync body => 3 + body.entries

def Expr.allEntries : List Expr → Nat
  | [] => 0
  | e :: es => max e.entries (Expr.allEntries es)

end

mutual

theorem Value.two_le_entries : ∀ v : Value, 2 ≤ v.entries
  | .int _ | .bool _ | .future _ | .foreign _ => Nat.le_refl 2
  | .vec _ => by
    rw [Value.entries]
    omega
  | .fn _ _ body => by
    have := body.five_le_entries
    rw [Value.entries]
    omega

theorem Expr.five_le_entries : ∀ e : Expr, 5 ≤ e.entries
  | .var _ | .foreign _ => Nat.le_refl 5
  | .lit v => by
    have := v.two_le_entries
    rw [Expr.entries]
    omega
  | .app _ _ | .letIn _ _ _ | .cond _ _ _ => by
    simp only [Expr.entries]
    omega
  | .spawn body | .sync body => by
    have := body.five_le_entries
    rw [Expr.entries]
    omega

end

/-! ### What a comparison answers -/

mutual

/-- Two values are equal exactly when they are the same and hold no future. -/
theorem Value.tells_equal (room : Room) : ∀ {x y : Value}, x.WellFormed → y.WellFormed →
    Tells room x.entries (x = y ∧ x.FutureFree) (x.equal room y)
  | .foreign _, _, hx, _ => hx.elim
  | .int m, y, _, hy => by
    cases y with
    | foreign d => exact hy.elim
    | _ => exact (Tells.ok (by simp [Value.FutureFree])).need (Nat.le_refl 2)
  | .bool a, y, _, hy => by
    cases y with
    | foreign d => exact hy.elim
    | _ => exact (Tells.ok (by simp [Value.FutureFree])).need (Nat.le_refl 2)
  | .future _, y, _, hy => by
    cases y with
    | foreign d => exact hy.elim
    | _ => exact (Tells.ok (by simp [Value.FutureFree])).need (Nat.le_refl 2)
  | .vec xs, y, hx, hy => by
    cases y with
    | foreign d => exact hy.elim
    | vec ys =>
      have hitems := (Value.tells_equalItems (room.less 3) hx hy).less.need (Nat.le_add_right 3 _)
      refine (hitems.iteLength.need (Value.vec xs).two_le_entries).congr ?_
      simp only [Value.FutureFree, Value.within_vec, Value.vec.injEq]
    | _ => exact (Tells.ok (by simp)).need (Value.two_le_entries _)
  | .fn name params body, y, hx, hy => by
    cases y with
    | foreign d => exact hy.elim
    | fn name' params' body' =>
      have hbody := (Expr.tells_equal (room.less 1) (x := body) (y := body') hx hy).less
      refine (hbody.ite.need (Value.fn name params body).two_le_entries).congr ?_
      simp only [Value.FutureFree, Expr.FutureFree, Value.within_fn, Value.fn.injEq, and_assoc]
    | _ => exact (Tells.ok (by simp)).need (Value.two_le_entries _)

theorem Value.tells_equalItems (room : Room) : ∀ {xs ys : List Value},
    Value.AllWellFormed xs → Value.AllWellFormed ys →
    Tells room (Value.allEntries xs) (xs = ys ∧ ∀ x ∈ xs, x.FutureFree)
      (Value.equalItems room xs ys)
  | [], [], _, _ => .ok (by simp)
  | [], _ :: _, _, _ => .ok (by simp)
  | _ :: _, [], _, _ => .ok (by simp)
  | x :: xs, y :: ys, hxs, hys => by
    have hx := (Value.tells_equal room hxs.1 hys.1).mono (Nat.le_max_left _ (Value.allEntries xs))
    have hrest := (Value.tells_equalItems room hxs.2 hys.2).mono (Nat.le_max_right x.entries _)
    refine (hx.both hrest).congr ?_
    rw [List.cons_eq_cons, List.forall_mem_cons, and_and_and_comm]

theorem Expr.tells_equal (room : Room) : ∀ {x y : Expr}, x.WellFormed → y.WellFormed →
    Tells room x.entries (x = y ∧ x.FutureFree) (x.equal room y)
  | .foreign _, _, hx, _ => hx.elim
  | .lit v, y, hx, hy => by
    cases y with
    | foreign d => exact hy.elim
    | lit w =>
      rw [Expr.equal_lit hx hy]
      have hvalue := (Value.tells_equal (room.less 4) hx hy).less
      refine (hvalue.need (Expr.lit v).five_le_entries).congr ?_
      simp only [Expr.FutureFree, Value.FutureFree, Expr.within_lit, Expr.lit.injEq]
    | _ =>
      cases v <;>
        first
          | exact hx.elim
          | exact (Tells.ok (by simp)).need (Expr.five_le_entries _)
  | .var name, y, _, hy => by
    cases y with
    | foreign d => exact hy.elim
    | _ => exact (Tells.ok (by simp [Expr.FutureFree])).need (Nat.le_refl 5)
  | .app callee args, y, hx, hy => by
    cases y with
    | foreign d => exact hy.elim
    | app callee' args' =>
      have hroom : 8 ≤ (Expr.app callee args).entries := by
        simp only [Expr.entries]
        omega
      have hcallee := (Expr.tells_equal (room.less 6) hx.1 hy.1).less.mono
        (Nat.le_max_left _ (9 + Expr.allEntries args))
      have hargs := ((Expr.tells_equalItems (room.less 9) hx.2 hy.2).less.need
        (Nat.le_add_right 9 _)).mono (Nat.le_max_right (6 + callee.entries) _)
      have hboth := hcallee.both (hargs.iteLength.need hroom)
      refine (hboth.need (Expr.app callee args).five_le_entries).congr ?_
      simp only [Expr.FutureFree, Expr.within_app, Expr.app.injEq, and_and_and_comm]
    | _ => exact (Tells.ok (by simp)).need (Expr.five_le_entries _)
  | .letIn name value body, y, hx, hy => by
    cases y with
    | foreign d => exact hy.elim
    | letIn name' value' body' =>
      have hroom : 8 ≤ (Expr.letIn name value body).entries := by
        have := value.five_le_entries
        simp only [Expr.entries]
        omega
      have hvalue := (Expr.tells_equal (room.less 6) hx.1 hy.1).mono
        (Nat.le_max_left _ body.entries)
      have hbody := (Expr.tells_equal (room.less 6) hx.2 hy.2).mono
        (Nat.le_max_right value.entries _)
      refine ((hvalue.less.both hbody.less).ite.need hroom).congr ?_
      simp only [Expr.FutureFree, Expr.within_letIn, Expr.letIn.injEq]
      rw [and_and_and_comm (a := value = value')]
      exact and_assoc.symm
    | _ => exact (Tells.ok (by simp)).need (Expr.five_le_entries _)
  | .cond test yes no, y, hx, hy => by
    cases y with
    | foreign d => exact hy.elim
    | cond test' yes' no' =>
      have htest := (Expr.tells_equal (room.less 6) hx.1 hy.1).mono
        (Nat.le_max_left _ (max yes.entries no.entries))
      have hyes := (Expr.tells_equal (room.less 6) hx.2.1 hy.2.1).mono
        (Nat.le_trans (Nat.le_max_left _ no.entries) (Nat.le_max_right test.entries _))
      have hno := (Expr.tells_equal (room.less 6) hx.2.2 hy.2.2).mono
        (Nat.le_trans (Nat.le_max_right yes.entries _) (Nat.le_max_right test.entries _))
      have hboth := htest.less.both (hyes.less.both hno.less)
      refine (hboth.need (Expr.cond test yes no).five_le_entries).congr ?_
      simp only [Expr.FutureFree, Expr.within_cond, Expr.cond.injEq, and_and_and_comm]
    | _ => exact (Tells.ok (by simp)).need (Expr.five_le_entries _)
  | .spawn body, y, hx, hy => by
    cases y with
    | foreign d => exact hy.elim
    | spawn body' =>
      have hbody := (Expr.tells_equal (room.less 3) (x := body) (y := body') hx hy).less
      refine (hbody.need (Expr.spawn body).five_le_entries).congr ?_
      simp only [Expr.FutureFree, Expr.within_spawn, Expr.spawn.injEq]
    | _ => exact (Tells.ok (by simp)).need (Expr.five_le_entries _)
  | .sync body, y, hx, hy => by
    cases y with
    | foreign d => exact hy.elim
    | sync body' =>
      have hbody := (Expr.tells_equal (room.less 3) (x := body) (y := body') hx hy).less
      refine (hbody.need (Expr.sync body).five_le_entries).congr ?_
      simp only [Expr.FutureFree, Expr.within_sync, Expr.sync.injEq]
    | _ => exact (Tells.ok (by simp)).need (Expr.five_le_entries _)

theorem Expr.tells_equalItems (room : Room) : ∀ {xs ys : List Expr},
    Expr.AllWellFormed xs → Expr.AllWellFormed ys →
    Tells room (Expr.allEntries xs) (xs = ys ∧ ∀ x ∈ xs, x.FutureFree)
      (Expr.equalItems room xs ys)
  | [], [], _, _ => .ok (by simp)
  | [], _ :: _, _, _ => .ok (by simp)
  | _ :: _, [], _, _ => .ok (by simp)
  | x :: xs, y :: ys, hxs, hys => by
    have hx := (Expr.tells_equal room hxs.1 hys.1).mono (Nat.le_max_left _ (Expr.allEntries xs))
    have hrest := (Expr.tells_equalItems room hxs.2 hys.2).mono (Nat.le_max_right x.entries _)
    refine (hx.both hrest).congr ?_
    rw [List.cons_eq_cons, List.forall_mem_cons, and_and_and_comm]

end

mutual

/-- It does not matter which of two values stands first, not even for the room that is taken. -/
theorem Value.equal_comm (room : Room) : ∀ {x y : Value}, x.WellFormed → y.WellFormed →
    x.equal room y = y.equal room x
  | .foreign _, _, hx, _ => hx.elim
  | .int m, y, _, hy => by
    cases y with
    | foreign d => exact hy.elim
    | int n => simp only [Value.equal, BEq.comm (a := m)]
    | _ => rfl
  | .bool a, y, _, hy => by
    cases y with
    | foreign d => exact hy.elim
    | bool b => simp only [Value.equal, BEq.comm (a := a)]
    | _ => rfl
  | .future _, y, _, hy => by
    cases y with
    | foreign d => exact hy.elim
    | _ => rfl
  | .vec xs, y, hx, hy => by
    cases y with
    | foreign d => exact hy.elim
    | vec ys =>
      have hitems := Value.equalItems_comm (room.less 3) hx hy
      simp only [Value.equal, hitems, eq_comm (a := xs.length)]
    | _ => rfl
  | .fn name params body, y, hx, hy => by
    cases y with
    | foreign d => exact hy.elim
    | fn name' params' body' =>
      have hbody := Expr.equal_comm (room.less 1) (x := body) (y := body') hx hy
      simp only [Value.equal, hbody, eq_comm (a := name), eq_comm (a := params)]
    | _ => rfl

theorem Value.equalItems_comm (room : Room) : ∀ {xs ys : List Value},
    Value.AllWellFormed xs → Value.AllWellFormed ys →
    Value.equalItems room xs ys = Value.equalItems room ys xs
  | [], [], _, _ | [], _ :: _, _, _ | _ :: _, [], _, _ => rfl
  | _ :: _, _ :: _, hxs, hys => by
    simp only [Value.equalItems, Value.equal_comm room hxs.1 hys.1,
      Value.equalItems_comm room hxs.2 hys.2]

theorem Expr.equal_comm (room : Room) : ∀ {x y : Expr}, x.WellFormed → y.WellFormed →
    x.equal room y = y.equal room x
  | .foreign _, _, hx, _ => hx.elim
  | .lit v, y, hx, hy => by
    cases y with
    | foreign d => exact hy.elim
    | lit w =>
      rw [Expr.equal_lit hx hy, Expr.equal_lit hy hx, Value.equal_comm (room.less 4) hx hy]
    | _ => cases v <;> first | exact hx.elim | rfl
  | .var name, y, _, hy => by
    cases y with
    | foreign d => exact hy.elim
    | var name' => simp only [Expr.equal, BEq.comm (a := name)]
    | lit w => cases w <;> first | exact hy.elim | rfl
    | _ => rfl
  | .app callee args, y, hx, hy => by
    cases y with
    | foreign d => exact hy.elim
    | app callee' args' =>
      have hcallee := Expr.equal_comm (room.less 6) hx.1 hy.1
      have hargs := Expr.equalItems_comm (room.less 9) hx.2 hy.2
      simp only [Expr.equal, hcallee, hargs, eq_comm (a := args.length)]
    | lit w => cases w <;> first | exact hy.elim | rfl
    | _ => rfl
  | .letIn name value body, y, hx, hy => by
    cases y with
    | foreign d => exact hy.elim
    | letIn name' value' body' =>
      simp only [Expr.equal, Expr.equal_comm (room.less 6) hx.1 hy.1,
        Expr.equal_comm (room.less 6) hx.2 hy.2, eq_comm (a := name)]
    | lit w => cases w <;> first | exact hy.elim | rfl
    | _ => rfl
  | .cond test yes no, y, hx, hy => by
    cases y with
    | foreign d => exact hy.elim
    | cond test' yes' no' =>
      simp only [Expr.equal, Expr.equal_comm (room.less 6) hx.1 hy.1,
        Expr.equal_comm (room.less 6) hx.2.1 hy.2.1, Expr.equal_comm (room.less 6) hx.2.2 hy.2.2]
    | lit w => cases w <;> first | exact hy.elim | rfl
    | _ => rfl
  | .spawn body, y, hx, hy => by
    cases y with
    | foreign d => exact hy.elim
    | spawn body' => exact congrArg (room.need 5) (Expr.equal_comm (room.less 3) hx hy)
    | lit w => cases w <;> first | exact hy.elim | rfl
    | _ => rfl
  | .sync body, y, hx, hy => by
    cases y with
    | foreign d => exact hy.elim
    | sync body' => exact congrArg (room.need 5) (Expr.equal_comm (room.less 3) hx hy)
    | lit w => cases w <;> first | exact hy.elim | rfl
    | _ => rfl

theorem Expr.equalItems_comm (room : Room) : ∀ {xs ys : List Expr},
    Expr.AllWellFormed xs → Expr.AllWellFormed ys →
    Expr.equalItems room xs ys = Expr.equalItems room ys xs
  | [], [], _, _ | [], _ :: _, _, _ | _ :: _, [], _, _ => rfl
  | _ :: _, _ :: _, hxs, hys => by
    simp only [Expr.equalItems, Expr.equal_comm room hxs.1 hys.1,
      Expr.equalItems_comm room hxs.2 hys.2]

end

/-! ### A value and itself -/

namespace Room

variable {α : Type} {room : Room} {m n : Nat}

theorem need_need (hle : m ≤ n) (a : Except Fault α) :
    room.need m (room.need n a) = room.need n a := by
  by_cases hroom : room.has n
  · rw [need_of_has (has_of_le hroom hle)]
  · simp [need, hroom]

theorem has_less_iff (hn : 0 < n) : (room.less m).has n = room.has (m + n) := by
  cases room with
  | none => rfl
  | some left => simp only [less, has, Option.map_some, decide_eq_decide]; omega

theorem need_less (hn : 0 < n) (a : Except Fault α) :
    (room.less m).need n a = room.need (m + n) a := by
  rw [need, need, has_less_iff hn]

theorem need_need_less (a : Except Fault α) :
    room.need m ((room.less m).need n a) = room.need (m + n) a := by
  cases n with
  | zero => cases room <;> rfl
  | succ n => rw [need_less (Nat.succ_pos n), need_need (Nat.le_add_right m _)]

theorem both_need (a b : Nat) :
    bothEqual (room.need a (.ok true)) (room.need b (.ok true)) =
      room.need (max a b) (.ok true) := by
  rcases Nat.le_total a b with hle | hle
  · rw [Nat.max_eq_right hle, ← need_need hle (Except.ok true)]
    by_cases hroom : room.has a <;> simp [need, hroom, bothEqual] <;> rfl
  · rw [Nat.max_eq_left hle]
    by_cases hroom : room.has a
    · simp [need, hroom, has_of_le hroom hle, bothEqual]
      rfl
    · simp [need, hroom, bothEqual]
      rfl

end Room

mutual

/-- To compare a value without futures with itself takes the entries of the value, no fewer and no
more. -/
theorem Value.equal_self (room : Room) : ∀ {x : Value}, x.WellFormed → x.FutureFree →
    x.equal room x = room.need x.entries (.ok true)
  | .foreign _, hx, _ => hx.elim
  | .future _, _, hfree => by simp [Value.FutureFree] at hfree
  | .int n, _, _ => by simp only [Value.equal, BEq.rfl, Value.entries]
  | .bool b, _, _ => by simp only [Value.equal, BEq.rfl, Value.entries]
  | .vec items, hx, hfree => by
    have hitems := Value.equalItems_self (room.less 3) hx ((Value.within_vec items).1 hfree)
    simp only [Value.equal, hitems, if_true, Room.need_need_less, Value.entries]
    exact Room.need_need (by omega) _
  | .fn name params body, hx, hfree => by
    have hbody := Expr.equal_self (room.less 1) (x := body) hx ((Value.within_fn _ _ body).1 hfree)
    have hfive := body.five_le_entries
    simp only [Value.equal, hbody, and_self, if_true, Value.entries]
    rw [Room.need_less (by omega), Room.need_need (by omega)]

theorem Value.equalItems_self (room : Room) : ∀ {xs : List Value}, Value.AllWellFormed xs →
    (∀ x ∈ xs, x.FutureFree) →
    Value.equalItems room xs xs = room.need (Value.allEntries xs) (.ok true)
  | [], _, _ => by cases room <;> rfl
  | x :: xs, hxs, hfree => by
    obtain ⟨hx, hrest⟩ := List.forall_mem_cons.1 hfree
    rw [Value.equalItems, Value.equal_self room hxs.1 hx, Value.equalItems_self room hxs.2 hrest,
      Room.both_need, Value.allEntries]

theorem Expr.equal_self (room : Room) : ∀ {x : Expr}, x.WellFormed → x.FutureFree →
    x.equal room x = room.need x.entries (.ok true)
  | .foreign _, hx, _ => hx.elim
  | .var name, _, _ => by simp only [Expr.equal, BEq.rfl, Expr.entries]
  | .lit v, hx, hfree => by
    have htwo := v.two_le_entries
    rw [Expr.equal_lit hx hx, Value.equal_self (room.less 4) hx ((Expr.within_lit v).1 hfree),
      Room.need_less (by omega), Room.need_need (by omega), Expr.entries]
  | .app callee args, hx, hfree => by
    obtain ⟨hcallee, hargs⟩ := (Expr.within_app callee args).1 hfree
    have hfive := callee.five_le_entries
    simp only [Expr.equal, Expr.equal_self (room.less 6) hx.1 hcallee, if_true,
      Expr.equalItems_self (room.less 9) hx.2 hargs, Room.need_need_less, Expr.entries]
    rw [Room.need_less (by omega), Room.need_need (by omega), Room.both_need,
      Room.need_need (by omega)]
  | .letIn name value body, hx, hfree => by
    obtain ⟨hvalue, hbody⟩ := (Expr.within_letIn name value body).1 hfree
    have hfive := value.five_le_entries
    simp only [Expr.equal, Expr.equal_self (room.less 6) hx.1 hvalue, if_true,
      Expr.equal_self (room.less 6) hx.2 hbody, Room.both_need, Expr.entries]
    rw [Room.need_less (by omega), Room.need_need (by omega)]
  | .cond test yes no, hx, hfree => by
    obtain ⟨htest, hyes, hno⟩ := (Expr.within_cond test yes no).1 hfree
    have hfive := test.five_le_entries
    simp only [Expr.equal, Expr.equal_self (room.less 6) hx.1 htest,
      Expr.equal_self (room.less 6) hx.2.1 hyes, Expr.equal_self (room.less 6) hx.2.2 hno,
      Room.both_need, Expr.entries]
    rw [Room.need_less (by omega), Room.need_need (by omega)]
  | .spawn body, hx, hfree => by
    have hbody := Expr.equal_self (room.less 3) (x := body) hx ((Expr.within_spawn body).1 hfree)
    have hfive := body.five_le_entries
    simp only [Expr.equal, hbody, Expr.entries]
    rw [Room.need_less (by omega), Room.need_need (by omega)]
  | .sync body, hx, hfree => by
    have hbody := Expr.equal_self (room.less 3) (x := body) hx ((Expr.within_sync body).1 hfree)
    have hfive := body.five_le_entries
    simp only [Expr.equal, hbody, Expr.entries]
    rw [Room.need_less (by omega), Room.need_need (by omega)]

theorem Expr.equalItems_self (room : Room) : ∀ {xs : List Expr}, Expr.AllWellFormed xs →
    (∀ x ∈ xs, x.FutureFree) →
    Expr.equalItems room xs xs = room.need (Expr.allEntries xs) (.ok true)
  | [], _, _ => by cases room <;> rfl
  | x :: xs, hxs, hfree => by
    obtain ⟨hx, hrest⟩ := List.forall_mem_cons.1 hfree
    rw [Expr.equalItems, Expr.equal_self room hxs.1 hx, Expr.equalItems_self room hxs.2 hrest,
      Room.both_need, Expr.allEntries]

end

/-! ### Deep values -/

/-- Vectors one inside the other. -/
def Value.nested : Nat → Value
  | 0 => .vec []
  | depth + 1 => .vec [nested depth]

namespace Value

theorem wellFormed_nested (depth : Nat) : (nested depth).WellFormed := by
  induction depth with
  | zero => exact (wellFormed_vec []).2 (by simp)
  | succ depth ih => exact (wellFormed_vec _).2 (by simpa using ih)

theorem futureFree_nested (depth : Nat) : (nested depth).FutureFree := by
  induction depth with
  | zero => exact (within_vec []).2 (by simp)
  | succ depth ih => exact (within_vec _).2 (List.forall_mem_singleton.2 ih)

theorem entries_nested (depth : Nat) : (nested depth).entries = 3 * (depth + 1) := by
  induction depth with
  | zero => rfl
  | succ depth ih =>
    simp only [nested, entries, allEntries, ih]
    omega

/-- The stack ends the comparison of deep vectors, although they are the same and hold no future. -/
theorem equal_nested_exhausts :
    (nested 4000).WellFormed ∧ (nested 4000).FutureFree ∧
      (nested 4000).equal defaultStack.room (nested 4000) = .error .stackExhausted := by
  refine ⟨wellFormed_nested 4000, futureFree_nested 4000, ?_⟩
  rw [equal_self _ (wellFormed_nested 4000) (futureFree_nested 4000), entries_nested]
  rfl

end Value

/-! ### Identity -/

theorem quiet_call_eq {limit : Nat} {room : Room} {ctx : Context} {env : Env}
    (hroom : room.has 4) (hb : env.Resolves .eq) (x y : Expr) :
    (eval (limit + 2) room ctx env (.call "=" [x, y])).quiet = (do
      let r ← (eval (limit + 1) (room.less 5) ctx env x).quiet
      let s ← (eval (limit + 1) (room.less 5) ctx r.env y).quiet
      let b ← Prog.ofExcept (Failure.ofFault (r.value.equal (room.less 4) s.value))
      return ⟨.bool b, s.env⟩) := by
  refine (quiet_call_builtin hroom hb [x, y]).trans ?_
  simp only [applyBuiltin_eq, applyBuiltin.binary, quiets_eval (limit + 1) _ ctx, Room.less_less]
  refine bind_congr fun r => bind_congr fun s => ?_
  cases r.value.equal (room.less 4) s.value <;> rfl

/-- Equality decides whether two values are the same and hold no future, wherever the stack has room
for the entries of the first; elsewhere only the stack can end a comparison. So it is symmetric and
transitive, a value equals itself exactly if it holds no future, and the builtin `=` gives the same
answer for all operands. -/
theorem equal_decides_identity (room : Room) {x y z : Value} (hx : x.WellFormed)
    (hy : y.WellFormed) (hz : z.WellFormed) :
    (room.has x.entries → ∃ b, x.equal room y = .ok b) ∧
    (∀ b, x.equal room y = .ok b → (b = true ↔ x = y ∧ x.FutureFree)) ∧
    (∀ f, x.equal room y = .error f → f = .stackExhausted ∧ ¬ room.has x.entries) ∧
    x.equal room y = y.equal room x ∧
    (x.equal room y = .ok true → y.equal room z = .ok true → x.equal room z = .ok true) ∧
    (x.FutureFree → x.equal room x = room.need x.entries (.ok true)) ∧
    (room.has x.entries → ¬ x.FutureFree → x.equal room x = .ok false) ∧
    ∀ limit ctx env ex ey, room.has 4 → env.Resolves .eq →
      (eval (limit + 2) room ctx env (.call "=" [ex, ey])).quiet = (do
        let r ← (eval (limit + 1) (room.less 5) ctx env ex).quiet
        let s ← (eval (limit + 1) (room.less 5) ctx r.env ey).quiet
        let b ← Prog.ofExcept (Failure.ofFault (r.value.equal (room.less 4) s.value))
        return ⟨.bool b, s.env⟩) := by
  have hxy := Value.tells_equal room hx hy
  have hyz := Value.tells_equal room hy hz
  have hxx := Value.tells_equal room hx hx
  refine ⟨hxy.enough, hxy.right, fun f hf => ⟨Value.onlyStack_equal room hx hy f hf, ?_⟩,
    Value.equal_comm room hx hy, fun hfirst hsecond => ?_, Value.equal_self room hx,
    fun hroom hfree => ?_, fun limit ctx env ex ey hroom hb => quiet_call_eq hroom hb ex ey⟩
  · intro hroom
    obtain ⟨b, hb⟩ := hxy.enough hroom
    cases hb.symm.trans hf
  · obtain ⟨rfl, _⟩ := (hxy.right true hfirst).1 rfl
    obtain ⟨rfl, _⟩ := (hyz.right true hsecond).1 rfl
    exact hfirst
  · obtain ⟨b, hb⟩ := hxx.enough hroom
    cases b with
    | false => exact hb
    | true => exact absurd ((hxx.right true hb).1 rfl).2 hfree

/-- A function with a literal inside a literal of its body, compared with itself and by `=`. -/
theorem equal_decides_identity_of_function :
    let f := Value.fn (some "f") ["n"] (.lit (.vec [.int 1, .fn none [] (.lit (.bool true))]))
    f.FutureFree ∧ f.equal defaultStack.room f = .ok true ∧
      (defaultStack.eval {} .builtins (.call "=" [.lit f, .lit f])).quiet =
        .done ⟨.bool true, .builtins⟩ := by
  intro f
  have hf : f.WellFormed := by simp [f]
  have hfree : f.FutureFree := by simp [f, Value.FutureFree]
  obtain ⟨-, -, -, -, -, hself, -, hbuiltin⟩ :=
    equal_decides_identity defaultStack.room hf hf hf
  refine ⟨hfree, hself hfree, ?_⟩
  have hcall := hbuiltin 9998 {} .builtins (.lit f) (.lit f) rfl ⟨_, _, rfl⟩
  refine hcall.trans ?_
  simp only [quiet_eval_lit (show (defaultStack.room.less 5).has 2 from rfl)]
  rfl

end ForkJoin

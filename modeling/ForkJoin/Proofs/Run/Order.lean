import ForkJoin.Identifier
import Mathlib.Order.Defs.Unbundled

/-!
# The order of tasks

The tasks that a thread spawned lie below it, and so do the tasks that these spawned, and so on. Of
two threads of which neither lies below the other, the one on the left is the one to which the
earlier of two spawns of the same thread leads. If every task ran to its end where it is spawned,
the threads would end in the order `Before`: whoever lies below a thread or to the left of it ends
before it does.
-/

namespace ForkJoin.ThreadId

/-- A thread lies below another one if spawns lead from that to it. -/
def Below : ThreadId → ThreadId → Prop
  | .child p _, top => p = top ∨ p.Below top
  | _, _ => False

def Under (id top : ThreadId) : Prop :=
  id = top ∨ id.Below top

/-- Of two tasks of one thread, the earlier leads to the first and the later to the second. -/
def LeftOf (first second : ThreadId) : Prop :=
  ∃ p m n, m < n ∧ first.Under (.child p m) ∧ second.Under (.child p n)

/-- A thread lies below another one or to the left of it. -/
def Before (first second : ThreadId) : Prop :=
  first.Below second ∨ first.LeftOf second

variable {id a b c p : ThreadId} {m n : Nat}

theorem child_below (p : ThreadId) (n : Nat) : (ThreadId.child p n).Below p :=
  .inl rfl

theorem child_below_iff : (ThreadId.child p n).Below a ↔ p.Under a :=
  Iff.rfl

theorem Below.under (h : a.Below b) : a.Under b :=
  .inr h

theorem Below.trans (hab : a.Below b) (hbc : b.Below c) : a.Below c := by
  induction a with
  | main => cases hab
  | helper n => cases hab
  | child p n ih =>
    rcases hab with rfl | hab
    · exact .inr hbc
    · exact .inr (ih hab)

theorem Under.trans_below (hab : a.Under b) (hbc : b.Below c) : a.Below c := by
  rcases hab with rfl | hab
  · exact hbc
  · exact hab.trans hbc

theorem Under.trans (hab : a.Under b) (hbc : b.Under c) : a.Under c := by
  rcases hbc with rfl | hbc
  · exact hab
  · exact .inr (hab.trans_below hbc)

theorem Below.exists_under_child (h : a.Below b) : ∃ n, a.Under (.child b n) := by
  induction a with
  | main | helper n => cases h
  | child p n ih =>
    rcases h with rfl | h
    · exact ⟨n, .inl rfl⟩
    · obtain ⟨k, hk⟩ := ih h
      exact ⟨k, .inr hk⟩

theorem Below.sizeOf_lt (h : a.Below b) : sizeOf b < sizeOf a := by
  induction a with
  | main => cases h
  | helper n => cases h
  | child p n ih =>
    simp only [child.sizeOf_spec]
    rcases h with rfl | h
    · omega
    · have hlt := ih h
      omega

theorem not_below_self (a : ThreadId) : ¬ a.Below a :=
  fun h => absurd h.sizeOf_lt (Nat.lt_irrefl _)

theorem not_under_child (p : ThreadId) (n : Nat) : ¬ p.Under (.child p n) :=
  fun h => not_below_self p (h.trans_below (child_below p n))

theorem Under.total (hb : a.Under b) (hc : a.Under c) : b.Under c ∨ c.Under b := by
  induction a with
  | main | helper n =>
    rcases hb with rfl | hb
    · exact .inl hc
    · cases hb
  | child p n ih =>
    rcases hb with rfl | hb
    · exact .inl hc
    · rcases hc with rfl | hc
      · exact .inr (.inr hb)
      · exact ih hb hc

theorem Under.index_eq (hm : a.Under (.child p m)) (hn : a.Under (.child p n)) : m = n := by
  rcases hm.total hn with (h | h) | (h | h)
  · exact (child.inj h).2
  · exact absurd h (not_under_child p n)
  · exact (child.inj h).2.symm
  · exact absurd h (not_under_child p m)

/-! ### Left of -/

theorem LeftOf.of_under (h : b.LeftOf c) (hab : a.Under b) : a.LeftOf c := by
  obtain ⟨p, m, n, hmn, hb, hc⟩ := h
  exact ⟨p, m, n, hmn, hab.trans hb, hc⟩

theorem LeftOf.to_under (h : a.LeftOf b) (hcb : c.Under b) : a.LeftOf c := by
  obtain ⟨p, m, n, hmn, ha, hb⟩ := h
  exact ⟨p, m, n, hmn, ha, hcb.trans hb⟩

theorem not_leftOf_self (a : ThreadId) : ¬ a.LeftOf a := by
  rintro ⟨p, m, n, hmn, hm, hn⟩
  exact absurd (hm.index_eq hn) (Nat.ne_of_lt hmn)

theorem not_main_leftOf (a : ThreadId) : ¬ ThreadId.main.LeftOf a := by
  rintro ⟨p, m, n, -, h | h, -⟩
  · cases h
  · cases h

/-- What lies to the left of a task lies to the left of its thread, or is led to by an earlier task
of that thread. -/
theorem LeftOf.of_child (h : a.LeftOf (.child p n)) :
    a.LeftOf p ∨ ∃ m, m < n ∧ a.Under (.child p m) := by
  obtain ⟨q, i, j, hij, ha, heq | hbelow⟩ := h
  · obtain ⟨rfl, rfl⟩ := child.inj heq
    exact .inr ⟨i, hij, ha⟩
  · exact .inl ⟨q, i, j, hij, ha, hbelow⟩

theorem LeftOf.child_left (h : (ThreadId.child p m).LeftOf a) :
    p.LeftOf a ∨ ∃ n, m < n ∧ a.Under (.child p n) := by
  obtain ⟨q, i, j, hij, heq | hbelow, ha⟩ := h
  · obtain ⟨rfl, rfl⟩ := child.inj heq
    exact .inr ⟨j, hij, ha⟩
  · exact .inl ⟨q, i, j, hij, hbelow, ha⟩

theorem LeftOf.trans (hab : a.LeftOf b) (hbc : b.LeftOf c) : a.LeftOf c := by
  obtain ⟨p, m, n, hmn, ha, hb⟩ := hab
  obtain ⟨q, i, j, hij, hb', hc⟩ := hbc
  rcases hb.total hb' with (h | h) | (h | h)
  · obtain ⟨rfl, rfl⟩ := child.inj h
    exact ⟨p, m, j, Nat.lt_trans hmn hij, ha, hc⟩
  · exact ⟨q, i, j, hij, (ha.trans_below (child_below p m)).under.trans h, hc⟩
  · obtain ⟨rfl, rfl⟩ := child.inj h
    exact ⟨q, m, j, Nat.lt_trans hmn hij, ha, hc⟩
  · exact ⟨p, m, n, hmn, ha, (hc.trans_below (child_below q j)).under.trans h⟩

theorem Before.trans (hab : a.Before b) (hbc : b.Before c) : a.Before c := by
  rcases hab with hab | hab <;> rcases hbc with hbc | hbc
  · exact .inl (hab.trans hbc)
  · exact .inr (hbc.of_under hab.under)
  · obtain ⟨p, m, n, hmn, ha, hb⟩ := hab
    rcases hb.total hbc.under with (rfl | h) | h
    · exact .inr ⟨p, m, n, hmn, ha, .inl rfl⟩
    · exact .inl (ha.trans_below (child_below_iff.2 (child_below_iff.1 h)))
    · exact .inr ⟨p, m, n, hmn, ha, h⟩
  · exact .inr (hab.trans hbc)

theorem not_main_before (a : ThreadId) : ¬ ThreadId.main.Before a := by
  rintro (h | h)
  · cases h
  · exact not_main_leftOf a h

theorem not_before_self (a : ThreadId) : ¬ a.Before a := by
  rintro (h | h)
  · exact not_below_self a h
  · exact not_leftOf_self a h

instance : IsStrictOrder ThreadId Before where
  irrefl := not_before_self
  trans _ _ _ := Before.trans

end ForkJoin.ThreadId

import ForkJoin.Proofs.Equal.Identity
import ForkJoin.Proofs.Exhaustion
import ForkJoin.Proofs.Numerals
import ForkJoin.Proofs.Primitive

/-!
# What is shown of data

Integers, truth values and vectors of them are data, the ground values. The text of a datum is read
off its parts (`Value.text`), and so is its plain content (`Value.content`). Both are given where the
stack has room for as many entries as the datum is deep, and nowhere else. There is no text when an
integer has more digits than are allowed.
-/

namespace ForkJoin

open Text

/-! ### Computations that take room -/

/-- A computation comes to what another one says where there is room for some entries. Elsewhere it
comes to no result, and what it fails with is what the other one says unless the stack is
exhausted. -/
structure Spends {α : Type} (room : Room) (entries : Nat) (x y : Except Fault α) : Prop where
  curtailed : Curtailed .stackExhausted x y
  enough : room.has entries → x = y
  only : ∀ a, x = .ok a → room.has entries

namespace Spends

variable {α β : Type} {room : Room} {m n : Nat} {x y : Except Fault α}

theorem ok (a : α) : Spends room 0 (.ok a) (.ok a) where
  curtailed := .refl _
  enough _ := rfl
  only _ _ := by cases room <;> rfl

theorem need (room : Room) (n : Nat) (y : Except Fault α) : Spends room n (room.need n y) y where
  curtailed := (Curtailed.refl y).need
  enough hroom := Room.need_of_has hroom y
  only a ha := by
    unfold Room.need at ha
    split at ha
    case isTrue hroom => exact hroom
    case isFalse => cases ha

theorem needLess (h : Spends (room.less m) n x y) : Spends room (m + n) (room.need m x) y where
  curtailed := h.curtailed.need
  enough hroom := by
    rw [Room.need_of_has (Room.has_of_le hroom (Nat.le_add_right m n))]
    exact h.enough (Room.has_less (Nat.add_comm m n ▸ hroom))
  only a ha := by
    have hm := (need room m x).only a ha
    rw [Room.need_of_has hm] at ha
    have hn := h.only a ha
    cases room with
    | none => rfl
    | some left =>
      have hm : m ≤ left := of_decide_eq_true hm
      have hn : n ≤ left - m := of_decide_eq_true hn
      exact decide_eq_true (by omega)

theorem bind {f g : α → Except Fault β} (hx : Spends room m x y)
    (hf : ∀ a, Spends room n (f a) (g a)) :
    Spends room (max m n) (x >>= f) (y >>= g) where
  curtailed := hx.curtailed.bind fun a => (hf a).curtailed
  enough hroom := by
    rw [hx.enough (Room.has_of_le hroom (Nat.le_max_left m n))]
    exact bind_congr fun a => (hf a).enough (Room.has_of_le hroom (Nat.le_max_right m n))
  only b hb := by
    cases x with
    | error f => cases hb
    | ok a =>
      have hm := hx.only a rfl
      have hn := (hf a).only b hb
      rcases Nat.le_total m n with hle | hle
      · rwa [Nat.max_eq_right hle]
      · rwa [Nat.max_eq_left hle]

theorem map (h : Spends room n x y) (g : α → β) :
    Spends room n (do return g (← x)) (do return g (← y)) := by
  have hbind := h.bind (f := fun a => pure (g a)) (g := fun a => pure (g a)) fun a => ok (g a)
  rwa [Nat.max_zero] at hbind

end Spends

/-! ### Texts and plain contents -/

theorem Text.Numeral.fits_iff {n : Int} :
    Numeral.Fits n ↔ (Nat.toDigits 10 n.natAbs).length ≤ Numeral.maxDigits := by
  obtain ⟨k, hk⟩ := Numeral.exists_maxDigits_eq
  rw [Numeral.Fits, Numeral.bound_eq, hk,
    Nat.length_toDigits_le_iff (by decide) (Nat.succ_pos k)]

mutual

def Value.integers : Value → List Int
  | .int n => [n]
  | .vec items => Value.allIntegers items
  | _ => []

def Value.allIntegers : List Value → List Int
  | [] => []
  | v :: vs => v.integers ++ Value.allIntegers vs

end

/-- No integer in a value has more digits than are allowed. -/
def Value.Writable (v : Value) : Prop :=
  ∀ n ∈ v.integers, (Nat.toDigits 10 n.natAbs).length ≤ Numeral.maxDigits

def Value.AllWritable (vs : List Value) : Prop :=
  ∀ n ∈ Value.allIntegers vs, (Nat.toDigits 10 n.natAbs).length ≤ Numeral.maxDigits

instance (v : Value) : Decidable v.Writable :=
  inferInstanceAs (Decidable (∀ n ∈ v.integers, _))

instance (vs : List Value) : Decidable (Value.AllWritable vs) :=
  inferInstanceAs (Decidable (∀ n ∈ Value.allIntegers vs, _))

theorem Value.allWritable_cons {v : Value} {vs : List Value} :
    Value.AllWritable (v :: vs) ↔ v.Writable ∧ Value.AllWritable vs :=
  List.forall_mem_append

mutual

/-- The text of a datum; of other values nothing is said. -/
def Value.text : Value → String
  | .int n => toString n
  | .bool b => if b then "true" else "false"
  | .vec items => bracketed (Value.allTexts items)
  | _ => ""

def Value.allTexts : List Value → List String
  | [] => []
  | v :: vs => v.text :: Value.allTexts vs

end

mutual

/-- The plain content of a datum; of other values nothing is said. -/
def Value.content : Value → Plain
  | .int n => .datum (.int n)
  | .bool b => .datum (.bool b)
  | .vec items => .list (Value.allContents items)
  | _ => .datum .null

def Value.allContents : List Value → List Plain
  | [] => []
  | v :: vs => v.content :: Value.allContents vs

end

mutual

/-- How many entries of the stack it takes to make the plain content of a datum. -/
def Value.plainEntries : Value → Nat
  | .vec items => 2 + Value.allPlainEntries items
  | _ => 1

def Value.allPlainEntries : List Value → Nat
  | [] => 0
  | v :: vs => max v.plainEntries (Value.allPlainEntries vs)

end

mutual

theorem Value.plainEntries_le_entries : ∀ v : Value, v.plainEntries ≤ v.entries
  | .int _ | .bool _ | .future _ | .foreign _ => Nat.le_succ 1
  | .fn _ _ _ => Nat.le_trans (Nat.le_succ 1) (Value.two_le_entries _)
  | .vec items => by
    have hitems := Value.allPlainEntries_le_allEntries items
    rw [Value.plainEntries, Value.entries]
    omega

theorem Value.allPlainEntries_le_allEntries : ∀ vs : List Value,
    Value.allPlainEntries vs ≤ Value.allEntries vs
  | [] => Nat.le_refl 0
  | v :: vs => by
    have hv := v.plainEntries_le_entries
    have hvs := Value.allPlainEntries_le_allEntries vs
    rw [Value.allPlainEntries, Value.allEntries]
    omega

end

mutual

/-- Without a stack that counts, a datum is shown unless an integer in it is too long. -/
theorem Value.display_none (view : CellView) : ∀ {v : Value}, v.isGround →
    v.display view none = if v.Writable then .ok v.text else .error .numeralTooLong
  | .int n, _ => by
    have hwritable : (Value.int n).Writable ↔ Numeral.Fits n :=
      List.forall_mem_singleton.trans Numeral.fits_iff.symm
    rw [Value.display_int rfl]
    simp only [hwritable, Value.text]
  | .bool b, _ => (if_pos (List.forall_mem_nil _)).symm
  | .vec items, h => by
    have hwritable : (Value.vec items).Writable ↔ Value.AllWritable items := Iff.rfl
    rw [Value.display, Room.need_none, Room.less_none, Value.displayAll_none view h]
    simp only [hwritable]
    split <;> rfl
  | .fn _ _ _, h | .future _, h | .foreign _, h => absurd h Bool.false_ne_true

theorem Value.displayAll_none (view : CellView) : ∀ {vs : List Value}, Value.allGround vs →
    Value.displayAll view none vs =
      if Value.AllWritable vs then .ok (Value.allTexts vs) else .error .numeralTooLong
  | [], _ => (if_pos (List.forall_mem_nil _)).symm
  | v :: vs, h => by
    obtain ⟨hv, hvs⟩ := Bool.and_eq_true_iff.1 h
    rw [Value.displayAll, Value.display_none view hv, Value.displayAll_none view hvs]
    simp only [Value.allWritable_cons]
    by_cases hfirst : v.Writable
    · by_cases hrest : Value.AllWritable vs
      · rw [if_pos hfirst, if_pos hrest, if_pos ⟨hfirst, hrest⟩]
        rfl
      · have hall : ¬ (v.Writable ∧ Value.AllWritable vs) := fun h => hrest h.2
        rw [if_pos hfirst, if_neg hrest, if_neg hall]
        rfl
    · have hall : ¬ (v.Writable ∧ Value.AllWritable vs) := fun h => hfirst h.1
      rw [if_neg hfirst, if_neg hall]
      rfl

end

mutual

theorem Value.spends_display (view : CellView) (room : Room) : ∀ {v : Value}, v.isGround →
    Spends room v.entries (v.display view room) (v.display view none)
  | .int n, _ => by
    rw [Value.display, Value.display, Room.need_none]
    exact .need room 2 _
  | .bool b, _ => .need room 2 (.ok (if b then "true" else "false"))
  | .vec _, h => ((Value.spends_displayAll view (room.less 3) h).map bracketed).needLess
  | .fn _ _ _, h | .future _, h | .foreign _, h => absurd h Bool.false_ne_true

theorem Value.spends_displayAll (view : CellView) (room : Room) : ∀ {vs : List Value},
    Value.allGround vs →
    Spends room (Value.allEntries vs) (Value.displayAll view room vs)
      (Value.displayAll view none vs)
  | [], _ => .ok []
  | v :: vs, h => by
    obtain ⟨hv, hvs⟩ := Bool.and_eq_true_iff.1 h
    exact (Value.spends_display view room hv).bind fun text =>
      (Value.spends_displayAll view room hvs).map (text :: ·)

end

mutual

theorem Value.spends_plain (view : CellView) (room : Room) : ∀ {v : Value}, v.isGround →
    Spends room v.plainEntries (v.plain view room) (.ok v.content)
  | .int _, _ | .bool _, _ => .need room 1 _
  | .vec _, h => ((Value.spends_plainAll view (room.less 2) h).map Plain.list).needLess
  | .fn _ _ _, h | .future _, h | .foreign _, h => absurd h Bool.false_ne_true

theorem Value.spends_plainAll (view : CellView) (room : Room) : ∀ {vs : List Value},
    Value.allGround vs →
    Spends room (Value.allPlainEntries vs) (Value.plainAll view room vs)
      (.ok (Value.allContents vs))
  | [], _ => .ok []
  | v :: vs, h => by
    obtain ⟨hv, hvs⟩ := Bool.and_eq_true_iff.1 h
    exact (Value.spends_plain view room hv).bind (g := fun content =>
      .ok (content :: Value.allContents vs)) fun content =>
        (Value.spends_plainAll view room hvs).map (content :: ·)

end

end ForkJoin

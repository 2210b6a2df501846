import ForkJoin.Proofs.Nodes
import ForkJoin.Value.Display
import Mathlib.Tactic.Ring

/-!
# Numbers at the limit of numerals

A number is shown where its numeral has no more digits than are allowed, and so are several numbers
where all of them are. Whatever is read can be shown, but not its double: a numeral of as many nines
as are allowed is read, and the double of its number is not shown.
-/

namespace ForkJoin

open Text

/-- Whether the numeral of a number has no more digits than are allowed. -/
def Text.Numeral.Fits (n : Int) : Prop :=
  n.natAbs < bound

instance (n : Int) : Decidable (Numeral.Fits n) :=
  inferInstanceAs (Decidable (n.natAbs < Numeral.bound))

theorem Text.digitValue?_lt {c : Char} {d : Nat} (h : digitValue? c = some d) : d < 10 := by
  obtain ⟨first, hfirst, rfl⟩ := Option.map_eq_some_iff.1 h
  have hrange := List.find?_some hfirst
  simp only [Bool.and_eq_true, decide_eq_true_eq] at hrange
  omega

namespace Text.Numeral

theorem digits?_nines (k : Nat) :
    digits? (List.replicate (k + 1) '9') = some (List.replicate (k + 1) 9) := by
  have hnine : digitValue? '9' = some 9 := by decide
  induction k with
  | zero => rfl
  | succ k ih =>
    rw [List.replicate_succ] at ih ⊢
    rw [List.replicate_succ, digits?, hnine, ih]
    · rfl
    · nofun
    · nofun

theorem ofDigits_nines (k : Nat) : ofDigits (List.replicate k 9) = 10 ^ k - 1 := by
  have hfold : ∀ n, (List.replicate k 9).foldl (fun n d => 10 * n + d) n + 1 =
      (n + 1) * 10 ^ k := by
    induction k with
    | zero => simp
    | succ k ih =>
      intro n
      rw [List.replicate_succ, List.foldl_cons, ih, Nat.pow_succ]
      ring
  have hzero := hfold 0
  rw [ofDigits]
  omega

theorem exists_maxDigits_eq : ∃ k, maxDigits = k + 1 :=
  ⟨4299, rfl⟩

theorem bound_eq : bound = 10 ^ maxDigits := by
  unfold bound
  generalize maxDigits = digits
  exact Nat.pow_eq

theorem read?_nines {k : Nat} (hk : k + 1 ≤ maxDigits) :
    read? (String.ofList (List.replicate (k + 1) '9')) = some (Int.ofNat (10 ^ (k + 1) - 1)) := by
  have hmargin : (List.replicate (k + 1) '9').dropWhile isMargin = List.replicate (k + 1) '9' := by
    rw [List.dropWhile_replicate, if_neg (by decide)]
  have hunsigned : unsigned (List.replicate (k + 1) '9') =
      (false, List.replicate (k + 1) '9') := rfl
  have htaken : (List.replicate (k + 1) '9').takeWhile isInner = List.replicate (k + 1) '9' := by
    rw [List.takeWhile_replicate, if_pos (by decide)]
  have hleft : (List.replicate (k + 1) '9').dropWhile isInner = [] := by
    rw [List.dropWhile_replicate, if_pos (by decide)]
  rw [read?, read, String.toList_ofList, hmargin, hunsigned]
  simp only [htaken, hleft, digits?_nines, List.length_replicate, if_neg (Nat.not_lt_of_le hk)]
  rw [ofDigits_nines]
  rfl

theorem lt_of_mem_digits? {cs : List Char} {ds : List Nat} (h : digits? cs = some ds) :
    ∀ d ∈ ds, d < 10 := by
  fun_induction digits? cs generalizing ds with
  | case1 => cases h
  | case2 c =>
    obtain ⟨d, hd, rfl⟩ := Option.map_eq_some_iff.1 h
    simpa using digitValue?_lt hd
  | case3 c rest ih | case4 c rest _ _ ih =>
    obtain ⟨d, hd, h⟩ := Option.bind_eq_some_iff.1 h
    obtain ⟨ds, hds, h⟩ := Option.bind_eq_some_iff.1 h
    cases h
    exact List.forall_mem_cons.2 ⟨digitValue?_lt hd, ih hds⟩

theorem ofDigits_lt {ds : List Nat} (h : ∀ d ∈ ds, d < 10) : ofDigits ds < 10 ^ ds.length := by
  have hfold : ∀ n, ds.foldl (fun n d => 10 * n + d) n < (n + 1) * 10 ^ ds.length := by
    induction ds with
    | nil => simp
    | cons d ds ih =>
      intro n
      obtain ⟨hd, hds⟩ := List.forall_mem_cons.1 h
      calc ds.foldl (fun n d => 10 * n + d) (10 * n + d)
        _ < (10 * n + d + 1) * 10 ^ ds.length := ih hds _
        _ ≤ ((n + 1) * 10) * 10 ^ ds.length := Nat.mul_le_mul_right _ (by omega)
        _ = (n + 1) * 10 ^ (ds.length + 1) := by rw [Nat.pow_succ]; ring
  simpa [ofDigits] using hfold 0

/-- Whatever is read can be written again. -/
theorem fits_of_read? {s : String} {n : Int} (h : read? s = some n) : Fits n := by
  have hread : read s = .ok n := by
    rw [read?] at h
    cases hs : read s with
    | error e => rw [hs] at h; cases h
    | ok m => rw [hs] at h; cases h; rfl
  rw [read] at hread
  dsimp only at hread
  split at hread
  · cases hread
  case h_2 ds hds =>
    split at hread
    · cases hread
    case isFalse hlength =>
      split at hread
      · cases hread
      · cases hread
        have hlt : ofDigits ds < bound := by
          rw [bound_eq]
          exact Nat.lt_of_lt_of_le (ofDigits_lt (lt_of_mem_digits? hds))
            (Nat.pow_le_pow_right (by decide) (Nat.le_of_not_lt hlength))
        rw [Fits]
        split
        · rwa [Int.natAbs_neg]
        · exact hlt

theorem not_fits_double : ¬ Fits (2 * Int.ofNat (bound - 1)) := by
  have hbound : 10 ≤ bound := by
    obtain ⟨k, hk⟩ := exists_maxDigits_eq
    rw [bound_eq, hk, Nat.pow_succ]
    exact Nat.le_mul_of_pos_left 10 (Nat.pow_pos (by decide))
  have habs : ∀ b : Nat, (2 * Int.ofNat b).natAbs = 2 * b := fun b => Int.natAbs_mul 2 b
  rw [Fits, habs]
  omega

end Text.Numeral

/-! ### Showing -/

namespace Datum

theorem holdsLongNumeral_int_iff (n : Int) : (int n).holdsLongNumeral ↔ ¬ Numeral.Fits n := by
  rw [holdsLongNumeral, Numeral.write?, Numeral.Fits]
  split <;> simp [*]

theorem anyLongNumeral_ints_iff (ns : List Int) :
    anyLongNumeral (ns.map .int) ↔ ¬ ∀ n ∈ ns, Numeral.Fits n := by
  induction ns with
  | nil => simp [anyLongNumeral]
  | cons n ns ih =>
    rw [List.map_cons, anyLongNumeral, Bool.or_eq_true, holdsLongNumeral_int_iff, ih,
      List.forall_mem_cons, not_and_or]

theorem literals_ints (ns : List Int) : literals (ns.map .int) = ns.map toString := by
  induction ns with
  | nil => rfl
  | cons n ns ih => rw [List.map_cons, literals, ih, literal, List.map_cons]

theorem shown_int (n : Int) :
    (int n).shown = if Numeral.Fits n then .ok (toString n) else .error .numeralTooLong := by
  simp only [shown, holdsLongNumeral_int_iff, ite_not]
  rfl

theorem shown_ints (ns : List Int) : (list (ns.map .int)).shown =
    if ∀ n ∈ ns, Numeral.Fits n then .ok (bracketed (ns.map toString))
    else .error .numeralTooLong := by
  have hdisplay : (list (ns.map .int)).display = bracketed (ns.map toString) := by
    rw [display, literal, literals_ints, bracketed]
    nofun
  simp only [shown, holdsLongNumeral, anyLongNumeral_ints_iff, hdisplay, ite_not]

end Datum

namespace Value

variable {view : CellView} {room : Room}

theorem display_int (hroom : room.has 2) (n : Int) : (Value.int n).display view room =
    if Numeral.Fits n then .ok (toString n) else .error .numeralTooLong := by
  rw [Value.display, Room.need_of_has hroom, Datum.shown_int]

theorem displayAll_ints (hroom : room.has 2) (ns : List Int) :
    Value.displayAll view room (ns.map .int) =
      if ∀ n ∈ ns, Numeral.Fits n then .ok (ns.map toString) else .error .numeralTooLong := by
  induction ns with
  | nil => rfl
  | cons n ns ih =>
    rw [List.map_cons, Value.displayAll, display_int hroom, ih]
    by_cases hn : Numeral.Fits n
    · by_cases hns : ∀ m ∈ ns, Numeral.Fits m
      · have hall : ∀ m ∈ n :: ns, Numeral.Fits m := List.forall_mem_cons.2 ⟨hn, hns⟩
        rw [if_pos hn, if_pos hns, if_pos hall]
        rfl
      · have hall : ¬ ∀ m ∈ n :: ns, Numeral.Fits m := fun h => hns (List.forall_mem_cons.1 h).2
        rw [if_pos hn, if_neg hns, if_neg hall]
        rfl
    · have hall : ¬ ∀ m ∈ n :: ns, Numeral.Fits m := fun h => hn (List.forall_mem_cons.1 h).1
      rw [if_neg hn, if_neg hall]
      rfl

theorem display_ints (hroom : room.has 5) (ns : List Int) :
    (Value.vec (ns.map .int)).display view room =
      if ∀ n ∈ ns, Numeral.Fits n then .ok (bracketed (ns.map toString))
      else .error .numeralTooLong := by
  rw [Value.display, Room.need_of_has (Room.has_of_le hroom (by decide)),
    displayAll_ints (Room.has_less hroom)]
  by_cases hall : ∀ n ∈ ns, Numeral.Fits n
  · rw [if_pos hall, if_pos hall]
    rfl
  · rw [if_neg hall, if_neg hall]
    rfl

end Value

end ForkJoin

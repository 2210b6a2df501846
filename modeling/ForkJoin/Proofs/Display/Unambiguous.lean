import ForkJoin.Proofs.Display
import ForkJoin.Proofs.Labels

/-!
# Data are told apart by their texts

The text of a datum can be read in one way only. A numeral ends where the digits do, a truth value
has a word of its own, and a vector ends with the bracket that closes it; after an element comes a
comma or that bracket, and neither is a digit. So with whatever follows it, as long as that does not
begin with a digit, a text says which datum it is of and where it ends
(`Value.eq_of_text_append`). The induction is along the two data, and at the same time along what
is left of two vectors after an element.

Texts, plain contents and comparisons therefore tell the same data apart.
-/

namespace ForkJoin

open Text

/-! ### Where a numeral ends -/

def NoDigitHead (cs : List Char) : Prop :=
  ∀ c ∈ cs.head?, c.isDigit = false

theorem noDigitHead_cons {c : Char} {cs : List Char} (hc : c.isDigit = false) :
    NoDigitHead (c :: cs) := by
  simpa [NoDigitHead] using hc

theorem eq_of_digits_append {xs ys zs zs' : List Char} (hxs : ∀ c ∈ xs, c.isDigit = true)
    (hys : ∀ c ∈ ys, c.isDigit = true) (hzs : NoDigitHead zs) (hzs' : NoDigitHead zs')
    (h : xs ++ zs = ys ++ zs') : xs = ys ∧ zs = zs' := by
  induction xs generalizing ys with
  | nil =>
    cases ys with
    | nil => exact ⟨rfl, h⟩
    | cons y ys =>
      rw [List.nil_append] at h
      rw [h] at hzs
      have hy := hzs y rfl
      rw [hys y List.mem_cons_self] at hy
      cases hy
  | cons x xs ih =>
    cases ys with
    | nil =>
      rw [List.nil_append] at h
      rw [← h] at hzs'
      have hx := hzs' x rfl
      rw [hxs x List.mem_cons_self] at hx
      cases hx
    | cons y ys =>
      obtain ⟨rfl, hrest⟩ := List.cons.inj h
      obtain ⟨rfl, rfl⟩ := ih (fun c hc => hxs c (List.mem_cons_of_mem x hc))
        (fun c hc => hys c (List.mem_cons_of_mem x hc)) hrest
      exact ⟨rfl, rfl⟩

theorem eq_of_toDigits_append {m n : Nat} {zs zs' : List Char} (hzs : NoDigitHead zs)
    (hzs' : NoDigitHead zs') (h : Nat.toDigits 10 m ++ zs = Nat.toDigits 10 n ++ zs') :
    m = n ∧ zs = zs' := by
  have hdigits : ∀ n, ∀ c ∈ Nat.toDigits 10 n, c.isDigit = true := fun n c hc =>
    Nat.isDigit_of_mem_toDigits (by decide) (by decide) hc
  obtain ⟨hmn, hrest⟩ := eq_of_digits_append (hdigits m) (hdigits n) hzs hzs' h
  exact ⟨toDigits_injective hmn, hrest⟩

theorem toList_toString_ofNat (n : Nat) :
    (toString (Int.ofNat n)).toList = Nat.toDigits 10 n := by
  change n.repr.toList = _
  simp

theorem toList_toString_negSucc (n : Nat) :
    (toString (Int.negSucc n)).toList = '-' :: Nat.toDigits 10 (n + 1) := by
  change ("-" ++ (n + 1).repr).toList = _
  simp

theorem exists_toList_toString_eq_cons (n : Int) :
    ∃ c cs, (toString n).toList = c :: cs ∧ (c = '-' ∨ c.isDigit = true) := by
  cases n with
  | ofNat n =>
    obtain ⟨c, cs, hcs⟩ := List.exists_cons_of_ne_nil (Nat.toDigits_ne_nil (n := n) (b := 10))
    have hc : c.isDigit = true := Nat.isDigit_of_mem_toDigits (by decide) (by decide)
      (hcs ▸ List.mem_cons_self)
    exact ⟨c, cs, (toList_toString_ofNat n).trans hcs, .inr hc⟩
  | negSucc n => exact ⟨'-', _, toList_toString_negSucc n, .inl rfl⟩

/-- A numeral says which number it is of and where it ends. -/
theorem eq_of_numeral_append {m n : Int} {zs zs' : List Char} (hzs : NoDigitHead zs)
    (hzs' : NoDigitHead zs') (h : (toString m).toList ++ zs = (toString n).toList ++ zs') :
    m = n ∧ zs = zs' := by
  have hsign : ∀ (a b : Nat) (ys ys' : List Char),
      '-' :: Nat.toDigits 10 a ++ ys ≠ Nat.toDigits 10 b ++ ys' := by
    intro a b ys ys' h
    obtain ⟨c, cs, hcs⟩ := List.exists_cons_of_ne_nil (Nat.toDigits_ne_nil (n := b) (b := 10))
    rw [hcs] at h
    have hminus : '-' ∈ Nat.toDigits 10 b := by
      rw [hcs, (List.cons.inj h).1]
      exact List.mem_cons_self
    exact not_mem_toDigits rfl hminus
  cases m with
  | ofNat a =>
    cases n with
    | ofNat b =>
      rw [toList_toString_ofNat, toList_toString_ofNat] at h
      obtain ⟨rfl, hrest⟩ := eq_of_toDigits_append hzs hzs' h
      exact ⟨rfl, hrest⟩
    | negSucc b =>
      rw [toList_toString_ofNat, toList_toString_negSucc] at h
      exact absurd h.symm (hsign _ _ _ _)
  | negSucc a =>
    cases n with
    | ofNat b =>
      rw [toList_toString_ofNat, toList_toString_negSucc] at h
      exact absurd h (hsign _ _ _ _)
    | negSucc b =>
      rw [toList_toString_negSucc, toList_toString_negSucc] at h
      obtain ⟨hab, hrest⟩ := eq_of_toDigits_append hzs hzs' (List.cons.inj h).2
      exact ⟨by rw [Nat.succ_inj.1 hab], hrest⟩

namespace Value

/-- What stands in the text of a vector after an element: the other elements, the bracket, and what
follows the vector. -/
def afterElement (cs : List Char) : List Value → List Char
  | [] => ']' :: cs
  | v :: vs => ',' :: ' ' :: (v.text.toList ++ afterElement cs vs)

theorem noDigitHead_afterElement (cs : List Char) (vs : List Value) :
    NoDigitHead (afterElement cs vs) := by
  cases vs <;> exact noDigitHead_cons rfl

theorem toList_text_cons_append (v : Value) (vs : List Value) (cs : List Char) :
    (Value.vec (v :: vs)).text.toList ++ cs = '[' :: (v.text.toList ++ afterElement cs vs) := by
  have helements : ∀ (vs : List Value) (v : Value),
      (", ".intercalate (allTexts (v :: vs))).toList ++ ']' :: cs =
        v.text.toList ++ afterElement cs vs := by
    intro vs
    induction vs with
    | nil =>
      intro v
      rw [allTexts, allTexts, String.intercalate_singleton, afterElement]
    | cons w vs ih =>
      intro v
      have hrest := ih w
      rw [allTexts] at hrest
      rw [allTexts, allTexts, String.intercalate_cons_cons, String.toList_append,
        String.toList_append, List.append_assoc, List.append_assoc, hrest, afterElement]
      rfl
  rw [text, bracketed, String.toList_append, String.toList_append, List.append_assoc,
    List.append_assoc]
  exact congrArg ('[' :: ·) (helements vs v)

def typeOfInitial? (c : Char) : Option Datum :=
  if c = '[' then some "Vector"
  else if c = 't' ∨ c = 'f' then some "Boolean"
  else if c = '-' ∨ c.isDigit then some "Integer"
  else none

theorem exists_toList_text_eq_cons {v : Value} (hv : v.isGround) :
    ∃ c cs, v.text.toList = c :: cs ∧ typeOfInitial? c = some v.typeName := by
  cases v with
  | int n =>
    obtain ⟨c, cs, hcs, hc⟩ := exists_toList_toString_eq_cons n
    refine ⟨c, cs, hcs, ?_⟩
    have hbracket : c ≠ '[' := by rintro rfl; simp at hc
    have hletter : ¬ (c = 't' ∨ c = 'f') := by rintro (rfl | rfl) <;> simp at hc
    rw [typeOfInitial?, if_neg hbracket, if_neg hletter, if_pos hc]
    rfl
  | bool b => cases b <;> exact ⟨_, _, rfl, rfl⟩
  | vec items =>
    cases items with
    | nil => exact ⟨'[', [']'], rfl, rfl⟩
    | cons v vs =>
      have htext := toList_text_cons_append v vs []
      rw [List.append_nil] at htext
      exact ⟨'[', _, htext, rfl⟩
  | fn | future | foreign => cases hv

theorem typeName_eq_of_text_append {x y : Value} {zs zs' : List Char} (hx : x.isGround)
    (hy : y.isGround) (h : x.text.toList ++ zs = y.text.toList ++ zs') :
    x.typeName = y.typeName := by
  obtain ⟨c, cs, hcs, hc⟩ := exists_toList_text_eq_cons hx
  obtain ⟨d, ds, hds, hd⟩ := exists_toList_text_eq_cons hy
  rw [hcs, hds] at h
  obtain rfl : c = d := (List.cons.inj h).1
  exact Option.some.inj (hc.symm.trans hd)

theorem text_append_ne_bracket {v : Value} (hv : v.isGround) (zs zs' : List Char) :
    v.text.toList ++ zs ≠ ']' :: zs' := by
  intro h
  obtain ⟨c, cs, hcs, hc⟩ := exists_toList_text_eq_cons hv
  rw [hcs] at h
  rw [(List.cons.inj h).1] at hc
  cases hc

end Value

/-! ### Texts say what they are of -/

mutual

/-- The text of a datum says which datum it is of and where it ends. -/
theorem Value.eq_of_text_append : ∀ {x y : Value} {zs zs' : List Char}, x.isGround → y.isGround →
    NoDigitHead zs → NoDigitHead zs' → x.text.toList ++ zs = y.text.toList ++ zs' →
    x = y ∧ zs = zs'
  | .int m, y, zs, zs', hx, hy, hzs, hzs', h => by
    have htype := Value.typeName_eq_of_text_append hx hy h
    cases y with
    | int n =>
      obtain ⟨rfl, hrest⟩ := eq_of_numeral_append hzs hzs' h
      exact ⟨rfl, hrest⟩
    | bool | vec => simp [Value.typeName] at htype
    | fn | future | foreign => cases hy
  | .bool a, y, zs, zs', hx, hy, _, _, h => by
    have htype := Value.typeName_eq_of_text_append hx hy h
    cases y with
    | bool b =>
      cases a <;> cases b <;> cases h <;> exact ⟨rfl, rfl⟩
    | int | vec => simp [Value.typeName] at htype
    | fn | future | foreign => cases hy
  | .vec xs, y, zs, zs', hx, hy, _, _, h => by
    have htype := Value.typeName_eq_of_text_append hx hy h
    cases y with
    | vec ys =>
      cases xs with
      | nil =>
        cases ys with
        | nil =>
          cases h
          exact ⟨rfl, rfl⟩
        | cons y ys =>
          rw [Value.toList_text_cons_append] at h
          obtain ⟨hy, -⟩ := Bool.and_eq_true_iff.1 hy
          exact absurd (List.cons.inj h).2.symm (Value.text_append_ne_bracket hy _ _)
      | cons x xs =>
        obtain ⟨hx, hxs⟩ := Bool.and_eq_true_iff.1 hx
        rw [Value.toList_text_cons_append] at h
        cases ys with
        | nil => exact absurd (List.cons.inj h).2 (Value.text_append_ne_bracket hx _ _)
        | cons y ys =>
          obtain ⟨hy, hys⟩ := Bool.and_eq_true_iff.1 hy
          rw [Value.toList_text_cons_append] at h
          obtain ⟨rfl, hrest⟩ := Value.eq_of_text_append hx hy
            (Value.noDigitHead_afterElement zs xs) (Value.noDigitHead_afterElement zs' ys)
            (List.cons.inj h).2
          obtain ⟨rfl, rfl⟩ := Value.eq_of_afterElement hxs hys hrest
          exact ⟨rfl, rfl⟩
    | int | bool => simp [Value.typeName] at htype
    | fn | future | foreign => cases hy
  | .fn _ _ _, _, _, _, hx, _, _, _, _ | .future _, _, _, _, hx, _, _, _, _
  | .foreign _, _, _, _, hx, _, _, _, _ => absurd hx Bool.false_ne_true

theorem Value.eq_of_afterElement : ∀ {xs ys : List Value} {cs cs' : List Char},
    Value.allGround xs → Value.allGround ys →
    Value.afterElement cs xs = Value.afterElement cs' ys → xs = ys ∧ cs = cs'
  | [], [], _, _, _, _, h => ⟨rfl, (List.cons.inj h).2⟩
  | [], _ :: _, _, _, _, _, h | _ :: _, [], _, _, _, _, h => by cases h
  | _ :: xs, _ :: ys, cs, cs', hxs, hys, h => by
    obtain ⟨hx, hxs⟩ := Bool.and_eq_true_iff.1 hxs
    obtain ⟨hy, hys'⟩ := Bool.and_eq_true_iff.1 hys
    obtain ⟨rfl, hrest⟩ := Value.eq_of_text_append hx hy (Value.noDigitHead_afterElement cs xs)
      (Value.noDigitHead_afterElement cs' ys) (List.cons.inj (List.cons.inj h).2).2
    obtain ⟨rfl, rfl⟩ := Value.eq_of_afterElement hxs hys' hrest
    exact ⟨rfl, rfl⟩

end

mutual

theorem Value.eq_of_content : ∀ {x y : Value}, x.isGround → y.isGround →
    x.content = y.content → x = y
  | .int _, y, _, hy, h => by
    cases y with
    | int n =>
      cases h
      rfl
    | bool | vec => cases h
    | fn | future | foreign => cases hy
  | .bool _, y, _, hy, h => by
    cases y with
    | bool b =>
      cases h
      rfl
    | int | vec => cases h
    | fn | future | foreign => cases hy
  | .vec xs, y, hx, hy, h => by
    cases y with
    | vec ys => rw [Value.eq_of_allContents hx hy (Plain.list.inj h)]
    | int | bool => cases h
    | fn | future | foreign => cases hy
  | .fn _ _ _, _, hx, _, _ | .future _, _, hx, _, _ | .foreign _, _, hx, _, _ =>
    absurd hx Bool.false_ne_true

theorem Value.eq_of_allContents : ∀ {xs ys : List Value}, Value.allGround xs →
    Value.allGround ys → Value.allContents xs = Value.allContents ys → xs = ys
  | [], [], _, _, _ => rfl
  | [], _ :: _, _, _, h | _ :: _, [], _, _, h => by cases h
  | x :: xs, y :: ys, hxs, hys, h => by
    obtain ⟨hx, hxs⟩ := Bool.and_eq_true_iff.1 hxs
    obtain ⟨hy, hys⟩ := Bool.and_eq_true_iff.1 hys
    obtain ⟨hfirst, hrest⟩ := List.cons.inj h
    rw [Value.eq_of_content hx hy hfirst, Value.eq_of_allContents hxs hys hrest]

end

namespace Value

variable {x y : Value}

variable (view : CellView) (room : Room)

end Value

end ForkJoin

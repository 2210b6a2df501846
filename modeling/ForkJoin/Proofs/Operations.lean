import ForkJoin.Proofs.Equal
import ForkJoin.Proofs.Nodes

/-!
# Operations on values of the language

What the builtins compute from values of the five types. Such a value has the parts that its type
promises, so an operation either has a value of the language as its result or raises one of five
errors; besides, a comparison may run out of stack. None of them looks at a cell: under other names
for the cells an operation comes to the same.
-/

namespace ForkJoin

/-- The failures that an evaluation in the language raises by itself. That a future was claimed
before is found out by its cell, and how deep a stack is by its interpreter. -/
def Failure.Raised : Failure → Prop
  | .language (.undefinedVariable _) | .language (.notCallable _)
  | .language (.arityMismatch _ _ _) | .language (.typeMismatch _ _ _ _)
  | .language (.emptyCollection _) | .fault .stackExhausted => True
  | _ => False

inductive Answers (f : CellId → CellId) : Except Failure Value → Except Failure Value → Prop
  | ok {v : Value} (hv : v.WellFormed) : Answers f (.ok v) (.ok (v.rewrite (.ofCells f)))
  | error {e : Failure} (he : e.Raised) : Answers f (.error e) (.error e)

variable {f : CellId → CellId} {v w : Value}

namespace Value

@[simp] theorem typeName_ofCells (v : Value) :
    (v.rewrite (.ofCells f)).typeName = v.typeName := by
  cases v <;> rfl

@[simp] theorem hasType_ofCells (v : Value) (type : Datum) :
    (v.rewrite (.ofCells f)).hasType type = v.hasType type := by
  rw [hasType, hasType, typeName_ofCells]

theorem WellFormed.eq_int (hv : v.WellFormed) (h : v.hasType "Integer" = true) :
    ∃ n, v = int n := by
  cases v with
  | int n => exact ⟨n, rfl⟩
  | foreign d => exact hv.elim
  | _ => simp [hasType, typeName] at h

theorem WellFormed.eq_vec (hv : v.WellFormed) (h : v.hasType "Vector" = true) :
    ∃ items, v = vec items := by
  cases v with
  | vec items => exact ⟨items, rfl⟩
  | foreign d => exact hv.elim
  | _ => simp [hasType, typeName] at h

theorem WellFormed.eq_fn (hv : v.WellFormed) (h : v.hasType "Function" = true) :
    ∃ name params body, v = fn name params body := by
  cases v with
  | fn name params body => exact ⟨name, params, body, rfl⟩
  | foreign d => exact hv.elim
  | _ => simp [hasType, typeName] at h

end Value

theorem expectType_eq (function parameter expected : Datum) (v : Value) :
    Failure.ofError (expectType function parameter expected v) =
      if v.hasType expected then .ok v
      else .error (.language (operandMismatch function parameter expected v)) := by
  unfold expectType
  split <;> rfl

@[simp] theorem operandMismatch_ofCells (function parameter expected : Datum) (v : Value) :
    operandMismatch function parameter expected (v.rewrite (.ofCells f)) =
      operandMismatch function parameter expected v := by
  rw [operandMismatch, operandMismatch, Value.typeName_ofCells]

theorem expectCondition_ofCells {function : Datum} (hv : v.WellFormed) :
    expectCondition function (v.rewrite (.ofCells f)) = expectCondition function v := by
  cases v with
  | foreign d => exact hv.elim
  | _ => rfl

theorem expectCondition_cases (function : Datum) (hv : v.WellFormed) :
    (∃ b, v = .bool b ∧ expectCondition function v = .ok b) ∨
      ∃ e, e.Raised ∧ expectCondition function v = .error e := by
  cases v with
  | bool b => exact .inl ⟨b, rfl, rfl⟩
  | foreign d => exact hv.elim
  | _ =>
    refine .inr ⟨_, ?_, rfl⟩
    exact trivial

/-! ### What operations come to -/

/-- The failures that an operation on values of the language raises: an operand is of the wrong
type, or a vector is empty. -/
inductive Failure.OfOperation : Failure → Prop
  | mismatch (function parameter expected : Datum) (v : Value) :
      OfOperation (.language (operandMismatch function parameter expected v))
  | empty (operation : Datum) : OfOperation (.language (.emptyCollection operation))

theorem Failure.OfOperation.raised {e : Failure} (he : e.OfOperation) : e.Raised := by
  cases he with
  | mismatch | empty => exact trivial

theorem arithmetic_cases (op : Operation) (name : Datum) (hv : v.WellFormed) (hw : w.WellFormed) :
    (∃ n, arithmetic op name v w = .ok (.int n)) ∨
      ∃ e, e.OfOperation ∧ arithmetic op name v w = .error e := by
  simp only [arithmetic, expectType_eq]
  cases hint : v.hasType "Integer" with
  | false => exact .inr ⟨_, .mismatch .., rfl⟩
  | true =>
    obtain ⟨m, rfl⟩ := hv.eq_int hint
    cases hint' : w.hasType "Integer" with
    | false => exact .inr ⟨_, .mismatch .., rfl⟩
    | true =>
      obtain ⟨n, rfl⟩ := hw.eq_int hint'
      exact .inl ⟨_, rfl⟩

theorem cons_cases (v : Value) (hw : w.WellFormed) :
    (∃ items, w = .vec items ∧ (do
        Failure.ofFault ((← expectVector "cons" 2 w).pushFront v)) = .ok (.vec (v :: items))) ∨
      ∃ e, e.OfOperation ∧
        (do Failure.ofFault ((← expectVector "cons" 2 w).pushFront v)) = .error e := by
  simp only [expectVector, expectType_eq]
  cases hvec : w.hasType "Vector" with
  | false => exact .inr ⟨_, .mismatch .., rfl⟩
  | true =>
    obtain ⟨items, rfl⟩ := hw.eq_vec hvec
    exact .inl ⟨items, rfl, rfl⟩

/-- What is asked of a vector that must not be empty is asked of one that is not, or an error is
raised. -/
theorem nonEmpty_cases (name : String) (part : Value → Except Fault Value) (hv : v.WellFormed) :
    (∃ first items, v = .vec (first :: items) ∧
        applyBuiltin.nonEmpty name part v = Failure.ofFault (part v)) ∨
      ∃ e, e.OfOperation ∧ applyBuiltin.nonEmpty name part v = .error e := by
  simp only [applyBuiltin.nonEmpty, expectVector, expectType_eq]
  cases hvec : v.hasType "Vector" with
  | false => exact .inr ⟨_, .mismatch .., rfl⟩
  | true =>
    obtain ⟨items, rfl⟩ := hv.eq_vec hvec
    cases items with
    | nil => exact .inr ⟨_, .empty name, rfl⟩
    | cons first items => exact .inl ⟨first, items, rfl, rfl⟩

theorem answers_arithmetic (op : Operation) (name : Datum) (hv : v.WellFormed)
    (hw : w.WellFormed) : Answers f (arithmetic op name v w)
      (arithmetic op name (v.rewrite (.ofCells f)) (w.rewrite (.ofCells f))) := by
  simp only [arithmetic, expectType_eq, Value.hasType_ofCells, operandMismatch_ofCells]
  cases hint : v.hasType "Integer" with
  | false => exact .error trivial
  | true =>
    obtain ⟨m, rfl⟩ := hv.eq_int hint
    cases hint' : w.hasType "Integer" with
    | false => exact .error trivial
    | true =>
      obtain ⟨n, rfl⟩ := hw.eq_int hint'
      exact .ok trivial

theorem answers_equal (room : Room) (hv : v.WellFormed) (hw : w.WellFormed) :
    Answers f (Failure.ofFault (return .bool (← v.equal room w)))
      (Failure.ofFault (return .bool (←
        (v.rewrite (.ofCells f)).equal room (w.rewrite (.ofCells f))))) := by
  rw [Value.equal_ofCells room hv hw]
  cases hequal : v.equal room w with
  | ok b => exact .ok trivial
  | error e =>
    cases Value.onlyStack_equal room hv hw e hequal
    exact .error trivial

theorem answers_cons (hv : v.WellFormed) (hw : w.WellFormed) :
    Answers f (do Failure.ofFault ((← expectVector "cons" 2 w).pushFront v))
      (do
        let vector ← expectVector "cons" 2 (w.rewrite (.ofCells f))
        Failure.ofFault (vector.pushFront (v.rewrite (.ofCells f)))) := by
  simp only [expectVector, expectType_eq, Value.hasType_ofCells, operandMismatch_ofCells]
  cases hvec : w.hasType "Vector" with
  | false => exact .error trivial
  | true =>
    obtain ⟨items, rfl⟩ := hw.eq_vec hvec
    simp only [Value.rewrite_vec]
    have h : (Value.vec (v :: items)).WellFormed := ⟨hv, hw⟩
    have hok := Answers.ok (f := f) h
    rw [Value.rewrite_vec, List.map_cons] at hok
    exact hok

theorem answers_nonEmpty {name : String} {part : Value → Except Fault Value}
    (hpart : ∀ first items, (Value.vec (first :: items)).WellFormed →
      ∃ u, part (.vec (first :: items)) = .ok u ∧ u.WellFormed ∧
        part (.vec ((first :: items).map (Value.rewrite (.ofCells f)))) =
          .ok (u.rewrite (.ofCells f))) (hv : v.WellFormed) :
    Answers f (applyBuiltin.nonEmpty name part v)
      (applyBuiltin.nonEmpty name part (v.rewrite (.ofCells f))) := by
  simp only [applyBuiltin.nonEmpty, expectVector, expectType_eq, Value.hasType_ofCells,
    operandMismatch_ofCells]
  cases hvec : v.hasType "Vector" with
  | false => exact .error trivial
  | true =>
    obtain ⟨items, rfl⟩ := hv.eq_vec hvec
    rw [Value.rewrite_vec]
    cases items with
    | nil => exact .error trivial
    | cons first items =>
      obtain ⟨u, hu, hwf, hu'⟩ := hpart first items hv
      have hok := Answers.ok (f := f) hwf
      have hleft : Failure.ofFault (part (.vec (first :: items))) = .ok u := by rw [hu]; rfl
      have hright : Failure.ofFault (part (.vec ((first :: items).map
          (Value.rewrite (.ofCells f))))) = .ok (u.rewrite (.ofCells f)) := by rw [hu']; rfl
      rw [← hleft, ← hright] at hok
      exact hok

theorem answers_head (hv : v.WellFormed) :
    Answers f (applyBuiltin.nonEmpty "head" Value.head v)
      (applyBuiltin.nonEmpty "head" Value.head (v.rewrite (.ofCells f))) :=
  answers_nonEmpty (fun first _ h => ⟨first, rfl, h.1, rfl⟩) hv

theorem answers_tail (hv : v.WellFormed) :
    Answers f (applyBuiltin.nonEmpty "tail" Value.tail v)
      (applyBuiltin.nonEmpty "tail" Value.tail (v.rewrite (.ofCells f))) :=
  answers_nonEmpty (fun _ items h => ⟨.vec items, rfl, h.2, by rw [Value.rewrite_vec]; rfl⟩) hv

end ForkJoin

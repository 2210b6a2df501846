import ForkJoin.Proofs.Calls
import ForkJoin.Proofs.Equal.Identity
import ForkJoin.Proofs.Operations
import ForkJoin.Proofs.Serial.Ground

/-!
# Programs without functions of their own

An expression is plain when its literals are ground, so it can apply only the functions that it
finds in its environment. A value is primitive when all functions in it stand for builtins, whatever
bodies they have. Functions travel: they are bound, put into vectors and passed between tasks. But
none of the operations makes a function, so nothing but primitive values comes from primitive
values.

What such an operation can fail with is an error of the language. The stack does not come into it,
if its entries are not counted.
-/

namespace ForkJoin

mutual

/-- All functions in a value stand for builtins. -/
def Value.Primitive : Value → Prop
  | .int _ | .bool _ | .future _ => True
  | .vec items => Value.AllPrimitive items
  | .fn name _ body => (∃ b : Builtin, name = some b.name) ∧ body.WellFormed
  | .foreign _ => False

def Value.AllPrimitive : List Value → Prop
  | [] => True
  | v :: vs => v.Primitive ∧ Value.AllPrimitive vs

end

mutual

theorem Value.Primitive.wellFormed : ∀ {v : Value}, v.Primitive → v.WellFormed
  | .int _, _ | .bool _, _ | .future _, _ => trivial
  | .vec _, h => Value.AllPrimitive.wellFormed h
  | .fn _ _ _, h => h.2

theorem Value.AllPrimitive.wellFormed : ∀ {vs : List Value}, Value.AllPrimitive vs →
    Value.AllWellFormed vs
  | [], _ => trivial
  | _ :: _, h => ⟨Value.Primitive.wellFormed h.1, Value.AllPrimitive.wellFormed h.2⟩

end

mutual

theorem Value.primitive_of_isGround : ∀ {v : Value}, v.isGround → v.Primitive
  | .int _, _ | .bool _, _ => trivial
  | .vec _, h => Value.allPrimitive_of_allGround h
  | .fn _ _ _, h | .future _, h | .foreign _, h => absurd h Bool.false_ne_true

theorem Value.allPrimitive_of_allGround : ∀ {vs : List Value}, Value.allGround vs →
    Value.AllPrimitive vs
  | [], _ => trivial
  | _ :: _, h =>
    have h := Bool.and_eq_true_iff.1 h
    ⟨Value.primitive_of_isGround h.1, Value.allPrimitive_of_allGround h.2⟩

end

mutual

theorem Value.within_of_isGround (cells : CellId → Prop) : ∀ {v : Value}, v.isGround →
    v.Within cells
  | .int _, _ => Value.within_int _
  | .bool _, _ => Value.within_bool _
  | .vec items, h => (Value.within_vec items).2 (Value.within_of_allGround cells h)
  | .fn _ _ _, h | .future _, h | .foreign _, h => absurd h Bool.false_ne_true

theorem Value.within_of_allGround (cells : CellId → Prop) : ∀ {vs : List Value},
    Value.allGround vs → ∀ v ∈ vs, v.Within cells
  | [], _ => fun _ hv => absurd hv List.not_mem_nil
  | _ :: _, h =>
    have h := Bool.and_eq_true_iff.1 h
    List.forall_mem_cons.2 ⟨Value.within_of_isGround cells h.1, Value.within_of_allGround cells h.2⟩

end

mutual

/-- An expression all of whose literals are ground. -/
def Expr.Plain : Expr → Prop
  | .lit value => value.isGround
  | .var _ => True
  | .app callee args => callee.Plain ∧ Expr.AllPlain args
  | .letIn _ value body => value.Plain ∧ body.Plain
  | .cond test yes no => test.Plain ∧ yes.Plain ∧ no.Plain
  | .spawn body | .sync body => body.Plain
  | .foreign _ => False

def Expr.AllPlain : List Expr → Prop
  | [] => True
  | e :: es => e.Plain ∧ Expr.AllPlain es

end

mutual

theorem Expr.Plain.wellFormed : ∀ {e : Expr}, e.Plain → e.WellFormed
  | .lit _, h => (Value.primitive_of_isGround h).wellFormed
  | .var _, _ => trivial
  | .app _ _, h => ⟨Expr.Plain.wellFormed h.1, Expr.AllPlain.wellFormed h.2⟩
  | .letIn _ _ _, h => ⟨Expr.Plain.wellFormed h.1, Expr.Plain.wellFormed h.2⟩
  | .cond _ _ _, h =>
    ⟨Expr.Plain.wellFormed h.1, Expr.Plain.wellFormed h.2.1, Expr.Plain.wellFormed h.2.2⟩
  | .spawn body, h | .sync body, h => Expr.Plain.wellFormed (e := body) h

theorem Expr.AllPlain.wellFormed : ∀ {es : List Expr}, Expr.AllPlain es → Expr.AllWellFormed es
  | [], _ => trivial
  | _ :: _, h => ⟨Expr.Plain.wellFormed h.1, Expr.AllPlain.wellFormed h.2⟩

end

mutual

theorem Expr.Plain.within (cells : CellId → Prop) : ∀ {e : Expr}, e.Plain → e.Within cells
  | .lit v, h => (Expr.within_lit v).2 (Value.within_of_isGround cells h)
  | .var name, _ => Expr.within_var name
  | .app callee args, h =>
    (Expr.within_app callee args).2 ⟨Expr.Plain.within cells h.1, Expr.AllPlain.within cells h.2⟩
  | .letIn name value body, h =>
    (Expr.within_letIn name value body).2 ⟨Expr.Plain.within cells h.1, Expr.Plain.within cells h.2⟩
  | .cond test yes no, h =>
    (Expr.within_cond test yes no).2 ⟨Expr.Plain.within cells h.1, Expr.Plain.within cells h.2.1,
      Expr.Plain.within cells h.2.2⟩
  | .spawn body, h => (Expr.within_spawn body).2 (Expr.Plain.within cells (e := body) h)
  | .sync body, h => (Expr.within_sync body).2 (Expr.Plain.within cells (e := body) h)

theorem Expr.AllPlain.within (cells : CellId → Prop) : ∀ {es : List Expr}, Expr.AllPlain es →
    ∀ e ∈ es, e.Within cells
  | [], _ => fun _ he => absurd he List.not_mem_nil
  | _ :: _, h =>
    List.forall_mem_cons.2 ⟨Expr.Plain.within cells h.1, Expr.AllPlain.within cells h.2⟩

end

mutual

/-- How many nodes stand one inside the other at most. -/
def Expr.height : Expr → Nat
  | .lit _ | .var _ | .foreign _ => 1
  | .app callee args => max callee.height (Expr.heightAll args) + 1
  | .letIn _ value body => max value.height body.height + 1
  | .cond test yes no => max test.height (max yes.height no.height) + 1
  | .spawn body | .sync body => body.height + 1

def Expr.heightAll : List Expr → Nat
  | [] => 0
  | e :: es => max e.height (Expr.heightAll es)

end

mutual

def Expr.nodes : Expr → Nat
  | .lit _ | .var _ | .foreign _ => 1
  | .app callee args => callee.nodes + Expr.nodesAll args + 1
  | .letIn _ value body => value.nodes + body.nodes + 1
  | .cond test yes no => test.nodes + yes.nodes + no.nodes + 1
  | .spawn body | .sync body => body.nodes + 1

def Expr.nodesAll : List Expr → Nat
  | [] => 0
  | e :: es => e.nodes + Expr.nodesAll es

end

/-! ### Operations -/

/-- An error of the language other than that an evaluation nests too deeply. -/
def Failure.Ordinary : Failure → Prop
  | .language (.depthExceeded _ _) | .fault _ => False
  | .language _ => True

theorem Failure.OfOperation.ordinary {e : Failure} (he : e.OfOperation) : e.Ordinary := by
  cases he with
  | mismatch | empty => exact trivial

theorem Failure.ordinary_of_expectCondition {function : Datum} {v : Value} {e : Failure}
    (hv : v.WellFormed) (h : expectCondition function v = .error e) : e.Ordinary := by
  cases v with
  | bool b => cases h
  | foreign d => exact hv.elim
  | _ =>
    cases h
    exact trivial

inductive YieldsPrimitive : Except Failure Value → Prop
  | ok {v : Value} (hv : v.Primitive) : YieldsPrimitive (.ok v)
  | error {e : Failure} (he : e.Ordinary) : YieldsPrimitive (.error e)

namespace YieldsPrimitive

variable {v w : Value}

theorem arithmetic (op : Operation) (name : Datum) (hv : v.Primitive) (hw : w.Primitive) :
    YieldsPrimitive (arithmetic op name v w) := by
  rcases arithmetic_cases op name hv.wellFormed hw.wellFormed with ⟨n, h⟩ | ⟨e, he, h⟩
  · exact h ▸ .ok trivial
  · exact h ▸ .error he.ordinary

theorem equal (hv : v.Primitive) (hw : w.Primitive) :
    YieldsPrimitive (Failure.ofFault (return .bool (← v.equal none w))) := by
  obtain ⟨b, hb⟩ := (Value.tells_equal none hv.wellFormed hw.wellFormed).enough rfl
  rw [hb]
  exact .ok trivial

theorem cons (hv : v.Primitive) (hw : w.Primitive) :
    YieldsPrimitive (do Failure.ofFault ((← expectVector "cons" 2 w).pushFront v)) := by
  rcases cons_cases v hw.wellFormed with ⟨items, rfl, h⟩ | ⟨e, he, h⟩
  · have hitems : (Value.vec (v :: items)).Primitive := ⟨hv, hw⟩
    exact h ▸ .ok hitems
  · exact h ▸ .error he.ordinary

theorem nonEmpty {name : String} {part : Value → Except Fault Value}
    (hpart : ∀ first items, (Value.vec (first :: items)).Primitive →
      ∃ u, part (.vec (first :: items)) = .ok u ∧ u.Primitive) (hv : v.Primitive) :
    YieldsPrimitive (applyBuiltin.nonEmpty name part v) := by
  rcases nonEmpty_cases name part hv.wellFormed with ⟨first, items, rfl, h⟩ | ⟨e, he, h⟩
  · obtain ⟨u, hu, hprimitive⟩ := hpart first items hv
    rw [h, hu]
    exact .ok hprimitive
  · exact h ▸ .error he.ordinary

theorem head (hv : v.Primitive) : YieldsPrimitive (applyBuiltin.nonEmpty "head" Value.head v) :=
  nonEmpty (fun first _ h => ⟨first, rfl, h.1⟩) hv

theorem tail (hv : v.Primitive) : YieldsPrimitive (applyBuiltin.nonEmpty "tail" Value.tail v) :=
  nonEmpty (fun _ items h => ⟨.vec items, rfl, h.2⟩) hv

end YieldsPrimitive

end ForkJoin

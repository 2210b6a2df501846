import ForkJoin.Proofs.Holds
import ForkJoin.Proofs.Operations

/-!
# Lets in tail positions

Whether bindings are scoped shows in the environment that a `let` leaves behind. Nobody looks at it
where the `let` ends what is evaluated: at the root, in the body of such a `let`, in a branch of a
conditional in such a position, and again at the root of a spawned expression and of the body of a
function. An expression has tail lets only when all its lets stand in such positions, and when so do
those of all functions in its literals.
-/

namespace ForkJoin

mutual

/-- All functions in a value have bodies with tail lets only. -/
def Value.TailLets : Value → Prop
  | .int _ | .bool _ | .future _ => True
  | .vec items => Value.AllTailLets items
  | .fn _ _ body => body.TailLets true
  | .foreign _ => False

def Value.AllTailLets : List Value → Prop
  | [] => True
  | v :: vs => v.TailLets ∧ Value.AllTailLets vs

/-- An expression has tail lets only, if it stands in a tail position itself or not. What is spawned
starts afresh. -/
def Expr.TailLets : Expr → (tail : Bool) → Prop
  | .lit value, _ => value.TailLets
  | .var _, _ => True
  | .app callee args, _ => callee.TailLets false ∧ Expr.AllTailLets args
  | .letIn _ value body, tail => tail = true ∧ value.TailLets false ∧ body.TailLets true
  | .cond test yes no, tail => test.TailLets false ∧ yes.TailLets tail ∧ no.TailLets tail
  | .spawn body, _ => body.TailLets true
  | .sync body, _ => body.TailLets false
  | .foreign _, _ => False

def Expr.AllTailLets : List Expr → Prop
  | [] => True
  | e :: es => e.TailLets false ∧ Expr.AllTailLets es

end

/-- All functions in the values of an environment have bodies with tail lets only. -/
def Env.TailLets (env : Env) : Prop :=
  env.Holds Value.TailLets

theorem Value.allTailLets_iff (vs : List Value) :
    Value.AllTailLets vs ↔ ∀ v ∈ vs, v.TailLets := by
  induction vs with
  | nil => simp [Value.AllTailLets]
  | cons v vs ih => rw [Value.AllTailLets, ih, List.forall_mem_cons]

theorem Expr.allTailLets_iff (es : List Expr) :
    Expr.AllTailLets es ↔ ∀ e ∈ es, e.TailLets false := by
  induction es with
  | nil => simp [Expr.AllTailLets]
  | cons e es ih => rw [Expr.AllTailLets, ih, List.forall_mem_cons]

@[simp] theorem Value.tailLets_vec (items : List Value) :
    (Value.vec items).TailLets ↔ ∀ v ∈ items, v.TailLets :=
  Value.allTailLets_iff items

@[simp] theorem Expr.tailLets_app (callee : Expr) (args : List Expr) (tail : Bool) :
    (Expr.app callee args).TailLets tail ↔
      callee.TailLets false ∧ ∀ arg ∈ args, arg.TailLets false :=
  and_congr_right fun _ => Expr.allTailLets_iff args

mutual

theorem Value.TailLets.wellFormed : ∀ {v : Value}, v.TailLets → v.WellFormed
  | .int _, _ | .bool _, _ | .future _, _ => trivial
  | .vec _, h => Value.AllTailLets.wellFormed h
  | .fn _ _ _, h => Expr.TailLets.wellFormed h

theorem Value.AllTailLets.wellFormed : ∀ {vs : List Value}, Value.AllTailLets vs →
    Value.AllWellFormed vs
  | [], _ => trivial
  | _ :: _, h => ⟨Value.TailLets.wellFormed h.1, Value.AllTailLets.wellFormed h.2⟩

theorem Expr.TailLets.wellFormed : ∀ {e : Expr} {tail : Bool}, e.TailLets tail → e.WellFormed
  | .lit _, _, h => Value.TailLets.wellFormed h
  | .var _, _, _ => trivial
  | .app _ _, _, h => ⟨Expr.TailLets.wellFormed h.1, Expr.AllTailLets.wellFormed h.2⟩
  | .letIn _ _ _, _, h => ⟨Expr.TailLets.wellFormed h.2.1, Expr.TailLets.wellFormed h.2.2⟩
  | .cond _ _ _, _, h =>
    ⟨Expr.TailLets.wellFormed h.1, Expr.TailLets.wellFormed h.2.1, Expr.TailLets.wellFormed h.2.2⟩
  | .spawn body, _, h => Expr.TailLets.wellFormed (e := body) h
  | .sync body, _, h => Expr.TailLets.wellFormed (e := body) h

theorem Expr.AllTailLets.wellFormed : ∀ {es : List Expr}, Expr.AllTailLets es →
    Expr.AllWellFormed es
  | [], _ => trivial
  | _ :: _, h => ⟨Expr.TailLets.wellFormed h.1, Expr.AllTailLets.wellFormed h.2⟩

end

inductive YieldsTailLets : Except Failure Value → Prop
  | ok {v : Value} (hv : v.TailLets) : YieldsTailLets (.ok v)
  | error (e : Failure) : YieldsTailLets (.error e)

namespace YieldsTailLets

variable {v w : Value}

theorem arithmetic (op : Operation) (name : Datum) (hv : v.TailLets) (hw : w.TailLets) :
    YieldsTailLets (arithmetic op name v w) := by
  rcases arithmetic_cases op name hv.wellFormed hw.wellFormed with ⟨n, h⟩ | ⟨e, -, h⟩
  · exact h ▸ .ok trivial
  · exact h ▸ .error e

theorem equal (room : Room) (v w : Value) :
    YieldsTailLets (Failure.ofFault (return .bool (← v.equal room w))) := by
  cases v.equal room w with
  | ok b => exact .ok trivial
  | error f => exact .error _

theorem cons (hv : v.TailLets) (hw : w.TailLets) :
    YieldsTailLets (do Failure.ofFault ((← expectVector "cons" 2 w).pushFront v)) := by
  rcases cons_cases v hw.wellFormed with ⟨items, rfl, h⟩ | ⟨e, -, h⟩
  · have hitems : (Value.vec (v :: items)).TailLets := ⟨hv, hw⟩
    exact h ▸ .ok hitems
  · exact h ▸ .error e

theorem nonEmpty {name : String} {part : Value → Except Fault Value}
    (hpart : ∀ first items, (Value.vec (first :: items)).TailLets →
      ∃ u, part (.vec (first :: items)) = .ok u ∧ u.TailLets) (hv : v.TailLets) :
    YieldsTailLets (applyBuiltin.nonEmpty name part v) := by
  rcases nonEmpty_cases name part hv.wellFormed with ⟨first, items, rfl, h⟩ | ⟨e, -, h⟩
  · obtain ⟨u, hu, htail⟩ := hpart first items hv
    rw [h, hu]
    exact .ok htail
  · exact h ▸ .error e

theorem head (hv : v.TailLets) : YieldsTailLets (applyBuiltin.nonEmpty "head" Value.head v) :=
  nonEmpty (fun first _ h => ⟨first, rfl, h.1⟩) hv

theorem tail (hv : v.TailLets) : YieldsTailLets (applyBuiltin.nonEmpty "tail" Value.tail v) :=
  nonEmpty (fun _ items h => ⟨.vec items, rfl, h.2⟩) hv

end YieldsTailLets

end ForkJoin

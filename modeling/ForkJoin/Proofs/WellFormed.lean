import ForkJoin.Proofs.Holds
import ForkJoin.Value.Equal

/-!
# Values and expressions of the language

A value is well-formed when it is made of values of the five types alone: no data from outside stand
in its place or in the place of one of its parts, down to the literals inside the bodies of functions.
Likewise an expression is well-formed when it is a tree of the seven kinds of node with well-formed
literals. Which parts such a value has can be read off its type, so all its parts are there, and
comparing two of them fails only where the stack is too small.
-/

namespace ForkJoin

mutual

def Value.WellFormed : Value → Prop
  | .int _ | .bool _ | .future _ => True
  | .vec items => Value.AllWellFormed items
  | .fn _ _ body => body.WellFormed
  | .foreign _ => False

def Value.AllWellFormed : List Value → Prop
  | [] => True
  | v :: vs => v.WellFormed ∧ Value.AllWellFormed vs

def Expr.WellFormed : Expr → Prop
  | .lit value => value.WellFormed
  | .var _ => True
  | .app callee args => callee.WellFormed ∧ Expr.AllWellFormed args
  | .letIn _ value body => value.WellFormed ∧ body.WellFormed
  | .cond test yes no => test.WellFormed ∧ yes.WellFormed ∧ no.WellFormed
  | .spawn body | .sync body => body.WellFormed
  | .foreign _ => False

def Expr.AllWellFormed : List Expr → Prop
  | [] => True
  | e :: es => e.WellFormed ∧ Expr.AllWellFormed es

end

namespace Value

theorem allWellFormed_iff (vs : List Value) : AllWellFormed vs ↔ ∀ v ∈ vs, v.WellFormed := by
  induction vs with
  | nil => simp [AllWellFormed]
  | cons v vs ih => rw [AllWellFormed, ih, List.forall_mem_cons]

@[simp] theorem wellFormed_int (n : Int) : (int n).WellFormed := trivial

@[simp] theorem wellFormed_bool (b : Bool) : (bool b).WellFormed := trivial

@[simp] theorem wellFormed_future (x : CellId) : (future x).WellFormed := trivial

@[simp] theorem wellFormed_vec (items : List Value) :
    (vec items).WellFormed ↔ ∀ v ∈ items, v.WellFormed :=
  allWellFormed_iff items

@[simp] theorem wellFormed_fn (name : Option String) (params : List String) (body : Expr) :
    (fn name params body).WellFormed ↔ body.WellFormed := Iff.rfl

@[simp] theorem not_wellFormed_foreign (d : Datum) : ¬ (foreign d).WellFormed := id

end Value

namespace Expr

theorem allWellFormed_iff (es : List Expr) : AllWellFormed es ↔ ∀ e ∈ es, e.WellFormed := by
  induction es with
  | nil => simp [AllWellFormed]
  | cons e es ih => rw [AllWellFormed, ih, List.forall_mem_cons]

@[simp] theorem wellFormed_lit (v : Value) : (lit v).WellFormed ↔ v.WellFormed := Iff.rfl

@[simp] theorem wellFormed_var (name : String) : (var name).WellFormed := trivial

@[simp] theorem wellFormed_app (callee : Expr) (args : List Expr) :
    (app callee args).WellFormed ↔ callee.WellFormed ∧ ∀ arg ∈ args, arg.WellFormed :=
  and_congr_right fun _ => allWellFormed_iff args

@[simp] theorem wellFormed_letIn (name : String) (value body : Expr) :
    (letIn name value body).WellFormed ↔ value.WellFormed ∧ body.WellFormed := Iff.rfl

@[simp] theorem wellFormed_cond (test yes no : Expr) :
    (cond test yes no).WellFormed ↔ test.WellFormed ∧ yes.WellFormed ∧ no.WellFormed := Iff.rfl

@[simp] theorem wellFormed_spawn (body : Expr) : (spawn body).WellFormed ↔ body.WellFormed := Iff.rfl

@[simp] theorem wellFormed_sync (body : Expr) : (sync body).WellFormed ↔ body.WellFormed := Iff.rfl

@[simp] theorem not_wellFormed_foreign (d : Datum) : ¬ (foreign d).WellFormed := id

end Expr

def Frame.WellFormed (f : Frame) : Prop :=
  ∀ entry ∈ f.entries, entry.2.WellFormed

def Env.WellFormed (env : Env) : Prop :=
  ∀ f ∈ env.frames, f.WellFormed

namespace Frame

theorem WellFormed.insert {f : Frame} {name : Name} {v : Value} (h : f.WellFormed)
    (hv : v.WellFormed) : (f.insert name v).WellFormed :=
  Holds.insert (P := Value.WellFormed) h hv

theorem wellFormed_ofList {bindings : List (Name × Value)}
    (h : ∀ binding ∈ bindings, binding.2.WellFormed) : (ofList bindings).WellFormed :=
  holds_ofList (P := Value.WellFormed) h

theorem WellFormed.update {f top : Frame} (h : f.WellFormed) (htop : top.WellFormed) :
    (f.update top).WellFormed :=
  Holds.update (P := Value.WellFormed) h htop

theorem WellFormed.get? {f : Frame} {name : Name} {v : Value} (h : f.WellFormed)
    (hv : f.get? name = some v) : v.WellFormed :=
  Holds.get? (P := Value.WellFormed) h hv

end Frame

namespace Env

theorem WellFormed.extend {env : Env} {f : Frame} (h : env.WellFormed) (hf : f.WellFormed) :
    (env.extend f).WellFormed :=
  Holds.extend (P := Value.WellFormed) h hf

theorem WellFormed.bind {env : Env} {name : Name} {v : Value} (h : env.WellFormed)
    (hv : v.WellFormed) : (env.bind name v).WellFormed :=
  Holds.bind (P := Value.WellFormed) h hv

theorem WellFormed.get? {env : Env} {name : Name} {v : Value} (h : env.WellFormed)
    (hv : env.get? name = some v) : v.WellFormed :=
  Holds.get? (P := Value.WellFormed) h hv

/-- In a well-formed environment a name that is bound means what it is bound to. -/
theorem WellFormed.lookup_eq {env : Env} (h : env.WellFormed) (name : Name) :
    env.lookup name = env.get? name := by
  unfold Env.lookup
  split
  · rename_i hnull
    exact absurd (h.get? hnull) (Value.not_wellFormed_foreign _)
  · rfl

theorem WellFormed.flatten {env : Env} (h : env.WellFormed) : env.flatten.WellFormed :=
  Holds.flatten (P := Value.WellFormed) h

theorem WellFormed.compact {env : Env} (h : env.WellFormed) : env.compact.WellFormed := by
  simpa [Env.WellFormed, Env.compact, Env.root] using h.flatten

end Env

end ForkJoin

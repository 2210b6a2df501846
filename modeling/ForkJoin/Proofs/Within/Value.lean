import ForkJoin.Proofs.Holds
import ForkJoin.Proofs.Within.Datum
import ForkJoin.Value.Parts

/-!
# The cells that values and expressions mention

A cell can only be reached through something that mentions it: a future, or a value, a function
literal or an expression that has one among its parts, be it a value of the language or data from
outside. Taking these apart, putting them together and binding names does not lead out of a
collection of cells, since nothing but a spawn makes a future.

Values and expressions are looked at through the data that they are written as.
-/

namespace ForkJoin

/-- The cells that a value mentions are all in a collection. -/
def Value.Within (v : Value) (cells : CellId → Prop) : Prop :=
  v.toDatum.Within cells

def Expr.Within (e : Expr) (cells : CellId → Prop) : Prop :=
  e.toDatum.Within cells

section

variable {cells cells' : CellId → Prop}

theorem Value.toData_eq_map (vs : List Value) : Value.toData vs = vs.map Value.toDatum := by
  induction vs with
  | nil => rfl
  | cons v vs ih => rw [toData, ih, List.map_cons]

theorem Expr.toData_eq_map (es : List Expr) : Expr.toData es = es.map Expr.toDatum := by
  induction es with
  | nil => rfl
  | cons e es ih => rw [toData, ih, List.map_cons]

namespace Value

theorem Within.mono {v : Value} (h : v.Within cells) (hle : ∀ x, cells x → cells' x) :
    v.Within cells' :=
  Datum.Within.mono h hle

@[simp] theorem within_int (n : Int) : (int n).Within cells := by
  simp [Within, toDatum]

@[simp] theorem within_bool (b : Bool) : (bool b).Within cells := by
  simp [Within, toDatum]

@[simp] theorem within_vec (items : List Value) :
    (vec items).Within cells ↔ ∀ v ∈ items, v.Within cells := by
  simp [Within, toDatum, toData_eq_map]

@[simp] theorem within_fn (name : Option String) (params : List String) (body : Expr) :
    (fn name params body).Within cells ↔ body.Within cells := by
  simp [Within, Expr.Within, toDatum]

@[simp] theorem within_future (x : CellId) : (future x).Within cells ↔ cells x := by
  simp [Within, toDatum]

@[simp] theorem within_foreign (d : Datum) : (foreign d).Within cells ↔ d.Within cells :=
  Iff.rfl

theorem within_make {type payload : Datum} (htype : type.Within cells)
    (hpayload : payload.Within cells) : (make type payload).Within cells := by
  unfold make
  split
  · exact within_int _
  · exact within_bool _
  · simp [htype, hpayload]

end Value

namespace Expr

theorem Within.mono {e : Expr} (h : e.Within cells) (hle : ∀ x, cells x → cells' x) :
    e.Within cells' :=
  Datum.Within.mono h hle

@[simp] theorem within_lit (v : Value) : (lit v).Within cells ↔ v.Within cells := by
  simp [Within, Value.Within, toDatum]

@[simp] theorem within_var (name : String) : (var name).Within cells := by
  simp [Within, toDatum]

@[simp] theorem within_app (callee : Expr) (args : List Expr) :
    (app callee args).Within cells ↔
      callee.Within cells ∧ ∀ arg ∈ args, arg.Within cells := by
  simp [Within, toDatum, toData_eq_map]

@[simp] theorem within_letIn (name : String) (value body : Expr) :
    (letIn name value body).Within cells ↔ value.Within cells ∧ body.Within cells := by
  simp [Within, toDatum]

@[simp] theorem within_cond (test yes no : Expr) :
    (cond test yes no).Within cells ↔
      test.Within cells ∧ yes.Within cells ∧ no.Within cells := by
  simp [Within, toDatum]

@[simp] theorem within_spawn (body : Expr) : (spawn body).Within cells ↔ body.Within cells := by
  simp [Within, toDatum]

@[simp] theorem within_sync (body : Expr) : (sync body).Within cells ↔ body.Within cells := by
  simp [Within, toDatum]

@[simp] theorem within_foreign (d : Datum) : (foreign d).Within cells ↔ d.Within cells :=
  Iff.rfl

end Expr

/-! ### Parts of values -/

namespace Value

theorem Within.payload {v : Value} {d : Datum} (h : v.Within cells) (hd : v.payload = .ok d) :
    d.Within cells := by
  unfold Value.payload at hd
  split at hd
  case h_1 | h_2 =>
    cases hd
    simp
  case h_3 => exact Datum.Within.part h hd

theorem Within.cell {use : String} {v : Value} {x : CellId} (h : v.Within cells)
    (hx : v.cell use = .ok x) : cells x := by
  unfold Value.cell at hx
  split at hx
  case h_1 =>
    cases hx
    exact (within_future _).1 h
  case h_2 =>
    obtain ⟨d, hd, hx⟩ := ok_of_bind hx
    split at hx
    · cases hx
      exact (Datum.within_cell _).1 (h.payload hd)
    · cases hx

theorem Within.pushFront {vector first v : Value} (h : vector.Within cells)
    (hfirst : first.Within cells) (hv : vector.pushFront first = .ok v) : v.Within cells := by
  unfold Value.pushFront at hv
  split at hv
  case h_1 items =>
    cases hv
    rw [within_vec] at h ⊢
    exact List.forall_mem_cons.2 ⟨hfirst, h⟩
  case h_2 =>
    obtain ⟨d, hd, hv⟩ := ok_of_bind hv
    split at hv
    case h_1 items =>
      cases hv
      have hitems := (Datum.within_tuple items).1 (h.payload hd)
      rw [within_vec]
      refine List.forall_mem_cons.2 ⟨hfirst, fun v hv => ?_⟩
      obtain ⟨item, hitem, rfl⟩ := List.mem_map.1 hv
      exact hitems item hitem
    case h_2 => cases hv

theorem Within.head {vector v : Value} (h : vector.Within cells) (hv : vector.head = .ok v) :
    v.Within cells := by
  unfold Value.head at hv
  split at hv
  case h_1 first rest =>
    cases hv
    exact (within_vec _).1 h _ (List.mem_cons_self ..)
  case h_2 => cases hv
  case h_3 =>
    obtain ⟨payload, hpayload, hv⟩ := ok_of_bind hv
    obtain ⟨d, hfirst, hv⟩ := ok_of_bind hv
    obtain ⟨items, hitems, hfirst⟩ := ok_of_bind hfirst
    cases hv
    split at hfirst
    · cases hfirst
    · cases hfirst
      exact (h.payload hpayload).positions hitems _ (List.mem_cons_self ..)

theorem Within.tail {vector v : Value} (h : vector.Within cells) (hv : vector.tail = .ok v) :
    v.Within cells := by
  unfold Value.tail at hv
  split at hv
  case h_1 items =>
    cases hv
    rw [within_vec] at h ⊢
    exact fun v hv => h v (List.mem_of_mem_tail hv)
  case h_2 =>
    obtain ⟨payload, hpayload, hv⟩ := ok_of_bind hv
    obtain ⟨rest, hrest, hv⟩ := ok_of_bind hv
    obtain ⟨items, hitems, hrest⟩ := ok_of_bind hrest
    cases hv
    cases hrest
    rw [within_vec]
    intro v hv
    obtain ⟨item, hitem, rfl⟩ := List.mem_map.1 hv
    exact (h.payload hpayload).positions hitems item (List.mem_of_mem_tail hitem)

/-- The body of a function that a value holds mentions what the value mentions. -/
theorem Within.procedure {v : Value} {f : Procedure} {body : Expr} (h : v.Within cells)
    (hf : v.procedure = .ok f) (hbody : f.body = .ok body) : body.Within cells := by
  unfold Value.procedure at hf
  split at hf
  case h_1 =>
    cases hf
    cases hbody
    exact (within_fn _ _ _).1 h
  case h_2 =>
    obtain ⟨d, hd, hf⟩ := ok_of_bind hf
    cases hf
    obtain ⟨part, hpart, hbody⟩ := ok_of_bind hbody
    cases hbody
    exact (h.payload hd).part hpart

end Value

/-! ### Parts of expressions -/

def Args.Within (args : Args) (cells : CellId → Prop) : Prop :=
  ∀ arg ∈ args.items, arg.Within cells

def Node.Within (node : Node) (cells : CellId → Prop) : Prop :=
  match node with
  | .lit value => ∀ v, value = .ok v → v.Within cells
  | .var _ | .unknown _ => True
  | .app callee args =>
    (∀ e, callee = .ok e → e.Within cells) ∧ ∀ found, args = .ok found → found.Within cells
  | .letIn _ value body =>
    (∀ e, value = .ok e → e.Within cells) ∧ ∀ e, body = .ok e → e.Within cells
  | .cond test yes no =>
    (∀ e, test = .ok e → e.Within cells) ∧ (∀ e, yes = .ok e → e.Within cells) ∧
      ∀ e, no = .ok e → e.Within cells
  | .spawn body | .sync body => ∀ e, body = .ok e → e.Within cells

theorem Args.within_ofDatum {d : Datum} (h : d.Within cells) : (Args.ofDatum d).Within cells := by
  have hforeign : ∀ {items : List Datum}, (∀ d ∈ items, d.Within cells) →
      ∀ arg ∈ items.map Expr.foreign, arg.Within cells := by
    intro items hitems arg harg
    obtain ⟨item, hitem, rfl⟩ := List.mem_map.1 harg
    exact hitems item hitem
  unfold Args.ofDatum Args.Within
  split
  case h_1 => exact hforeign ((Datum.within_list _).1 h)
  case h_2 => exact hforeign ((Datum.within_tuple _).1 h)
  case h_3 => exact hforeign fun d hd => Datum.within_of_mem_characters hd
  case h_4 =>
    intro arg harg
    obtain ⟨name, -, rfl⟩ := List.mem_map.1 harg
    exact Datum.within_text name
  case h_5 =>
    intro arg harg
    cases harg

theorem Node.within_ofDatum {d : Datum} {node : Node} (h : d.Within cells)
    (hnode : Node.ofDatum d = .ok node) : node.Within cells := by
  have hpart : ∀ (key : String) (part : Datum),
      (do (← d.part "value").part key) = .ok part → part.Within cells := by
    intro key part hpart
    obtain ⟨payload, hpayload, hpart⟩ := ok_of_bind hpart
    exact (h.part hpayload).part hpart
  have hexpr : ∀ (part : Except Fault Datum), (∀ d, part = .ok d → d.Within cells) →
      ∀ e, (do return Expr.foreign (← part)) = .ok e → e.Within cells := by
    intro part hwithin e he
    obtain ⟨d, hd, he⟩ := ok_of_bind he
    cases he
    exact hwithin d hd
  unfold Node.ofDatum at hnode
  obtain ⟨type, -, hnode⟩ := ok_of_bind hnode
  split at hnode
  all_goals cases hnode
  case h_1 =>
    intro v hv
    obtain ⟨payload, hpayload, hv⟩ := ok_of_bind hv
    cases hv
    exact h.part hpayload
  case h_3 =>
    refine ⟨hexpr _ (hpart "function"), fun args hargs => ?_⟩
    obtain ⟨part, hfound, hargs⟩ := ok_of_bind hargs
    cases hargs
    exact Args.within_ofDatum (hpart "args" part hfound)
  case h_4 => exact ⟨hexpr _ (hpart "value"), hexpr _ (hpart "body")⟩
  case h_5 => exact ⟨hexpr _ (hpart "condition"), hexpr _ (hpart "then"), hexpr _ (hpart "else")⟩
  case h_6 | h_7 => exact hexpr _ fun payload hpayload => h.part hpayload
  case h_2 | h_8 => exact trivial

theorem Expr.Within.node {e : Expr} {node : Node} (h : e.Within cells)
    (hnode : e.node = .ok node) : node.Within cells := by
  unfold Expr.node at hnode
  split at hnode
  case h_8 => exact Node.within_ofDatum h hnode
  all_goals cases hnode
  case h_1 =>
    intro v hv
    cases hv
    exact (within_lit _).1 h
  case h_2 => exact trivial
  case h_3 =>
    obtain ⟨hcallee, hargs⟩ := (within_app _ _).1 h
    refine ⟨fun e he => ?_, fun args hfound => ?_⟩
    · cases he
      exact hcallee
    · cases hfound
      exact hargs
  case h_4 =>
    obtain ⟨hvalue, hbody⟩ := (within_letIn _ _ _).1 h
    refine ⟨fun e he => ?_, fun e he => ?_⟩
    · cases he
      exact hvalue
    · cases he
      exact hbody
  case h_5 =>
    obtain ⟨htest, hyes, hno⟩ := (within_cond _ _ _).1 h
    refine ⟨fun e he => ?_, fun e he => ?_, fun e he => ?_⟩
    · cases he
      exact htest
    · cases he
      exact hyes
    · cases he
      exact hno
  case h_6 =>
    intro e he
    cases he
    exact (within_spawn _).1 h
  case h_7 =>
    intro e he
    cases he
    exact (within_sync _).1 h

/-! ### Environments -/

def Frame.Within (f : Frame) (cells : CellId → Prop) : Prop :=
  ∀ entry ∈ f.entries, entry.2.Within cells

def Env.Within (env : Env) (cells : CellId → Prop) : Prop :=
  ∀ f ∈ env.frames, f.Within cells

namespace Frame

theorem Within.insert {f : Frame} {name : Name} {v : Value} (h : f.Within cells)
    (hv : v.Within cells) : (f.insert name v).Within cells :=
  Holds.insert (P := (·.Within cells)) h hv

theorem within_ofList {bindings : List (Name × Value)}
    (h : ∀ binding ∈ bindings, binding.2.Within cells) : (ofList bindings).Within cells :=
  holds_ofList (P := (·.Within cells)) h

theorem Within.get? {f : Frame} {name : Name} {v : Value} (h : f.Within cells)
    (hv : f.get? name = some v) : v.Within cells :=
  Holds.get? (P := (·.Within cells)) h hv

end Frame

namespace Env

theorem Within.mono {env : Env} (h : env.Within cells) (hle : ∀ x, cells x → cells' x) :
    env.Within cells' :=
  Holds.mono (P := (·.Within cells)) h fun _ hv => hv.mono hle

theorem Within.extend {env : Env} {f : Frame} (h : env.Within cells) (hf : f.Within cells) :
    (env.extend f).Within cells :=
  Holds.extend (P := (·.Within cells)) h hf

theorem Within.bind {env : Env} {name : Name} {v : Value} (h : env.Within cells)
    (hv : v.Within cells) : (env.bind name v).Within cells :=
  Holds.bind (P := (·.Within cells)) h hv

theorem Within.lookup {env : Env} {name : Name} {v : Value} (h : env.Within cells)
    (hv : env.lookup name = some v) : v.Within cells :=
  Holds.lookup (P := (·.Within cells)) h hv

end Env

end

end ForkJoin

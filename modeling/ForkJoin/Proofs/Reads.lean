import ForkJoin.Proofs.Confined

/-!
# The names that can be read

An evaluation looks up a name where it comes to a variable. The variables that it can come to stand
in its expression, in the bodies of the functions that it applies, and in what is spawned there; the
functions it finds in literals, in vectors, in its environment and in cells. `Expr.Reads` and
`Value.Reads` say which names these are, by the parts that operations find. So they are the same for
trees of the language and for data from outside, and what an operation makes of values reads no
other names than they do.

A name that is only bound, as a parameter or by a `let`, is not read.
-/

namespace ForkJoin

def Node.HasPart (node : Node) (part : Expr) : Prop :=
  match node with
  | .lit _ | .var _ | .unknown _ => False
  | .app callee args => callee = .ok part ∨ ∃ found, args = .ok found ∧ part ∈ found.items
  | .letIn _ value body => value = .ok part ∨ body = .ok part
  | .cond test yes no => test = .ok part ∨ yes = .ok part ∨ no = .ok part
  | .spawn body | .sync body => body = .ok part

def Value.HasElement (v w : Value) : Prop :=
  match v with
  | .vec items => w ∈ items
  | v => v.hasType "Vector" ∧ ∃ payload wanted ds item, v.payload = .ok payload ∧
      payload.positions wanted = .ok ds ∧ item ∈ ds ∧ w = .foreign item

/-! ### Names -/

mutual

/-- The names of the variables that an evaluation of an expression can come to. -/
inductive Expr.Reads (name : Name) : Expr → Prop
  | var {e : Expr} {d : Datum} (hnode : e.node = .ok (.var (.ok d)))
      (hname : Name.ofDatum d = .ok name) : Expr.Reads name e
  | lit {e : Expr} {v : Value} (hnode : e.node = .ok (.lit (.ok v))) (h : Value.Reads name v) :
      Expr.Reads name e
  | part {e part : Expr} {node : Node} (hnode : e.node = .ok node) (hpart : node.HasPart part)
      (h : Expr.Reads name part) : Expr.Reads name e

/-- The names of the variables in the bodies of the functions that a value is or has among its
elements. -/
inductive Value.Reads (name : Name) : Value → Prop
  | body {v : Value} {f : Procedure} {body : Expr} (htype : v.hasType "Function")
      (hf : v.procedure = .ok f) (hbody : f.body = .ok body) (h : Expr.Reads name body) :
      Value.Reads name v
  | element {v w : Value} (hw : v.HasElement w) (h : Value.Reads name w) : Value.Reads name v

end

variable {names : Name → Prop}

def Expr.ReadsOnly (e : Expr) (names : Name → Prop) : Prop :=
  ∀ name, Expr.Reads name e → names name

def Value.ReadsOnly (v : Value) (names : Name → Prop) : Prop :=
  ∀ name, Value.Reads name v → names name

def Node.ReadsOnly (node : Node) (names : Name → Prop) : Prop :=
  match node with
  | .lit value => ∀ v, value = .ok v → v.ReadsOnly names
  | .var name => ∀ d key, name = .ok d → Name.ofDatum d = .ok key → names key
  | node => ∀ part, node.HasPart part → part.ReadsOnly names

theorem Expr.readsOnly_iff_node {e : Expr} {node : Node} (hnode : e.node = .ok node) :
    e.ReadsOnly names ↔ node.ReadsOnly names := by
  have hparts : (∀ v, node ≠ .lit v) → (∀ d, node ≠ .var d) →
      (e.ReadsOnly names ↔ ∀ part, node.HasPart part → part.ReadsOnly names) := by
    intro hlit hvar
    refine ⟨fun h part hpart name hname => h name (.part hnode hpart hname), fun h name hname => ?_⟩
    cases hname with
    | var hnode' => exact absurd (Except.ok.inj (hnode.symm.trans hnode')) (hvar _)
    | lit hnode' => exact absurd (Except.ok.inj (hnode.symm.trans hnode')) (hlit _)
    | part hnode' hpart hname =>
      cases hnode.symm.trans hnode'
      exact h _ hpart name hname
  cases node with
  | lit value =>
    refine ⟨fun h v hv name hname => h name (.lit (hv ▸ hnode) hname), fun h name hname => ?_⟩
    cases hname with
    | var hnode' => cases hnode.symm.trans hnode'
    | lit hnode' hname =>
      cases hnode.symm.trans hnode'
      exact h _ rfl name hname
    | part hnode' hpart =>
      cases hnode.symm.trans hnode'
      exact hpart.elim
  | var d =>
    refine ⟨fun h d' key hd hkey => h key (.var (hd ▸ hnode) hkey), fun h name hname => ?_⟩
    cases hname with
    | var hnode' hname =>
      cases hnode.symm.trans hnode'
      exact h _ name rfl hname
    | lit hnode' => cases hnode.symm.trans hnode'
    | part hnode' hpart =>
      cases hnode.symm.trans hnode'
      exact hpart.elim
  | app | letIn | cond | spawn | sync | unknown => exact hparts nofun nofun

namespace Expr

@[simp] theorem readsOnly_lit (v : Value) : (lit v).ReadsOnly names ↔ v.ReadsOnly names := by
  rw [readsOnly_iff_node rfl]
  simp [Node.ReadsOnly]

@[simp] theorem readsOnly_var (name : String) :
    (var name).ReadsOnly names ↔ names (.text name) := by
  rw [readsOnly_iff_node rfl]
  refine ⟨fun h => h (.text name) (.text name) rfl rfl, fun h d key hd hkey => ?_⟩
  cases hd
  cases hkey
  exact h

@[simp] theorem readsOnly_app (callee : Expr) (args : List Expr) :
    (app callee args).ReadsOnly names ↔
      callee.ReadsOnly names ∧ ∀ arg ∈ args, arg.ReadsOnly names := by
  rw [readsOnly_iff_node rfl]
  simp [Node.ReadsOnly, Node.HasPart, Args.items, or_imp, forall_and]

@[simp] theorem readsOnly_letIn (name : String) (value body : Expr) :
    (letIn name value body).ReadsOnly names ↔ value.ReadsOnly names ∧ body.ReadsOnly names := by
  rw [readsOnly_iff_node rfl]
  simp [Node.ReadsOnly, Node.HasPart, or_imp, forall_and]

@[simp] theorem readsOnly_cond (test yes no : Expr) :
    (cond test yes no).ReadsOnly names ↔
      test.ReadsOnly names ∧ yes.ReadsOnly names ∧ no.ReadsOnly names := by
  rw [readsOnly_iff_node rfl]
  simp [Node.ReadsOnly, Node.HasPart, or_imp, forall_and]

@[simp] theorem readsOnly_spawn (body : Expr) :
    (spawn body).ReadsOnly names ↔ body.ReadsOnly names := by
  rw [readsOnly_iff_node rfl]
  simp [Node.ReadsOnly, Node.HasPart]

@[simp] theorem readsOnly_sync (body : Expr) :
    (sync body).ReadsOnly names ↔ body.ReadsOnly names := by
  rw [readsOnly_iff_node rfl]
  simp [Node.ReadsOnly, Node.HasPart]

end Expr

namespace Value

theorem readsOnly_of_type {v : Value} (hfunction : v.hasType "Function" = false)
    (hvector : v.hasType "Vector" = false) : v.ReadsOnly names := by
  intro name hname
  cases hname with
  | body htype =>
    rw [hfunction] at htype
    cases htype
  | element hw =>
    unfold HasElement at hw
    split at hw
    · cases hvector
    · rw [hvector] at hw
      cases hw.1

@[simp] theorem readsOnly_int (n : Int) : (int n).ReadsOnly names :=
  readsOnly_of_type rfl rfl

@[simp] theorem readsOnly_bool (b : Bool) : (bool b).ReadsOnly names :=
  readsOnly_of_type rfl rfl

@[simp] theorem readsOnly_future (x : CellId) : (future x).ReadsOnly names :=
  readsOnly_of_type rfl rfl

@[simp] theorem readsOnly_vec (items : List Value) :
    (vec items).ReadsOnly names ↔ ∀ v ∈ items, v.ReadsOnly names := by
  refine ⟨fun h v hv name hname => h name (.element (v := vec items) hv hname),
    fun h name hname => ?_⟩
  cases hname with
  | body htype => cases htype
  | element hw hname => exact h _ hw name hname

@[simp] theorem readsOnly_fn (name : Option String) (params : List String) (body : Expr) :
    (fn name params body).ReadsOnly names ↔ body.ReadsOnly names := by
  refine ⟨fun h key hkey => h key (.body rfl rfl rfl hkey), fun h key hkey => ?_⟩
  cases hkey with
  | body _ hf hbody hkey =>
    cases hf
    cases hbody
    exact h key hkey
  | element hw => cases hw.1

/-! ### Operations -/

theorem ReadsOnly.procedure {v : Value} {f : Procedure} {body : Expr} (h : v.ReadsOnly names)
    (htype : v.hasType "Function") (hf : v.procedure = .ok f) (hbody : f.body = .ok body) :
    body.ReadsOnly names :=
  fun name hname => h name (.body htype hf hbody hname)

theorem ReadsOnly.element {v w : Value} (h : v.ReadsOnly names) (hw : v.HasElement w) :
    w.ReadsOnly names :=
  fun name hname => h name (.element hw hname)

theorem hasElement_foreign {d payload item : Datum} {wanted : Datum → Fault} {items : List Datum}
    (hd : (foreign d).hasType "Vector") (hpayload : (foreign d).payload = .ok payload)
    (hitems : payload.positions wanted = .ok items) (hitem : item ∈ items) :
    (foreign d).HasElement (.foreign item) :=
  ⟨hd, payload, wanted, items, item, hpayload, hitems, hitem, rfl⟩

theorem hasElement_of_head {v w : Value} (hv : v.hasType "Vector") (hw : v.head = .ok w) :
    v.HasElement w := by
  cases v with
  | int | bool | fn | future => cases hv
  | vec items =>
    cases items with
    | nil => cases hw
    | cons first items =>
      cases hw
      exact List.mem_cons_self ..
  | foreign d =>
    obtain ⟨payload, hpayload, hw⟩ := ok_of_bind hw
    obtain ⟨item, hfirst, hw⟩ := ok_of_bind hw
    obtain ⟨items, hitems, hfirst⟩ := ok_of_bind hfirst
    cases hw
    cases items with
    | nil => cases hfirst
    | cons first items =>
      cases hfirst
      exact hasElement_foreign hv hpayload hitems (List.mem_cons_self ..)

theorem ReadsOnly.tail {v w : Value} (h : v.ReadsOnly names) (hv : v.hasType "Vector")
    (hw : v.tail = .ok w) : w.ReadsOnly names := by
  cases v with
  | int | bool | fn | future => cases hv
  | vec items =>
    cases hw
    rw [readsOnly_vec] at h ⊢
    exact fun u hu => h u (List.mem_of_mem_tail hu)
  | foreign d =>
    obtain ⟨payload, hpayload, hw⟩ := ok_of_bind hw
    obtain ⟨rest, hrest, hw⟩ := ok_of_bind hw
    obtain ⟨items, hitems, hrest⟩ := ok_of_bind hrest
    cases hw
    cases hrest
    rw [readsOnly_vec]
    intro u hu
    obtain ⟨item, hitem, rfl⟩ := List.mem_map.1 hu
    exact h.element (hasElement_foreign hv hpayload hitems (List.mem_of_mem_tail hitem))

theorem ReadsOnly.pushFront {vector first v : Value} (h : vector.ReadsOnly names)
    (hfirst : first.ReadsOnly names) (hvector : vector.hasType "Vector")
    (hv : vector.pushFront first = .ok v) : v.ReadsOnly names := by
  cases vector with
  | int | bool | fn | future => cases hvector
  | vec items =>
    cases hv
    rw [readsOnly_vec] at h ⊢
    exact List.forall_mem_cons.2 ⟨hfirst, h⟩
  | foreign d =>
    obtain ⟨payload, hpayload, hv⟩ := ok_of_bind hv
    split at hv
    case h_1 items =>
      have hitems : (Datum.tuple items).positions (fun _ => .outOfRange) = .ok items := rfl
      cases hv
      rw [readsOnly_vec]
      refine List.forall_mem_cons.2 ⟨hfirst, fun u hu => ?_⟩
      obtain ⟨item, hitem, rfl⟩ := List.mem_map.1 hu
      exact h.element (hasElement_foreign hvector hpayload hitems hitem)
    case h_2 => cases hv

/-- Numbers read nothing, whatever they are made of. -/
theorem readsOnly_make_integer (d : Datum) : (make "Integer" d).ReadsOnly names := by
  unfold make
  split
  · exact readsOnly_int _
  · exact readsOnly_bool _
  · exact readsOnly_of_type rfl rfl

end Value

end ForkJoin

import ForkJoin.Proofs.Confined
import ForkJoin.Proofs.Run.Invariant

/-!
# What an evaluation does to its environment

Frames are pushed in two places: by a call, for the parameters, and by a `let`. What a call pushes
is dropped when its body ends, and so is what the body pushed; what a task pushes stays in the task.
So the environment that an evaluation ends with is the one that it began with under the frames of
those `let`s that stand in the expression itself. With scoped bindings they are dropped as well.

How an evaluation ends depends on the names that its tasks get and on what it finds in cells.
`Prog.Returns` leaves both open: a program returns what it ends with for some names and some values.
Whatever the main thread has ended with in a run, its program returns.

The induction over the limit that this comes from needs no case for scoped bindings:
`Expr.Leaves` says which bindings an expression can leave behind, and there it says none.
-/

namespace ForkJoin

namespace Prog

variable {ω α β : Type}

/-- Whether a program can end with a result, for some names of its tasks and some values in the
cells that it waits for. -/
def Returns : Prog ω α → α → Prop
  | .done a, b => a = b
  | .fail _, _ => False
  | .emit _ rest, b => rest.Returns b
  | .spawn _ rest, b => ∃ id, (rest id).Returns b
  | .claim _ rest, b => rest.Returns b
  | .await _ rest, b => ∃ v, (rest v).Returns b

theorem returns_bind {p : Prog ω α} {f : α → Prog ω β} {b : β} :
    (p >>= f).Returns b ↔ ∃ a, p.Returns a ∧ (f a).Returns b := by
  change (p.bind f).Returns b ↔ _
  induction p with
  | done a => simp [bind, Returns]
  | fail e => simp [bind, Returns]
  | emit line rest ih | claim cell rest ih => simpa [bind, Returns] using ih
  | spawn work rest ih | await cell rest ih =>
    simp only [bind, Returns, ih]
    constructor
    · rintro ⟨x, a, ha, hb⟩
      exact ⟨a, ⟨x, ha⟩, hb⟩
    · rintro ⟨a, ⟨x, ha⟩, hb⟩
      exact ⟨x, a, ha, hb⟩

@[simp] theorem returns_done {a b : α} : (done a : Prog ω α).Returns b ↔ a = b := Iff.rfl

@[simp] theorem not_returns_fail {e : Failure} {b : α} : ¬ (fail e : Prog ω α).Returns b := id

@[simp] theorem not_returns_raise {e : LanguageError} {b : α} :
    ¬ (raise e : Prog ω α).Returns b := id

@[simp] theorem not_returns_abort {f : Fault} {b : α} : ¬ (abort f : Prog ω α).Returns b := id

@[simp] theorem returns_ofPart {x : Except Fault α} {a : α} :
    (ofPart x : Prog ω α).Returns a ↔ x = .ok a := by
  cases x <;> simp [ofPart]

@[simp] theorem returns_ofExcept {x : Except Failure α} {a : α} :
    (ofExcept x : Prog ω α).Returns a ↔ x = .ok a := by
  cases x <;> simp [ofExcept]

theorem returns_trace_bind {ctx : Context} {message : String} {f : Unit → Prog ω α} {a : α} :
    (ctx.trace message >>= f).Returns a ↔ (f ()).Returns a := by
  unfold Context.trace
  split <;> rfl

theorem returns_of_resume {cell : CellId} {rest : Value → Prog ω α} {o : Outcome} {a : α}
    (h : (resume rest o).Returns a) : (await cell rest : Prog ω α).Returns a := by
  cases o with
  | ok v => exact ⟨v, h⟩
  | error e => cases h

end Prog

theorem Thread.Moves.returns {stack : Stack} {cell : CellId → Option Cell} {id : ThreadId}
    {t : Thread} {m : Move} {r : Result} (hm : t.Moves stack cell id m)
    (h : m.thread.rest.Returns r) : t.rest.Returns r := by
  cases hm with
  | print hrest | take hrest =>
    rw [hrest]
    exact h
  | spawn hrest =>
    rw [hrest]
    exact ⟨_, h⟩
  | refuse => cases h
  | receive hrest =>
    rw [hrest]
    exact Prog.returns_of_resume h
  | deliver | late | lost => simpa using h

theorem Prog.returns_of_ended? {ω α : Type} {p : Prog ω α} {a : α}
    (h : p.ended? = some (.ok a)) : p.Returns a := by
  cases p with
  | done b =>
    cases h
    rfl
  | fail | emit | spawn | claim | await => cases h

namespace System

variable {stack : Stack} {s s' : System} {id : ThreadId} {t : Thread} {r : Result}

theorem exists_main_of_step (ht : s.thread .main = some t) (hstep : s.step stack id = some s') :
    ∃ t', s'.thread .main = some t' ∧ ∀ r, t'.rest.Returns r → t.rest.Returns r := by
  obtain ⟨u, m, hu, hm, rfl⟩ := step_eq_some_iff.1 hstep
  by_cases hid : id = .main
  · subst hid
    cases ht.symm.trans hu
    exact ⟨m.thread, after_thread_self, fun r h => hm.returns h⟩
  · have hstarted : m.started? .main = none := hm.started?_eq_none nofun
    exact ⟨t, by simp [after, Ne.symm hid, hstarted, ht], fun r h => h⟩

/-- What the main thread has ended with after a run, its program returns. -/
theorem returns_of_run {ids : List ThreadId} (ht : s.thread .main = some t)
    (hrun : s.run stack ids = some s') (hended : s'.ended? .main = some (.ok r)) :
    t.rest.Returns r := by
  induction ids generalizing s t with
  | nil =>
    cases hrun
    rw [ended?, ht] at hended
    exact Prog.returns_of_ended? hended
  | cons id ids ih =>
    obtain ⟨next, hstep, hrest⟩ := run_cons_eq_some_iff.1 hrun
    obtain ⟨t', ht', hreturns⟩ := exists_main_of_step ht hstep
    exact hreturns r (ih ht' hrest)

end System

/-! ### Environments that grow -/

theorem Env.get?_bind (env : Env) (name other : Name) (v : Value) :
    (env.bind name v).get? other = if other.key = name.key then some v else env.get? other := by
  rw [Env.bind, get?_extend, Frame.get?_single]
  split <;> rfl

/-- An environment with frames for single names pushed on top, each for a binding of a kind. -/
inductive Env.Grows (kind : Name → Value → Prop) (env : Env) : Env → Prop
  | refl : Grows kind env env
  | bind {env' : Env} {name : Name} {value : Value} (h : Grows kind env env')
      (hkind : kind name value) : Grows kind env (env'.bind name value)

namespace Env.Grows

variable {kind more : Name → Value → Prop} {env env' env'' : Env}

theorem trans (h : env.Grows kind env') (h' : env'.Grows kind env'') : env.Grows kind env'' := by
  induction h' with
  | refl => exact h
  | bind _ hkind ih => exact ih.bind hkind

theorem mono (h : env.Grows kind env') (hle : ∀ name value, kind name value → more name value) :
    env.Grows more env' := by
  induction h with
  | refl => exact .refl
  | bind _ hkind ih => exact ih.bind (hle _ _ hkind)

theorem eq_of_none (h : env.Grows kind env') (hnone : ∀ name value, ¬ kind name value) :
    env' = env := by
  cases h with
  | refl => rfl
  | bind _ hkind => exact absurd hkind (hnone _ _)

theorem exists_frames (h : env.Grows kind env') : ∃ bindings : List (Name × Value),
    env'.frames = bindings.map (fun binding => .single binding.1 binding.2) ++ env.frames ∧
      ∀ binding ∈ bindings, kind binding.1 binding.2 := by
  induction h with
  | refl => exact ⟨[], rfl, nofun⟩
  | @bind _ name value _ hkind ih =>
    obtain ⟨bindings, hframes, hbindings⟩ := ih
    refine ⟨(name, value) :: bindings, ?_, List.forall_mem_cons.2 ⟨hkind, hbindings⟩⟩
    simp [Env.bind, Env.extend, hframes]

theorem get?_eq (h : env.Grows kind env') {name : Name}
    (hname : ∀ bound value, kind bound value → bound.key ≠ name.key) :
    env'.get? name = env.get? name := by
  induction h with
  | refl => rfl
  | bind _ hkind ih =>
    rw [Env.bind, get?_extend, Frame.get?_single, if_neg (Ne.symm (hname _ _ hkind)), ih]
    rfl

theorem lookup_eq (h : env.Grows kind env') {name : Name}
    (hname : ∀ bound value, kind bound value → bound.key ≠ name.key) :
    env'.lookup name = env.lookup name := by
  unfold lookup
  rw [h.get?_eq hname]

end Env.Grows

/-- A part of a node that is evaluated where the node is; what a node spawns is not. -/
inductive Node.Operand : Node → Expr → Prop
  | callee {callee : Expr} {args : Except Fault Args} : Operand (.app (.ok callee) args) callee
  | argument {callee : Except Fault Expr} {args : Args} {arg : Expr} (h : arg ∈ args.items) :
      Operand (.app callee (.ok args)) arg
  | bound {name : Except Fault Datum} {value : Expr} {body : Except Fault Expr} :
      Operand (.letIn name (.ok value) body) value
  | body {name : Except Fault Datum} {value : Except Fault Expr} {body : Expr} :
      Operand (.letIn name value (.ok body)) body
  | test {test : Expr} {yes no : Except Fault Expr} : Operand (.cond (.ok test) yes no) test
  | yes {test no : Except Fault Expr} {yes : Expr} : Operand (.cond test (.ok yes) no) yes
  | no {test yes : Except Fault Expr} {no : Expr} : Operand (.cond test yes (.ok no)) no
  | awaited {body : Expr} : Operand (.sync (.ok body)) body

/-- A `let` of a name and an expression occurs in an expression, outside everything it spawns. -/
inductive Expr.Lets (name : Name) : Expr → Expr → Prop
  | here {e value : Expr} {written : Datum} {body : Except Fault Expr}
      (hnode : e.node = .ok (.letIn (.ok written) (.ok value) body))
      (hname : Name.ofDatum written = .ok name) : Lets name e value
  | inside {e part value : Expr} {node : Node} (hnode : e.node = .ok node)
      (hpart : node.Operand part) (h : Lets name part value) : Lets name e value

/-- A value that an expression can have in a context. -/
def Expr.Yields (ctx : Context) (e : Expr) (v : Value) : Prop :=
  ∃ limit room env r, (eval limit room ctx env e).Returns r ∧ r.value = v

/-- A binding that an expression can leave behind: the name of one of its `let`s with a value of
what this binds, unless bindings are scoped. -/
def Expr.Leaves (ctx : Context) (e : Expr) (name : Name) (v : Value) : Prop :=
  ctx.scopedLet = false ∧ ∃ value, e.Lets name value ∧ value.Yields ctx v

theorem Expr.Leaves.inside {ctx : Context} {e part : Expr} {node : Node} {name : Name} {v : Value}
    (hnode : e.node = .ok node) (hpart : node.Operand part) (h : part.Leaves ctx name v) :
    e.Leaves ctx name v := by
  obtain ⟨hscoped, value, hlets, hvalue⟩ := h
  exact ⟨hscoped, value, hlets.inside hnode hpart, hvalue⟩

/-! ### The evaluator -/

structure Evaluator.Framed (ev : Evaluator) : Prop where
  yields {room : Room} {ctx : Context} {env : Env} {e : Expr} {r : Result}
    (h : (ev room ctx env e).Returns r) : e.Yields ctx r.value
  grows {room : Room} {ctx : Context} {env : Env} {e : Expr} {r : Result}
    (h : (ev room ctx env e).Returns r) : env.Grows (e.Leaves ctx) r.env

section Evaluator

variable {ev : Evaluator} {room : Room} {ctx : Context} {env : Env} {kind : Name → Value → Prop}
  {r : Result}

theorem returns_evalPart {e : Except Fault Expr} (h : (evalPart ev room ctx env e).Returns r) :
    ∃ part, e = .ok part ∧ (ev room ctx env part).Returns r := by
  obtain ⟨part, hpart, h⟩ := Prog.returns_bind.1 h
  exact ⟨part, Prog.returns_ofPart.1 hpart, h⟩

theorem grows_evalArgs (hev : ev.Framed) {args : List Expr} {values : List Value × Env}
    (hargs : ∀ arg ∈ args, ∀ name v, arg.Leaves ctx name v → kind name v)
    (h : (evalArgs ev room ctx env args).Returns values) : env.Grows kind values.2 := by
  induction args generalizing env values with
  | nil =>
    cases h
    exact .refl
  | cons arg args ih =>
    obtain ⟨hfirst, hrest⟩ := List.forall_mem_cons.1 hargs
    obtain ⟨first, hvalue, h⟩ := Prog.returns_bind.1 h
    obtain ⟨rest, hvalues, h⟩ := Prog.returns_bind.1 h
    have henv : env.Grows kind rest.2 := ((hev.grows hvalue).mono hfirst).trans (ih hrest hvalues)
    cases h
    exact henv

theorem grows_prepareCall (hev : ev.Framed) {f : Procedure} {args : Args} {call : Call}
    (hargs : ∀ arg ∈ args.items, ∀ name v, arg.Leaves ctx name v → kind name v)
    (h : (prepareCall ev room ctx env f args).Returns call) : env.Grows kind call.callerEnv := by
  obtain ⟨name, -, h⟩ := Prog.returns_bind.1 h
  obtain ⟨arity, -, h⟩ := Prog.returns_bind.1 h
  obtain ⟨got, -, h⟩ := Prog.returns_bind.1 h
  split at h
  · cases h
  · obtain ⟨values, hvalues, h⟩ := Prog.returns_bind.1 h
    obtain ⟨params, -, h⟩ := Prog.returns_bind.1 h
    cases h
    exact grows_evalArgs hev hargs hvalues

theorem grows_applyFunction (hev : ev.Framed) {f : Procedure} {args : Args}
    (hargs : ∀ arg ∈ args.items, ∀ name v, arg.Leaves ctx name v → kind name v)
    (h : (applyFunction ev room ctx env f args).Returns r) : env.Grows kind r.env := by
  obtain ⟨call, hcall, h⟩ := Prog.returns_bind.1 h
  obtain ⟨result, -, h⟩ := Prog.returns_bind.1 (Prog.returns_trace_bind.1 h)
  cases h
  exact grows_prepareCall hev hargs hcall

theorem grows_unary (hev : ev.Framed) {x : Expr} {f : Value → Except Failure Value}
    (hx : ∀ name v, x.Leaves ctx name v → kind name v)
    (h : (applyBuiltin.unary ev room ctx env x f).Returns r) : env.Grows kind r.env := by
  obtain ⟨first, hfirst, h⟩ := Prog.returns_bind.1 h
  obtain ⟨v, -, h⟩ := Prog.returns_bind.1 h
  cases h
  exact (hev.grows hfirst).mono hx

theorem grows_binary (hev : ev.Framed) {x y : Expr} {f : Value → Value → Except Failure Value}
    (hx : ∀ name v, x.Leaves ctx name v → kind name v)
    (hy : ∀ name v, y.Leaves ctx name v → kind name v)
    (h : (applyBuiltin.binary ev room ctx env x y f).Returns r) : env.Grows kind r.env := by
  obtain ⟨first, hfirst, h⟩ := Prog.returns_bind.1 h
  obtain ⟨second, hsecond, h⟩ := Prog.returns_bind.1 h
  obtain ⟨v, -, h⟩ := Prog.returns_bind.1 h
  cases h
  exact ((hev.grows hfirst).mono hx).trans ((hev.grows hsecond).mono hy)

theorem grows_applyBuiltin (hev : ev.Framed) {b : Builtin} {args : List Expr}
    (hargs : ∀ arg ∈ args, ∀ name v, arg.Leaves ctx name v → kind name v)
    (h : (applyBuiltin ev room ctx env b args).Returns r) : env.Grows kind r.env := by
  unfold applyBuiltin at h
  split at h
  case h_1 x y | h_2 x y | h_3 x y | h_4 x y =>
    simp only [List.forall_mem_cons] at hargs
    exact grows_binary hev hargs.1 hargs.2.1 h
  case h_5 test yes no =>
    simp only [List.forall_mem_cons] at hargs
    obtain ⟨htest, hyes, hno, -⟩ := hargs
    obtain ⟨first, hfirst, h⟩ := Prog.returns_bind.1 h
    obtain ⟨b, -, h⟩ := Prog.returns_bind.1 h
    refine ((hev.grows hfirst).mono htest).trans ((hev.grows h).mono ?_)
    split
    · exact hyes
    · exact hno
  case h_6 x | h_7 x =>
    simp only [List.forall_mem_cons] at hargs
    exact grows_unary hev hargs.1 h
  case h_8 => cases h

theorem grows_callBuiltin (hev : ev.Framed) {b : Builtin} {args : Args}
    (hargs : ∀ arg ∈ args.items, ∀ name v, arg.Leaves ctx name v → kind name v)
    (h : (callBuiltin ev room ctx env b args).Returns r) : env.Grows kind r.env := by
  unfold callBuiltin at h
  split at h
  · exact grows_applyBuiltin hev hargs h
  · obtain ⟨got, -, h⟩ := Prog.returns_bind.1 h
    split at h
    · cases h
    · exact grows_applyBuiltin hev hargs h

theorem grows_apply (hev : ev.Framed) {f : Procedure} {args : Args}
    (hargs : ∀ arg ∈ args.items, ∀ name v, arg.Leaves ctx name v → kind name v)
    (h : (apply ev room ctx env f args).Returns r) : env.Grows kind r.env := by
  obtain ⟨name, -, h⟩ := Prog.returns_bind.1 h
  obtain ⟨b, -, h⟩ := Prog.returns_bind.1 h
  cases b with
  | some b => exact grows_callBuiltin hev hargs (Prog.returns_trace_bind.1 h)
  | none => exact grows_applyFunction hev hargs h

/-- A node grows the environment by what its parts leave behind and, if it is a `let`, by its own
binding. -/
theorem grows_evalNode (hev : ev.Framed) {e : Expr}
    (h : (evalNode ev room ctx env e).Returns r) : env.Grows (e.Leaves ctx) r.env := by
  obtain ⟨node, hnode, h⟩ := Prog.returns_bind.1 h
  rw [Prog.returns_ofPart] at hnode
  rw [Prog.returns_trace_bind] at h
  have hpart : ∀ {part : Expr} {env env' : Env}, node.Operand part →
      env.Grows (part.Leaves ctx) env' → env.Grows (e.Leaves ctx) env' :=
    fun hoperand hgrows => hgrows.mono fun _ _ hleaves => hleaves.inside hnode hoperand
  cases node with
  | lit value =>
    obtain ⟨v, -, h⟩ := Prog.returns_bind.1 h
    cases h
    exact .refl
  | var name =>
    obtain ⟨name, -, h⟩ := Prog.returns_bind.1 h
    obtain ⟨key, -, h⟩ := Prog.returns_bind.1 h
    split at h
    · cases h
      exact .refl
    · cases h
  | app callee args =>
    obtain ⟨f, hf, h⟩ := Prog.returns_bind.1 h
    obtain ⟨part, hcallee, hf⟩ := returns_evalPart hf
    split at h
    · obtain ⟨procedure, -, h⟩ := Prog.returns_bind.1 h
      obtain ⟨found, hfound, hcall⟩ := Prog.returns_bind.1 h
      rw [Prog.returns_ofPart] at hfound
      subst hcallee hfound
      refine (hpart .callee (hev.grows hf)).trans (grows_apply hev ?_ hcall)
      exact fun arg harg name v hleaves => hleaves.inside hnode (.argument harg)
    · cases h
  | letIn name value body =>
    obtain ⟨bound, hbound, h⟩ := Prog.returns_bind.1 h
    obtain ⟨part, hvalue, hbound⟩ := returns_evalPart hbound
    obtain ⟨written, hwritten, h⟩ := Prog.returns_bind.1 h
    obtain ⟨key, hkey, h⟩ := Prog.returns_bind.1 h
    rw [Prog.returns_ofPart] at hwritten hkey
    obtain ⟨result, hresult, h⟩ := Prog.returns_bind.1 h
    obtain ⟨rest, hbody, hresult⟩ := returns_evalPart hresult
    cases h
    subst hvalue hwritten hbody
    have hbefore := hpart .bound (hev.grows hbound)
    by_cases hscoped : ctx.scopedLet = true
    · rw [if_pos hscoped]
      exact hbefore
    · have hbind : e.Leaves ctx key bound.value :=
        ⟨eq_false_of_ne_true hscoped, part, .here hnode hkey, hev.yields hbound⟩
      rw [if_neg hscoped]
      exact (hbefore.bind hbind).trans (hpart .body (hev.grows hresult))
  | cond test yes no =>
    obtain ⟨first, hfirst, h⟩ := Prog.returns_bind.1 h
    obtain ⟨part, htest, hfirst⟩ := returns_evalPart hfirst
    obtain ⟨b, -, h⟩ := Prog.returns_bind.1 h
    obtain ⟨branch, hbranch, hrest⟩ := returns_evalPart h
    subst htest
    refine (hpart .test (hev.grows hfirst)).trans ?_
    split at hbranch
    · subst hbranch
      exact hpart .yes (hev.grows hrest)
    · subst hbranch
      exact hpart .no (hev.grows hrest)
  | spawn body =>
    obtain ⟨part, -, h⟩ := Prog.returns_bind.1 h
    obtain ⟨id, -, h⟩ := Prog.returns_bind.1 h
    dsimp only at h
    split at h <;>
      · cases h
        exact .refl
  | sync body =>
    obtain ⟨first, hfirst, h⟩ := Prog.returns_bind.1 h
    obtain ⟨part, hbody, hawaited⟩ := returns_evalPart hfirst
    obtain ⟨v, -, hlast⟩ := Prog.returns_bind.1 h
    subst hbody
    have hafter := hpart .awaited (hev.grows hawaited)
    cases hlast
    exact hafter
  | unknown type => cases h

theorem framed_eval (limit : Nat) : (eval limit).Framed := by
  refine ⟨fun h => ⟨limit, _, _, _, h, rfl⟩, fun {room ctx env e r} h => ?_⟩
  induction limit generalizing room ctx env e r with
  | zero => cases h
  | succ limit ih =>
    unfold eval at h
    split at h
    · exact grows_evalNode ⟨fun h => ⟨limit, _, _, _, h, rfl⟩, ih⟩ h
    · cases h

end Evaluator

/-- What a successful evaluation does to its environment. With scoped bindings it hands it back as
it was. Otherwise it pushes frames of one binding each, for `let`s of the expression itself that do
not stand in what it spawns, with values of what these bind. So a name that no such `let` binds is
looked up as before. -/
theorem eval_environment (limit : Nat) (room : Room) (ctx : Context) (env : Env) (e : Expr)
    (r : Result) (h : (eval limit room ctx env e).Returns r) :
    (ctx.scopedLet = true → r.env = env) ∧
      (ctx.scopedLet = false → ∃ bindings : List (Name × Value),
        r.env.frames = bindings.map (fun binding => .single binding.1 binding.2) ++ env.frames ∧
          ∀ binding ∈ bindings,
            ∃ value, e.Lets binding.1 value ∧ value.Yields ctx binding.2) ∧
      ∀ name : Name, (∀ bound value, e.Lets bound value → bound.key ≠ name.key) →
        r.env.lookup name = env.lookup name := by
  have hgrows := (framed_eval limit).grows h
  refine ⟨fun hscoped => ?_, fun _ => ?_, fun name hname => ?_⟩
  · refine hgrows.eq_of_none fun _ _ hleaves => ?_
    rw [hleaves.1] at hscoped
    cases hscoped
  · obtain ⟨bindings, hframes, hbindings⟩ := hgrows.exists_frames
    exact ⟨bindings, hframes, fun binding hbinding => (hbindings binding hbinding).2⟩
  · refine hgrows.lookup_eq fun bound v hleaves => ?_
    obtain ⟨-, value, hlets, -⟩ := hleaves
    exact hname bound value hlets

/-- Where `x` is bound in the expression and `y` in a task that it waits for, `x` is pushed. -/
theorem eval_environment_sync_spawn :
    let task := Expr.spawn (.letIn "y" (.lit (.int 1)) (.var "y"))
    let e := Expr.letIn "x" (.sync task) (.var "x")
    let r : Result := ⟨.int 1, ⟨[.single "x" (.int 1)]⟩⟩
    (eval 3 none {} ⟨[]⟩ e).Returns r ∧
      (({} : Context).scopedLet = true → r.env = ⟨[]⟩) ∧
      (({} : Context).scopedLet = false → ∃ bindings : List (Name × Value),
        r.env.frames = bindings.map (fun binding => .single binding.1 binding.2) ++ [] ∧
          ∀ binding ∈ bindings,
            ∃ value, e.Lets binding.1 value ∧ value.Yields {} binding.2) ∧
      ∀ name : Name, (∀ bound value, e.Lets bound value → bound.key ≠ name.key) →
        r.env.lookup name = Env.lookup ⟨[]⟩ name := by
  intro task e r
  have h : (eval 3 none {} ⟨[]⟩ e).Returns r := ⟨.child .main 1, .int 1, rfl⟩
  exact ⟨h, eval_environment 3 none {} ⟨[]⟩ e r h⟩

end ForkJoin

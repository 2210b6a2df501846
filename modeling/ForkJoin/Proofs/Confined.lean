import ForkJoin.Eval
import ForkJoin.Proofs.Within.Value

/-!
# What an evaluation can get hold of

An evaluation starts with the cells that its expression and its environment mention. It gets hold of
more in two ways only: a spawn hands it the cell of the new task, and a cell that it waits for hands
it a value that may mention others. `Prog.Confined` says so of a program: every cell that it claims
or waits for, everything that it hands to a task and everything that it ends with is among the cells
that it has by then. What it is handed later on is not known beforehand, so after a spawn or a wait
the program is confined to any larger collection that has what was handed over.

`confines_eval` is the theorem. It is an induction over the limit, with one lemma for each function
of the evaluator.
-/

namespace ForkJoin

/-! ### Confined programs -/

def Work.Within (work : Work) (cells : CellId → Prop) : Prop :=
  work.expr.Within cells ∧ work.env.Within cells

def Result.Within (r : Result) (cells : CellId → Prop) : Prop :=
  r.value.Within cells ∧ r.env.Within cells

theorem Result.Within.mono {r : Result} {cells more : CellId → Prop} (h : r.Within cells)
    (hle : ∀ x, cells x → more x) : r.Within more :=
  ⟨h.1.mono hle, h.2.mono hle⟩

theorem Result.within_ofValue {v : Value} {cells : CellId → Prop} (h : v.Within cells) :
    (Result.ofValue v).Within cells :=
  ⟨h, nofun⟩

namespace Prog

variable {α β : Type} {kept : α → (CellId → Prop) → Prop} {kept' : β → (CellId → Prop) → Prop}
  {cells : CellId → Prop}

/-- A program that reaches the cells of a collection and those that it is handed, and that ends with
what is kept within these. -/
def Confined (kept : α → (CellId → Prop) → Prop) : Prog Work α → (CellId → Prop) → Prop
  | .done a, cells => kept a cells
  | .fail _, _ => True
  | .emit _ rest, cells => rest.Confined kept cells
  | .spawn work rest, cells => work.Within cells ∧
    ∀ id more, (∀ x, cells x → more x) → more (.task id) → (rest id).Confined kept more
  | .claim x rest, cells => cells x ∧ rest.Confined kept cells
  | .await x rest, cells => cells x ∧
    ∀ v more, (∀ x, cells x → more x) → v.Within more → (rest v).Confined kept more

theorem Confined.mono {p : Prog Work α} {more : CellId → Prop} (h : p.Confined kept cells)
    (hkept : ∀ a, kept a cells → kept a more) (hle : ∀ x, cells x → more x) :
    p.Confined kept more := by
  induction p with
  | done a => exact hkept a h
  | fail e => exact trivial
  | emit line rest ih => exact ih h
  | spawn work rest ih =>
    obtain ⟨⟨hexpr, henv⟩, hrest⟩ := h
    exact ⟨⟨hexpr.mono hle, henv.mono hle⟩,
      fun id cells' hle' hid => hrest id cells' (fun x hx => hle' x (hle x hx)) hid⟩
  | claim x rest ih => exact ⟨hle x h.1, ih h.2⟩
  | await x rest ih =>
    exact ⟨hle x h.1, fun v cells' hle' hv => h.2 v cells' (fun x hx => hle' x (hle x hx)) hv⟩

theorem Confined.bind {p : Prog Work α} {f : α → Prog Work β} (hp : p.Confined kept cells)
    (hf : ∀ a more, (∀ x, cells x → more x) → kept a more → (f a).Confined kept' more) :
    (p >>= f).Confined kept' cells := by
  change (p.bind f).Confined kept' cells
  induction p generalizing cells with
  | done a => exact hf a cells (fun x hx => hx) hp
  | fail e => exact trivial
  | emit line rest ih => exact ih hp hf
  | spawn work rest ih =>
    refine ⟨hp.1, fun id more hle hid => ih id (hp.2 id more hle hid) ?_⟩
    exact fun a more' hle' ha => hf a more' (fun x hx => hle' x (hle x hx)) ha
  | claim x rest ih => exact ⟨hp.1, ih hp.2 hf⟩
  | await x rest ih =>
    refine ⟨hp.1, fun v more hle hv => ih v (hp.2 v more hle hv) ?_⟩
    exact fun a more' hle' ha => hf a more' (fun x hx => hle' x (hle x hx)) ha

theorem confined_ofPart_bind {x : Except Fault α} {f : α → Prog Work β}
    (hf : ∀ a, x = .ok a → (f a).Confined kept' cells) :
    (ofPart x >>= f).Confined kept' cells := by
  cases x with
  | error e => exact trivial
  | ok a => exact hf a rfl

theorem confined_ofExcept_bind {x : Except Failure α} {f : α → Prog Work β}
    (hf : ∀ a, x = .ok a → (f a).Confined kept' cells) :
    (ofExcept x >>= f).Confined kept' cells := by
  cases x with
  | error e => exact trivial
  | ok a => exact hf a rfl

theorem confined_trace_bind {ctx : Context} {message : String} {f : Unit → Prog Work β}
    (hf : (f ()).Confined kept' cells) : (ctx.trace message >>= f).Confined kept' cells := by
  unfold Context.trace
  split <;> exact hf

end Prog

section Operations

variable {cells : CellId → Prop}

theorem ok_of_ofFault {α : Type} {x : Except Fault α} {a : α} (h : Failure.ofFault x = .ok a) :
    x = .ok a := by
  cases x with
  | error f => cases h
  | ok b =>
    cases h
    rfl

/-! What operations on values check and use, read off their results. -/

theorem of_expectType {function parameter expected : Datum} {v w : Value}
    (h : Failure.ofError (expectType function parameter expected v) = .ok w) :
    v.hasType expected ∧ w = v := by
  unfold expectType at h
  split at h
  case isTrue htype =>
    cases h
    exact ⟨htype, rfl⟩
  case isFalse => cases h

theorem of_arithmetic {op : Operation} {name : Datum} {x y v : Value}
    (h : arithmetic op name x y = .ok v) :
    x.hasType "Integer" ∧ y.hasType "Integer" ∧ ∃ m n d, x.payload = .ok m ∧
      y.payload = .ok n ∧ m.combine op n = .ok d ∧ v = .make "Integer" d := by
  obtain ⟨x', hx, hrest⟩ := ok_of_bind h
  obtain ⟨y', hy, hcompute⟩ := ok_of_bind hrest
  obtain ⟨hxtype, rfl⟩ := of_expectType hx
  obtain ⟨hytype, rfl⟩ := of_expectType hy
  obtain ⟨m, hm, hcompute⟩ := ok_of_bind (ok_of_ofFault hcompute)
  obtain ⟨n, hn, hcompute⟩ := ok_of_bind hcompute
  obtain ⟨d, hd, hcompute⟩ := ok_of_bind hcompute
  cases hcompute
  exact ⟨hxtype, hytype, m, n, d, hm, hn, hd, rfl⟩

theorem of_equal {room : Room} {v w u : Value}
    (h : Failure.ofFault (return .bool (← v.equal room w)) = .ok u) : ∃ b, u = .bool b := by
  obtain ⟨b, -, h⟩ := ok_of_bind (ok_of_ofFault h)
  cases h
  exact ⟨b, rfl⟩

theorem of_cons {v w u : Value}
    (h : (do Failure.ofFault ((← expectVector "cons" 2 w).pushFront v)) = .ok u) :
    w.hasType "Vector" ∧ w.pushFront v = .ok u := by
  obtain ⟨vector, hvector, hmade⟩ := ok_of_bind h
  obtain ⟨htype, rfl⟩ := of_expectType hvector
  exact ⟨htype, ok_of_ofFault hmade⟩

theorem of_nonEmpty {name : String} {f : Value → Except Fault Value} {v w : Value}
    (h : applyBuiltin.nonEmpty name f v = .ok w) : v.hasType "Vector" ∧ f v = .ok w := by
  obtain ⟨vector, hvector, hrest⟩ := ok_of_bind h
  obtain ⟨empty, -, hpart⟩ := ok_of_bind hrest
  obtain ⟨htype, rfl⟩ := of_expectType hvector
  split at hpart
  · cases hpart
  · exact ⟨htype, ok_of_ofFault hpart⟩

theorem confined_syncValue {v : Value} (h : v.Within cells) :
    (syncValue v : Prog Work Value).Confined Value.Within cells := by
  have htake : ∀ x, cells x →
      (Prog.claim x (.await x .done) : Prog Work Value).Confined Value.Within cells :=
    fun x hx => ⟨hx, hx, fun v more _ hv => hv⟩
  unfold syncValue
  split
  · exact htake _ ((Value.within_future _).1 h)
  · split
    · exact Prog.confined_ofPart_bind fun x hx => htake x (h.cell hx)
    · exact trivial

end Operations

/-! ### The evaluator -/

def Evaluator.Confines (ev : Evaluator) : Prop :=
  ∀ room ctx env e cells, env.Within cells → e.Within cells →
    (ev room ctx env e).Confined Result.Within cells

section Evaluator

variable {ev : Evaluator} {room : Room} {ctx : Context} {env : Env} {cells : CellId → Prop}

theorem confined_evalPart (hev : ev.Confines) {e : Except Fault Expr} (henv : env.Within cells)
    (he : ∀ part, e = .ok part → part.Within cells) :
    (evalPart ev room ctx env e).Confined Result.Within cells :=
  Prog.confined_ofPart_bind fun part hpart => hev room ctx env part cells henv (he part hpart)

theorem confined_evalArgs (hev : ev.Confines) {args : List Expr} (henv : env.Within cells)
    (hargs : ∀ arg ∈ args, arg.Within cells) :
    (evalArgs ev room ctx env args).Confined
      (fun r cells => (∀ v ∈ r.1, v.Within cells) ∧ r.2.Within cells) cells := by
  induction args generalizing env cells with
  | nil => exact ⟨fun v hv => absurd hv List.not_mem_nil, henv⟩
  | cons arg args ih =>
    obtain ⟨hfirst, hrest⟩ := List.forall_mem_cons.1 hargs
    refine (hev (room.less 1) ctx env arg cells henv hfirst).bind fun first more hle hr => ?_
    refine (ih hr.2 fun arg harg => (hrest arg harg).mono hle).bind fun r more' hle' hvalues => ?_
    exact ⟨List.forall_mem_cons.2 ⟨hr.1.mono hle', hvalues.1⟩, hvalues.2⟩

theorem confined_prepareCall (hev : ev.Confines) {f : Procedure} {args : Args}
    (henv : env.Within cells) (hargs : args.Within cells) :
    (prepareCall ev room ctx env f args).Confined
      (fun call cells => call.env.Within cells ∧ call.callerEnv.Within cells) cells := by
  refine Prog.confined_ofPart_bind fun name _ => ?_
  refine Prog.confined_ofPart_bind fun arity _ => ?_
  refine Prog.confined_ofPart_bind fun got _ => ?_
  split
  · exact trivial
  · refine (confined_evalArgs hev henv hargs).bind fun r more hle hr => ?_
    refine Prog.confined_ofPart_bind fun params _ => ?_
    refine ⟨(henv.mono hle).extend (Frame.within_ofList fun binding hbinding => ?_), hr.2⟩
    exact hr.1 binding.2 (List.of_mem_zip hbinding).2

theorem confined_applyFunction (hev : ev.Confines) {f : Procedure} {args : Args}
    (henv : env.Within cells) (hargs : args.Within cells)
    (hbody : ∀ body, f.body = .ok body → body.Within cells) :
    (applyFunction ev room ctx env f args).Confined Result.Within cells := by
  refine (confined_prepareCall hev henv hargs).bind fun call more hle hcall => ?_
  refine Prog.confined_trace_bind ?_
  refine (confined_evalPart hev hcall.1 fun body h => (hbody body h).mono hle).bind ?_
  exact fun r more' hle' hr => ⟨hr.1, hcall.2.mono hle'⟩

theorem confined_unary (hev : ev.Confines) {x : Expr} {f : Value → Except Failure Value}
    (henv : env.Within cells) (hx : x.Within cells)
    (hf : ∀ {more : CellId → Prop} {v w}, v.Within more → f v = .ok w → w.Within more) :
    (applyBuiltin.unary ev room ctx env x f).Confined Result.Within cells := by
  refine (hev (room.less 1) ctx env x cells henv hx).bind fun r more hle hr => ?_
  exact Prog.confined_ofExcept_bind fun v hv => ⟨hf hr.1 hv, hr.2⟩

theorem confined_binary (hev : ev.Confines) {x y : Expr}
    {f : Value → Value → Except Failure Value} (henv : env.Within cells) (hx : x.Within cells)
    (hy : y.Within cells) (hf : ∀ {more : CellId → Prop} {v v' w},
      v.Within more → v'.Within more → f v v' = .ok w → w.Within more) :
    (applyBuiltin.binary ev room ctx env x y f).Confined Result.Within cells := by
  refine (hev (room.less 2) ctx env x cells henv hx).bind fun r more hle hr => ?_
  refine (hev (room.less 2) ctx r.env y more hr.2 (hy.mono hle)).bind fun r' more' hle' hr' => ?_
  exact Prog.confined_ofExcept_bind fun v hv => ⟨hf (hr.1.mono hle') hr'.1 hv, hr'.2⟩

theorem confined_applyBuiltin (hev : ev.Confines) {b : Builtin} {args : List Expr}
    (henv : env.Within cells) (hargs : ∀ arg ∈ args, arg.Within cells) :
    (applyBuiltin ev room ctx env b args).Confined Result.Within cells := by
  unfold applyBuiltin
  split
  case h_1 x y | h_2 x y =>
    simp only [List.forall_mem_cons] at hargs
    refine confined_binary hev henv hargs.1 hargs.2.1 fun hv hw h => ?_
    obtain ⟨-, -, m, n, d, hm, hn, hd, rfl⟩ := of_arithmetic h
    exact Value.within_make (Datum.within_text _) ((hv.payload hm).combine (hw.payload hn) hd)
  case h_3 x y =>
    simp only [List.forall_mem_cons] at hargs
    refine confined_binary hev henv hargs.1 hargs.2.1 fun _ _ h => ?_
    obtain ⟨b, rfl⟩ := of_equal h
    exact Value.within_bool b
  case h_4 x y =>
    simp only [List.forall_mem_cons] at hargs
    exact confined_binary hev henv hargs.1 hargs.2.1 fun hv hw h => hw.pushFront hv (of_cons h).2
  case h_5 test yes no =>
    simp only [List.forall_mem_cons] at hargs
    obtain ⟨htest, hyes, hno, -⟩ := hargs
    refine (hev (room.less 1) ctx env test cells henv htest).bind fun r more hle hr => ?_
    refine Prog.confined_ofExcept_bind fun b _ => hev (room.less 1) ctx r.env _ more hr.2 ?_
    split
    · exact hyes.mono hle
    · exact hno.mono hle
  case h_6 x =>
    simp only [List.forall_mem_cons] at hargs
    exact confined_unary hev henv hargs.1 fun hv h => hv.head (of_nonEmpty h).2
  case h_7 x =>
    simp only [List.forall_mem_cons] at hargs
    exact confined_unary hev henv hargs.1 fun hv h => hv.tail (of_nonEmpty h).2
  case h_8 => exact trivial

theorem confined_callBuiltin (hev : ev.Confines) {b : Builtin} {args : Args}
    (henv : env.Within cells) (hargs : args.Within cells) :
    (callBuiltin ev room ctx env b args).Confined Result.Within cells := by
  unfold callBuiltin
  split
  · exact confined_applyBuiltin hev henv hargs
  · refine Prog.confined_ofPart_bind fun got _ => ?_
    split
    · exact trivial
    · exact confined_applyBuiltin hev henv hargs

theorem confined_apply (hev : ev.Confines) {f : Procedure} {args : Args}
    (henv : env.Within cells) (hargs : args.Within cells)
    (hbody : ∀ body, f.body = .ok body → body.Within cells) :
    (apply ev room ctx env f args).Confined Result.Within cells := by
  refine Prog.confined_ofPart_bind fun name _ => ?_
  refine Prog.confined_ofPart_bind fun b _ => ?_
  cases b with
  | some b => exact Prog.confined_trace_bind (confined_callBuiltin hev henv hargs)
  | none => exact confined_applyFunction hev henv hargs hbody

theorem confines_evalNode (hev : ev.Confines) : (evalNode ev).Confines := by
  intro room ctx env e cells henv he
  refine Prog.confined_ofPart_bind fun node hnode => Prog.confined_trace_bind ?_
  have hparts := he.node hnode
  cases node with
  | lit value => exact Prog.confined_ofPart_bind fun v hv => ⟨hparts v hv, henv⟩
  | var name =>
    refine Prog.confined_ofPart_bind fun name _ => Prog.confined_ofPart_bind fun key _ => ?_
    split
    · exact ⟨henv.lookup (by assumption), henv⟩
    · exact trivial
  | app callee args =>
    refine (confined_evalPart hev henv hparts.1).bind fun f more hle hf => ?_
    split
    · refine Prog.confined_ofPart_bind fun procedure hprocedure => ?_
      refine Prog.confined_ofPart_bind fun found hfound => ?_
      exact confined_apply hev hf.2 (fun arg harg => (hparts.2 found hfound arg harg).mono hle)
        fun body hbody => hf.1.procedure hprocedure hbody
    · exact trivial
  | letIn name value body =>
    refine (confined_evalPart hev henv hparts.1).bind fun bound more hle hbound => ?_
    refine Prog.confined_ofPart_bind fun name _ => Prog.confined_ofPart_bind fun key _ => ?_
    refine (confined_evalPart hev (hbound.2.bind hbound.1)
      fun e he => (hparts.2 e he).mono hle).bind fun r more' hle' hr => ⟨hr.1, ?_⟩
    split
    · exact hbound.2.mono hle'
    · exact hr.2
  | cond test yes no =>
    obtain ⟨htest, hyes, hno⟩ := hparts
    refine (confined_evalPart hev henv htest).bind fun r more hle hr => ?_
    refine Prog.confined_ofExcept_bind fun b _ => confined_evalPart hev hr.2 fun e he => ?_
    split at he
    · exact (hyes e he).mono hle
    · exact (hno e he).mono hle
  | spawn body =>
    refine Prog.confined_ofPart_bind fun part hpart => ?_
    refine ⟨⟨hparts part hpart, henv⟩, fun id more hle hid => ?_⟩
    have hresult : Result.Within ⟨.future (.task id), env⟩ more :=
      ⟨(Value.within_future _).2 hid, henv.mono hle⟩
    by_cases hdebug : ctx.debug
    · simpa [hdebug, Prog.bind, Prog.Confined] using hresult
    · simpa [hdebug, Prog.bind, Prog.Confined] using hresult
  | sync body =>
    refine (confined_evalPart hev henv hparts).bind fun r more hle hr => ?_
    exact (confined_syncValue hr.1).bind fun v more' hle' hv => ⟨hv, hr.2.mono hle'⟩
  | unknown type => exact trivial

/-- Evaluations reach the cells that they start with and those that they are handed. -/
theorem confines_eval (limit : Nat) : (eval limit).Confines := by
  induction limit with
  | zero => exact fun room ctx env e cells henv he => trivial
  | succ limit ih =>
    intro room ctx env e cells henv he
    unfold eval
    split
    · exact confines_evalNode ih room ctx env e cells henv he
    · exact trivial

end Evaluator

end ForkJoin

import ForkJoin.Proofs.Reads
import ForkJoin.Proofs.Run.Lockstep

/-!
# Evaluation depends on the names that can be read

Two environments coincide on a collection of names when each of these means the same in both, and
means a value that reads no names but these. Under dynamic scope a function reads its free variables
where it is applied, so the collection has to be closed in this way: through the values of its names,
through literals and elements of vectors, and through what is found in cells.

An evaluation that reads no other names does the same in both environments
(`respects_eval`). It is an induction over the limit, with one lemma for each function of the
evaluator. Every part is evaluated in environments that coincide again: what an evaluation binds, it
binds in both. `coincident_runs_agree` is the theorem, for an evaluation in the main thread of any
system.
-/

namespace ForkJoin

/-! ### Environments that coincide -/

/-- Environments in which each name of a collection means the same, which reads no names but those
of the collection. -/
structure Env.Coincides (env env' : Env) (names : Name → Prop) : Prop where
  lookup : ∀ name, names name → env'.lookup name = env.lookup name
  readsOnly : ∀ name v, names name → env.lookup name = some v → v.ReadsOnly names

structure Work.Coincides (names : Name → Prop) (work work' : Work) : Prop where
  expr : work'.expr = work.expr
  context : work'.context = work.context
  env : work.env.Coincides work'.env names
  readsOnly : work.expr.ReadsOnly names

structure Result.Coincides (names : Name → Prop) (r r' : Result) : Prop where
  value : r'.value = r.value
  readsOnly : r.value.ReadsOnly names
  env : r.env.Coincides r'.env names

namespace Env

variable {names : Name → Prop} {env env' : Env}

theorem lookup_extend (env : Env) (f : Frame) (name : Name) :
    (env.extend f).lookup name =
      if (f.get? name).isSome then (Env.root f).lookup name else env.lookup name := by
  have hroot : (Env.root f).get? name = f.get? name := by
    rw [get?, root, List.findSome?_cons]
    cases f.get? name <;> rfl
  rw [lookup, lookup, lookup, get?_extend, hroot]
  cases f.get? name <;> rfl

theorem Coincides.extend {f : Frame} (h : env.Coincides env' names)
    (hf : f.Holds (·.ReadsOnly names)) : (env.extend f).Coincides (env'.extend f) names where
  lookup name hname := by rw [lookup_extend, lookup_extend, h.lookup name hname]
  readsOnly name v hname hv := by
    rw [lookup_extend] at hv
    split at hv
    · exact Env.Holds.lookup (List.forall_mem_singleton.2 hf) hv
    · exact h.readsOnly name v hname hv

theorem Coincides.bind {name : Name} {v : Value} (h : env.Coincides env' names)
    (hv : v.ReadsOnly names) : (env.bind name v).Coincides (env'.bind name v) names :=
  h.extend (Frame.holds_single hv)

theorem Holds.coincides (h : env.Holds (·.ReadsOnly names)) : env.Coincides env names where
  lookup _ _ := rfl
  readsOnly _ _ _ hv := h.lookup hv

/-- A name that is not read may be bound, whatever it is bound to and whatever it meant before. -/
theorem Coincides.bind_right {name : Name} (h : env.Coincides env' names)
    (hname : ∀ other, names other → other.key ≠ name.key) (v : Value) :
    env.Coincides (env'.bind name v) names where
  lookup other hother := by
    have hnew : (Frame.single name v).get? other = none := by
      rw [Frame.get?_single, if_neg (hname other hother)]
    rw [Env.bind, lookup_extend, hnew]
    exact h.lookup other hother
  readsOnly := h.readsOnly

end Env

/-! ### Evaluators -/

section Evaluator

open Prog (InStep)

variable {names : Name → Prop} {cells : CellId → Prop} {ev : Evaluator} {room : Room}
  {ctx : Context} {env env' : Env}

/-- Programs that do the same, as long as they claim given cells only and find values there that
read given names only. -/
abbrev Prog.Coincides (names : Name → Prop) (cells : CellId → Prop) {α β : Type}
    (R : α → β → Prop) (p : Prog Work α) (q : Prog Work β) : Prop :=
  p.InStep (·.ReadsOnly names) (Work.Coincides names) cells R q

def Evaluator.Respects (names : Name → Prop) (cells : CellId → Prop) (ev : Evaluator) : Prop :=
  ∀ room ctx env env' e, env.Coincides env' names → e.ReadsOnly names →
    (ev room ctx env e).Coincides names cells (Result.Coincides names) (ev room ctx env' e)

theorem Evaluator.Respects.bind {α β : Type} {R : α → β → Prop} {e : Expr}
    (hev : ev.Respects names cells) (henv : env.Coincides env' names) (he : e.ReadsOnly names)
    {k : Result → Prog Work α} {k' : Result → Prog Work β}
    (hk : ∀ v left left', v.ReadsOnly names → left.Coincides left' names →
      (k ⟨v, left⟩).Coincides names cells R (k' ⟨v, left'⟩)) :
    (ev room ctx env e >>= k).Coincides names cells R (ev room ctx env' e >>= k') := by
  refine (hev room ctx env env' e henv he).bind fun r r' hr => ?_
  obtain ⟨v, left⟩ := r
  obtain ⟨v', left'⟩ := r'
  obtain ⟨rfl, hv, hleft⟩ := hr
  exact hk _ _ _ hv hleft

theorem Evaluator.Respects.part {α β : Type} {R : α → β → Prop} {e : Except Fault Expr}
    (hev : ev.Respects names cells) (henv : env.Coincides env' names)
    (he : ∀ part, e = .ok part → part.ReadsOnly names)
    {k : Result → Prog Work α} {k' : Result → Prog Work β}
    (hk : ∀ v left left', v.ReadsOnly names → left.Coincides left' names →
      (k ⟨v, left⟩).Coincides names cells R (k' ⟨v, left'⟩)) :
    (evalPart ev room ctx env e >>= k).Coincides names cells R
      (evalPart ev room ctx env' e >>= k') := by
  cases e with
  | error f => exact .fail _
  | ok part => exact hev.bind henv (he part rfl) hk

theorem Evaluator.Respects.last {e : Except Fault Expr} (hev : ev.Respects names cells)
    (henv : env.Coincides env' names) (he : ∀ part, e = .ok part → part.ReadsOnly names) :
    (evalPart ev room ctx env e).Coincides names cells (Result.Coincides names)
      (evalPart ev room ctx env' e) :=
  Prog.InStep.ofPart_bind fun part hpart => hev room ctx env env' part henv (he part hpart)

theorem coincides_evalArgs (hev : ev.Respects names cells) (henv : env.Coincides env' names)
    {args : List Expr} (hargs : ∀ arg ∈ args, arg.ReadsOnly names) :
    (evalArgs ev room ctx env args).Coincides names cells
      (fun r r' => r'.1 = r.1 ∧ (∀ v ∈ r.1, v.ReadsOnly names) ∧ r.2.Coincides r'.2 names)
      (evalArgs ev room ctx env' args) := by
  induction args generalizing env env' with
  | nil => exact .done ⟨rfl, fun v hv => absurd hv List.not_mem_nil, henv⟩
  | cons arg args ih =>
    obtain ⟨harg, hargs⟩ := List.forall_mem_cons.1 hargs
    refine hev.bind henv harg fun v left left' hv hleft => ?_
    refine (ih hleft hargs).bind ?_
    rintro ⟨values, last⟩ ⟨_, last'⟩ ⟨rfl, hvalues, hlast⟩
    exact .done ⟨rfl, List.forall_mem_cons.2 ⟨hv, hvalues⟩, hlast⟩

theorem coincides_prepareCall (hev : ev.Respects names cells) (henv : env.Coincides env' names)
    (f : Procedure) {args : Args} (hargs : ∀ arg ∈ args.items, arg.ReadsOnly names) :
    (prepareCall ev room ctx env f args).Coincides names cells
      (fun call call' => call'.name = call.name ∧ call.env.Coincides call'.env names ∧
        call.callerEnv.Coincides call'.callerEnv names)
      (prepareCall ev room ctx env' f args) := by
  refine InStep.ofPart_bind fun name _ => ?_
  refine InStep.ofPart_bind fun arity _ => ?_
  refine InStep.ofPart_bind fun got _ => ?_
  split
  · exact .fail _
  · refine (coincides_evalArgs hev henv hargs).bind ?_
    rintro ⟨values, left⟩ ⟨_, left'⟩ ⟨rfl, hvalues, hleft⟩
    refine InStep.ofPart_bind fun params _ => .done ⟨rfl, henv.extend ?_, hleft⟩
    exact Frame.holds_ofList fun binding h => hvalues _ (List.of_mem_zip h).2

theorem coincides_applyFunction (hev : ev.Respects names cells) (henv : env.Coincides env' names)
    {f : Procedure} {args : Args} (hargs : ∀ arg ∈ args.items, arg.ReadsOnly names)
    (hbody : ∀ body, f.body = .ok body → body.ReadsOnly names) :
    (applyFunction ev room ctx env f args).Coincides names cells (Result.Coincides names)
      (applyFunction ev room ctx env' f args) := by
  refine (coincides_prepareCall hev henv f hargs).bind ?_
  rintro ⟨name, inner, left⟩ ⟨_, inner', left'⟩ ⟨rfl, hinner, hleft⟩
  refine InStep.trace rfl rfl (hev.part hinner hbody fun v _ _ hv _ => ?_)
  exact .done ⟨rfl, hv, hleft⟩

theorem coincides_unary (hev : ev.Respects names cells) (henv : env.Coincides env' names)
    {x : Expr} {op : Value → Except Failure Value} (hx : x.ReadsOnly names)
    (hop : ∀ {v w}, v.ReadsOnly names → op v = .ok w → w.ReadsOnly names) :
    (applyBuiltin.unary ev room ctx env x op).Coincides names cells (Result.Coincides names)
      (applyBuiltin.unary ev room ctx env' x op) := by
  refine hev.bind henv hx fun v left left' hv hleft => ?_
  exact InStep.ofExcept_bind fun w hw => .done ⟨rfl, hop hv hw, hleft⟩

theorem coincides_binary (hev : ev.Respects names cells) (henv : env.Coincides env' names)
    {x y : Expr} {op : Value → Value → Except Failure Value} (hx : x.ReadsOnly names)
    (hy : y.ReadsOnly names)
    (hop : ∀ {v w u}, v.ReadsOnly names → w.ReadsOnly names → op v w = .ok u →
      u.ReadsOnly names) :
    (applyBuiltin.binary ev room ctx env x y op).Coincides names cells (Result.Coincides names)
      (applyBuiltin.binary ev room ctx env' x y op) := by
  refine hev.bind henv hx fun v left left' hv hleft => ?_
  refine hev.bind hleft hy fun w last last' hw hlast => ?_
  exact InStep.ofExcept_bind fun u hu => .done ⟨rfl, hop hv hw hu, hlast⟩

theorem coincides_applyBuiltin (hev : ev.Respects names cells) (henv : env.Coincides env' names)
    (b : Builtin) {args : List Expr} (hargs : ∀ arg ∈ args, arg.ReadsOnly names) :
    (applyBuiltin ev room ctx env b args).Coincides names cells (Result.Coincides names)
      (applyBuiltin ev room ctx env' b args) := by
  unfold applyBuiltin
  split
  case h_1 x y | h_2 x y =>
    simp only [List.forall_mem_cons] at hargs
    refine coincides_binary hev henv hargs.1 hargs.2.1 fun _ _ h => ?_
    obtain ⟨-, -, m, n, d, -, -, -, rfl⟩ := of_arithmetic h
    exact Value.readsOnly_make_integer d
  case h_3 x y =>
    simp only [List.forall_mem_cons] at hargs
    refine coincides_binary hev henv hargs.1 hargs.2.1 fun _ _ h => ?_
    obtain ⟨b, rfl⟩ := of_equal h
    exact Value.readsOnly_bool b
  case h_4 x y =>
    simp only [List.forall_mem_cons] at hargs
    refine coincides_binary hev henv hargs.1 hargs.2.1 fun hv hw h => ?_
    obtain ⟨hvector, hmade⟩ := of_cons h
    exact hw.pushFront hv hvector hmade
  case h_5 test yes no =>
    simp only [List.forall_mem_cons] at hargs
    obtain ⟨htest, hyes, hno, -⟩ := hargs
    refine hev.bind henv htest fun v left left' _ hleft => ?_
    refine InStep.ofExcept_bind fun b _ => hev _ _ _ _ _ hleft ?_
    split
    · exact hyes
    · exact hno
  case h_6 x =>
    simp only [List.forall_mem_cons] at hargs
    refine coincides_unary hev henv hargs.1 fun hv h => ?_
    obtain ⟨hvector, hhead⟩ := of_nonEmpty h
    exact hv.element (Value.hasElement_of_head hvector hhead)
  case h_7 x =>
    simp only [List.forall_mem_cons] at hargs
    refine coincides_unary hev henv hargs.1 fun hv h => ?_
    obtain ⟨hvector, htail⟩ := of_nonEmpty h
    exact hv.tail hvector htail
  case h_8 => exact .fail _

theorem coincides_apply (hev : ev.Respects names cells) (henv : env.Coincides env' names)
    {f : Procedure} {args : Args} (hargs : ∀ arg ∈ args.items, arg.ReadsOnly names)
    (hbody : ∀ body, f.body = .ok body → body.ReadsOnly names) :
    (apply ev room ctx env f args).Coincides names cells (Result.Coincides names)
      (apply ev room ctx env' f args) := by
  refine InStep.ofPart_bind fun name _ => InStep.ofPart_bind fun b _ => ?_
  cases b with
  | none => exact coincides_applyFunction hev henv hargs hbody
  | some b =>
    refine InStep.trace rfl rfl ?_
    unfold callBuiltin
    split
    · exact coincides_applyBuiltin hev henv b hargs
    · refine InStep.ofPart_bind fun got _ => ?_
      split
      · exact .fail _
      · exact coincides_applyBuiltin hev henv b hargs

theorem respects_evalNode (hev : ev.Respects names cells) :
    (evalNode ev).Respects names cells := by
  intro room ctx env env' e henv he
  refine InStep.ofPart_bind fun node hnode => InStep.trace rfl rfl ?_
  have hparts := (Expr.readsOnly_iff_node hnode).1 he
  cases node with
  | lit value => exact InStep.ofPart_bind fun v hv => .done ⟨rfl, hparts v hv, henv⟩
  | var name =>
    refine InStep.ofPart_bind fun name hname => InStep.ofPart_bind fun key hkey => ?_
    have hread : names key := hparts name key hname hkey
    rw [henv.lookup key hread]
    cases hv : env.lookup key with
    | none => exact .fail _
    | some v => exact .done ⟨rfl, henv.readsOnly key v hread hv, henv⟩
  | app callee args =>
    refine hev.part henv (fun part h => hparts part (.inl h)) fun f left left' hf hleft => ?_
    dsimp only
    split
    case isTrue htype =>
      refine InStep.ofPart_bind fun procedure hprocedure => ?_
      refine InStep.ofPart_bind fun found hfound => ?_
      exact coincides_apply hev hleft (fun arg harg => hparts arg (.inr ⟨found, hfound, harg⟩))
        fun body hbody => hf.procedure htype hprocedure hbody
    case isFalse => exact .fail _
  | letIn name value body =>
    refine hev.part henv (fun part h => hparts part (.inl h)) fun v left left' hv hleft => ?_
    refine InStep.ofPart_bind fun name _ => InStep.ofPart_bind fun key _ => ?_
    refine hev.part (hleft.bind hv) (fun part h => hparts part (.inr h)) ?_
    intro w last last' hw hlast
    refine .done ⟨rfl, hw, ?_⟩
    dsimp only
    split
    · exact hleft
    · exact hlast
  | cond test yes no =>
    refine hev.part henv (fun part h => hparts part (.inl h)) fun v left left' _ hleft => ?_
    refine InStep.ofExcept_bind fun b _ => hev.last hleft fun part hpart => ?_
    split at hpart
    · exact hparts part (.inr (.inl hpart))
    · exact hparts part (.inr (.inr hpart))
  | spawn body =>
    refine InStep.ofPart_bind fun part hpart => .spawn ⟨rfl, rfl, henv, hparts part hpart⟩ ?_
    intro id
    have hresult : Result.Coincides names ⟨.future (.task id), env⟩ ⟨.future (.task id), env'⟩ :=
      ⟨rfl, Value.readsOnly_future _, henv⟩
    cases hdebug : ctx.debug with
    | false => exact .done hresult
    | true => exact .emit (.done hresult)
  | sync body =>
    refine hev.part henv (fun part h => hparts part h) fun v left left' _ hleft => ?_
    refine (InStep.syncValue v).bind fun w w' hw => ?_
    rw [hw.1]
    exact .done ⟨rfl, hw.2, hleft⟩
  | unknown type => exact .fail _

/-- Evaluation does the same in environments that coincide on the names that are read. -/
theorem respects_eval (names : Name → Prop) (cells : CellId → Prop) (limit : Nat) :
    (eval limit).Respects names cells := by
  induction limit with
  | zero => exact fun _ _ _ _ _ _ _ => .fail _
  | succ limit ih =>
    intro room ctx env env' e henv he
    unfold eval
    split
    · exact respects_evalNode ih room ctx env env' e henv he
    · exact .fail _

end Evaluator

/-! ### Runs -/

def Lockstep.coincidence (names : Name → Prop) : Lockstep where
  good := (·.ReadsOnly names)
  works := Work.Coincides names
  results := Result.Coincides names
  value h := ⟨h.value, h.readsOnly⟩
  debug h := by rw [h.context]
  eval h stack id cells := by
    rw [h.expr, h.context]
    exact respects_eval names cells stack.depth stack.room _ _ _ _ h.env h.readsOnly

/-- Acts that are the same, up to what other names mean to a spawned task than those of a
collection. -/
def Act.AgreesOn (names : Name → Prop) : Act → Act → Prop
  | .spawn task work, .spawn task' work' =>
    task' = task ∧ work'.expr = work.expr ∧ work'.context = work.context ∧
      ∀ name, names name → work'.env.lookup name = work.env.lookup name
  | .claim x, .claim x' => x' = x
  | _, _ => False

theorem Act.agreesOn_refl (names : Name → Prop) : ∀ act : Act, act.AgreesOn names act
  | .spawn _ _ => ⟨rfl, rfl, rfl, fun _ _ => rfl⟩
  | .claim _ => rfl

theorem Act.InStep.agreesOn {names : Name → Prop} {act act' : Act}
    (h : act.InStep (Work.Coincides names) act') : act.AgreesOn names act' := by
  cases h with
  | spawn task hwork => exact ⟨rfl, hwork.expr, hwork.context, hwork.env.lookup⟩
  | claim x => rfl

namespace System

variable {stack : Stack} {s last : System} {t : Thread}

/-- Evaluation depends only on the names that can be read. Let an expression be evaluated in the main
thread of a system, in two environments in which each name of a collection means the same, and let
the collection have every name that can be read: in the expression, in the values of these names,
and in what is stored in the cells that the main thread and its new tasks claim, other than their
own. Then every run from the one environment is a run from the other, in the same order: every
thread ends with the same value or the same failure, the same is stored in all cells, the same
threads wait, and the same tasks are spawned and the same cells are claimed by the same threads in
the same order. If the evaluation has succeeded, it leaves environments behind in which each name of
the collection means the same again. -/
theorem coincident_runs_agree (stack : Stack) (hs : s.Sound) (ht : s.thread .main = some t)
    (ctx : Context) {names : Name → Prop} {env env' : Env} {e : Expr}
    (henv : env.Coincides env' names) (he : e.ReadsOnly names) {ids : List ThreadId}
    (hrun : (s.setThread .main { t with rest := stack.eval ctx env e }).run stack ids = some last)
    (hclaims : ∀ u x v, (u, .claim x) ∈
      (s.setThread .main { t with rest := stack.eval ctx env e }).acts stack ids →
        u.Evaluates t.spawned → (∀ w, x = .task w → ¬ w.NewTask t.spawned) →
          last.stored? x = some v → v.ReadsOnly names) :
    ∃ last',
      (s.setThread .main { t with rest := stack.eval ctx env' e }).run stack ids = some last' ∧
      (∀ u, last'.outcome? u = last.outcome? u) ∧ last'.cell = last.cell ∧
      (∀ u, last'.Blocked u ↔ last.Blocked u) ∧
      List.Forall₂ (fun a a' => a'.1 = a.1 ∧ a.2.AgreesOn names a'.2)
        ((s.setThread .main { t with rest := stack.eval ctx env e }).acts stack ids)
        ((s.setThread .main { t with rest := stack.eval ctx env' e }).acts stack ids) ∧
      ∀ r, last.ended? .main = some (.ok r) →
        ∃ r', last'.ended? .main = some (.ok r') ∧ Result.Coincides names r r' := by
  have heval : ∀ cells, (stack.eval ctx env e).Coincides names cells (Result.Coincides names)
      (stack.eval ctx env' e) := fun cells =>
    respects_eval names cells stack.depth stack.room ctx env env' e henv he
  obtain ⟨last', cells, hrun', hlast, hacts⟩ :=
    exists_run_inStep (L := .coincidence names) stack hs ht heval hrun hclaims
  refine ⟨last', hrun', hlast.outcome?_eq, hlast.cell, hlast.blocked_iff, hacts.imp ?_,
    fun r hr => hlast.ended hr⟩
  rintro a a' ⟨hthread, ⟨-, hsame⟩ | hact⟩
  · exact ⟨hthread, hsame ▸ a.2.agreesOn_refl names⟩
  · exact ⟨hthread, hact.agreesOn⟩

/-- A spawned function whose body has a free variable, with a name bound over both that neither
mentions. -/
theorem coincident_runs_agree_unread_name :
    ∃ last, ((launch .none (.done (.ofValue (.vec [])))).setThread .main
        { rest := Stack.eval ⟨5, none⟩ {}
            (Env.bind ⟨[⟨[("f", .fn none [] (.var "y")), ("y", .int 7)]⟩]⟩ "z" (.bool true))
            (.letIn "g" (.spawn (.call "f" [])) (.sync (.var "g"))) }).run
          ⟨5, none⟩ [.main, .child .main 1, .main, .main] = some last ∧
      last.outcome? .main = some (.ok (.int 7)) := by
  let stack : Stack := ⟨5, none⟩
  let names : Name → Prop := fun name => name ∈ [Name.text "f", .text "g", .text "y"]
  let env : Env := ⟨[⟨[("f", .fn none [] (.var "y")), ("y", .int 7)]⟩]⟩
  let e : Expr := .letIn "g" (.spawn (.call "f" [])) (.sync (.var "g"))
  let task : ThreadId := .child .main 1
  let start : System := (launch .none (.done (.ofValue (.vec [])))).setThread .main
    { rest := stack.eval {} env e }
  obtain ⟨last, hrun, hmain⟩ : ∃ last, start.run stack [.main, task, .main, .main] = some last ∧
      last.outcome? .main = some (.ok (.int 7)) := ⟨_, rfl, rfl⟩
  have hacts : ∃ work, start.acts stack [.main, task, .main, .main] =
      [(.main, .spawn task work), (.main, .claim (.task task))] := ⟨_, rfl⟩
  have hclaims : ∀ u x v, (u, .claim x) ∈ start.acts stack [.main, task, .main, .main] →
      u.Evaluates 0 → (∀ w, x = .task w → ¬ w.NewTask 0) → last.stored? x = some v →
      v.ReadsOnly names := by
    intro u x v hmem _ hown _
    obtain ⟨work, hacts⟩ := hacts
    rw [hacts] at hmem
    cases hmem with
    | tail _ hmem =>
      cases List.mem_singleton.1 hmem
      exact absurd ⟨1, Nat.one_pos, .inl rfl⟩ (hown task rfl)
  have hholds : env.Holds (·.ReadsOnly names) := by
    refine List.forall_mem_singleton.2 (List.forall_mem_cons.2 ⟨?_, List.forall_mem_singleton.2 ?_⟩)
    · simp [names]
    · simp
  have henv : env.Coincides (env.bind "z" (.bool true)) names :=
    hholds.coincides.bind_right (by simp [names]) _
  have he : e.ReadsOnly names := by simp [e, names, Expr.call]
  obtain ⟨last', hrun', houtcome, -⟩ := coincident_runs_agree stack
    (sound_launch .none (.done (.ofValue (.vec [])))) rfl {} henv he hrun hclaims
  exact ⟨last', hrun', (houtcome .main).trans hmain⟩

end System

end ForkJoin

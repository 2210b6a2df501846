import ForkJoin.Proofs.Serial.Elides

/-!
# What is left without spawns and syncs

With scoped bindings an evaluation leaves its environment as it found it. So it does not matter that
a task works in the environment that was there when it was spawned, and what it comes to can be
found out on the spot: `elides_spawn` puts the work of a task where the task was spawned, and
`elides_sync` finds the value of the task where its future was. All other nodes pass on what holds
of their parts, one lemma each, and `elides_evalComparing` takes them together by induction on the
limit.
-/

namespace ForkJoin

def Rewriting.elision : Rewriting where
  spawn e := e
  sync e := e

/-- The rewriting that takes spawns and syncs away and puts values in the place of futures. -/
def Rewriting.serial (held : CellId → Value) : Rewriting :=
  { elision with future := held }

theorem Rewriting.wellFormed_serial {held : CellId → Value} (h : ∀ x, (held x).WellFormed) :
    (serial held).WellFormed where
  future := h
  spawn _ he := he
  sync _ he := he

def Succeeds (env : Env) (e : Expr) (v : Value) : Prop :=
  Staged.Settles (fun limit room ctx => eval limit room ctx env e) ⟨v, env⟩

/-- Values that can stand in the place of the futures of a run: that of a task is what the cell of
the task holds, and what its work comes to. -/
structure Record.Held (ρ : Record) (held : CellId → Value) : Prop where
  wellFormed : ∀ x, (held x).WellFormed
  stored : ∀ x v, ρ.stored x = some v → v.WellFormed ∧ held x = v.rewrite (.serial held)
  spawned : ∀ u work, ρ.spawned u work → work.context.scopedLet = true →
    Succeeds (work.env.rewrite (.serial held)) (work.expr.rewrite (.serial held)) (held (.task u))

structure Elided (held : CellId → Value) (env : Env) (r r' : Result) : Prop where
  keeps : r.env = env
  wellFormed : r.value.WellFormed
  eq : r' = ⟨r.value.rewrite (.serial held), env.rewrite (.serial held)⟩

def Evaluator.Elides (ρ : Record) (id : ThreadId) (held : CellId → Value) (ev : Evaluator) : Prop :=
  ∀ room ctx env e, ctx.scopedLet = true → env.WellFormed → e.WellFormed →
    (ev room ctx env e).Elides ρ id (Elided held env) fun limit room ctx =>
      eval limit room ctx (env.rewrite (.serial held)) (e.rewrite (.serial held))

section Operations

variable {σ : Rewriting} {v w u : Value}

theorem rewrite_arithmetic {op : Operation} {name : Datum} (hv : v.WellFormed) (hw : w.WellFormed)
    (h : arithmetic op name v w = .ok u) :
    u.WellFormed ∧ arithmetic op name (v.rewrite σ) (w.rewrite σ) = .ok (u.rewrite σ) := by
  obtain ⟨hint, hint', -⟩ := of_arithmetic h
  obtain ⟨m, rfl⟩ := hv.eq_int hint
  obtain ⟨n, rfl⟩ := hw.eq_int hint'
  cases h
  exact ⟨trivial, rfl⟩

theorem rewrite_cons (hv : v.WellFormed) (hw : w.WellFormed)
    (h : (do Failure.ofFault ((← expectVector "cons" 2 w).pushFront v)) = .ok u) :
    u.WellFormed ∧ (do Failure.ofFault ((← expectVector "cons" 2 (w.rewrite σ)).pushFront
      (v.rewrite σ))) = .ok (u.rewrite σ) := by
  obtain ⟨items, rfl⟩ := hw.eq_vec (of_cons h).1
  cases h
  exact ⟨⟨hv, hw⟩, rfl⟩

theorem rewrite_nonEmpty {name : String} {part : Value → Except Fault Value}
    (hpart : ∀ {first items u}, (Value.vec (first :: items)).WellFormed →
      part (.vec (first :: items)) = .ok u →
      u.WellFormed ∧ part ((Value.vec (first :: items)).rewrite σ) = .ok (u.rewrite σ))
    (hv : v.WellFormed) (h : applyBuiltin.nonEmpty name part v = .ok u) :
    u.WellFormed ∧ applyBuiltin.nonEmpty name part (v.rewrite σ) = .ok (u.rewrite σ) := by
  obtain ⟨hvec, hmade⟩ := of_nonEmpty h
  obtain ⟨items, rfl⟩ := hv.eq_vec hvec
  cases items with
  | nil => cases h
  | cons first items =>
    obtain ⟨hu, hu'⟩ := hpart hv hmade
    refine ⟨hu, ?_⟩
    change Failure.ofFault (part ((Value.vec (first :: items)).rewrite σ)) = _
    rw [hu']
    rfl

theorem rewrite_head (hv : v.WellFormed) (h : applyBuiltin.nonEmpty "head" Value.head v = .ok u) :
    u.WellFormed ∧ applyBuiltin.nonEmpty "head" Value.head (v.rewrite σ) = .ok (u.rewrite σ) := by
  refine rewrite_nonEmpty (fun {first items u} hv hu => ?_) hv h
  cases hu
  exact ⟨hv.1, rfl⟩

theorem rewrite_tail (hv : v.WellFormed) (h : applyBuiltin.nonEmpty "tail" Value.tail v = .ok u) :
    u.WellFormed ∧ applyBuiltin.nonEmpty "tail" Value.tail (v.rewrite σ) = .ok (u.rewrite σ) := by
  refine rewrite_nonEmpty (fun {first items u} hv hu => ?_) hv h
  cases hu
  exact ⟨hv.2, rfl⟩

theorem rewrite_compare {room : Room}
    (h : Failure.ofFault (return .bool (← v.equalGround room w)) = .ok u) :
    u.WellFormed ∧ ∃ n, ∀ room : Room, room.has n →
      Failure.ofFault (return .bool (← (v.rewrite σ).equal room (w.rewrite σ))) =
        .ok (u.rewrite σ) := by
  obtain ⟨b, hb, hu⟩ := ok_of_bind (ok_of_ofFault h)
  cases hu
  obtain ⟨n, hn⟩ := Value.equal_of_equalGround σ hb
  refine ⟨trivial, n, fun room hroom => ?_⟩
  rw [hn room hroom]
  rfl

end Operations

/-! ### Functions and builtins -/

section Evaluator

variable {ρ : Record} {id : ThreadId} {held : CellId → Value} {ev : Evaluator} {room : Room}
  {ctx : Context} {env : Env} {α β : Type} {S : α → β → Prop}

theorem Evaluator.Elides.bind {e : Expr} (hev : ev.Elides ρ id held)
    (hscoped : ctx.scopedLet = true) (henv : env.WellFormed) (he : e.WellFormed)
    {f : Result → Prog Work α} {g : Nat → Room → Context → Result → Prog Work β} (k : Nat)
    (hf : ∀ v : Value, v.WellFormed → (f ⟨v, env⟩).Elides ρ id S fun limit room ctx =>
      g limit room ctx ⟨v.rewrite (.serial held), env.rewrite (.serial held)⟩) :
    (ev room ctx env e >>= f).Elides ρ id S fun limit room ctx =>
      eval limit (room.less k) ctx (env.rewrite (.serial held)) (e.rewrite (.serial held)) >>=
        g limit room ctx := by
  refine ((hev room ctx env e hscoped henv he).less k).bind ?_
  rintro ⟨v, env'⟩ r' ⟨hkeeps, hv, rfl⟩
  cases hkeeps
  exact hf v hv

theorem Elided.of {v : Value} (hv : v.WellFormed) (env : Env) :
    Elided held env ⟨v, env⟩ ⟨v.rewrite (.serial held), env.rewrite (.serial held)⟩ :=
  ⟨rfl, hv, rfl⟩

theorem elides_operation {x : Except Failure Value} {y : Room → Except Failure Value}
    (h : ∀ u, x = .ok u → u.WellFormed ∧ ∃ n, ∀ room : Room, room.has n →
      y room = .ok (u.rewrite (.serial held))) :
    (do return ⟨← Prog.ofExcept x, env⟩ : Prog Work Result).Elides ρ id (Elided held env)
      fun _ room _ => do return ⟨← Prog.ofExcept (y room), env.rewrite (.serial held)⟩ := by
  refine (Prog.Elides.ofExcept (R := fun u u' => u.WellFormed ∧ u' = u.rewrite (.serial held))
    fun u hu => ?_).bind ?_
  · obtain ⟨hwf, hu'⟩ := h u hu
    exact ⟨_, ⟨hwf, rfl⟩, hu'⟩
  · rintro u u' ⟨hwf, rfl⟩
    exact .done (Elided.of hwf env) fun _ _ => rfl

theorem elides_unary (hev : ev.Elides ρ id held) (hscoped : ctx.scopedLet = true) {x : Expr}
    {op op' : Value → Except Failure Value} (henv : env.WellFormed) (hx : x.WellFormed)
    (hop : ∀ {v u}, v.WellFormed → op v = .ok u →
      u.WellFormed ∧ op' (v.rewrite (.serial held)) = .ok (u.rewrite (.serial held))) :
    (applyBuiltin.unary ev room ctx env x op).Elides ρ id (Elided held env)
      fun limit room ctx => applyBuiltin.unary (eval limit) room ctx
        (env.rewrite (.serial held)) (x.rewrite (.serial held)) op' := by
  refine hev.bind hscoped henv hx 1 fun v hv => elides_operation fun u hu => ?_
  obtain ⟨hwf, hu'⟩ := hop hv hu
  exact ⟨hwf, 0, fun _ _ => hu'⟩

theorem elides_binary (op : Value → Value → Except Failure Value)
    (op' : Room → Value → Value → Except Failure Value) (hev : ev.Elides ρ id held)
    (hscoped : ctx.scopedLet = true) {x y : Expr} (henv : env.WellFormed) (hx : x.WellFormed)
    (hy : y.WellFormed)
    (hop : ∀ {v w u}, v.WellFormed → w.WellFormed → op v w = .ok u →
      u.WellFormed ∧ ∃ n, ∀ room : Room, room.has n →
        op' room (v.rewrite (.serial held)) (w.rewrite (.serial held)) =
          .ok (u.rewrite (.serial held))) :
    (applyBuiltin.binary ev room ctx env x y op).Elides ρ id (Elided held env)
      fun limit room ctx => applyBuiltin.binary (eval limit) room ctx
        (env.rewrite (.serial held)) (x.rewrite (.serial held)) (y.rewrite (.serial held))
        (op' room) := by
  refine hev.bind hscoped henv hx 2 fun v hv => ?_
  exact hev.bind hscoped henv hy 2 fun w hw => elides_operation fun u hu => hop hv hw hu

theorem elides_condition {function : Datum} {v : Value} (hv : v.WellFormed)
    {f : Bool → Prog Work α} {q : Bool → Staged β}
    (hf : ∀ b, (f b).Elides ρ id S (q b)) :
    (Prog.ofExcept (expectCondition function v) >>= f).Elides ρ id S fun limit room ctx =>
      Prog.ofExcept (expectCondition function (v.rewrite (.serial held))) >>= fun b =>
        q b limit room ctx := by
  rcases expectCondition_cases function hv with ⟨b, rfl, -⟩ | ⟨e, -, h⟩
  · exact hf b
  · rw [h]
    exact .fail

theorem elides_applyBuiltinComparing (hev : ev.Elides ρ id held) (hscoped : ctx.scopedLet = true)
    (b : Builtin) {args : List Expr} (henv : env.WellFormed)
    (hargs : ∀ arg ∈ args, arg.WellFormed) :
    (applyBuiltinComparing Value.equalGround ev room ctx env b args).Elides ρ id (Elided held env)
      fun limit room ctx => applyBuiltin (eval limit) room ctx (env.rewrite (.serial held)) b
        (args.map (Expr.rewrite (.serial held))) := by
  by_cases hlength : args.length = b.arity
  case neg =>
    have hplain : b ≠ .eq ∨ args.length ≠ 2 :=
      or_iff_not_imp_left.2 fun hb => by rwa [not_not.1 hb] at hlength
    rw [applyBuiltinComparing_of_ne _ hplain, applyBuiltin_of_length_ne hlength]
    exact .fail
  case pos =>
    cases b with
    | add | sub =>
      obtain ⟨x, y, rfl⟩ := List.length_eq_two.1 hlength
      simp only [List.forall_mem_cons] at hargs
      refine elides_binary _ (fun _ => arithmetic _ _) hev hscoped henv hargs.1 hargs.2.1
        fun hv hw hu => ?_
      obtain ⟨hwf, hu'⟩ := rewrite_arithmetic hv hw hu
      exact ⟨hwf, 0, fun _ _ => hu'⟩
    | eq =>
      obtain ⟨x, y, rfl⟩ := List.length_eq_two.1 hlength
      simp only [List.forall_mem_cons] at hargs
      rw [applyBuiltinComparing_eq]
      simp only [List.map_cons, List.map_nil, applyBuiltin_eq]
      refine elides_binary _ _ hev hscoped henv hargs.1 hargs.2.1 fun hv hw hu => ?_
      obtain ⟨hwf, n, hn⟩ := rewrite_compare hu
      exact ⟨hwf, n + 1, fun room hroom => hn _ (Room.has_less hroom)⟩
    | cons =>
      obtain ⟨x, y, rfl⟩ := List.length_eq_two.1 hlength
      simp only [List.forall_mem_cons] at hargs
      rw [applyBuiltinComparing_of_ne _ (.inl (by simp)), applyBuiltin_cons]
      simp only [List.map_cons, List.map_nil, applyBuiltin_cons]
      refine elides_binary _ _ hev hscoped henv hargs.1 hargs.2.1 fun hv hw hu => ?_
      obtain ⟨hwf, hu'⟩ := rewrite_cons hv hw hu
      exact ⟨hwf, 0, fun _ _ => hu'⟩
    | head =>
      obtain ⟨x, rfl⟩ := List.length_eq_one_iff.1 hlength
      simp only [List.forall_mem_cons] at hargs
      exact elides_unary hev hscoped henv hargs.1 rewrite_head
    | tail =>
      obtain ⟨x, rfl⟩ := List.length_eq_one_iff.1 hlength
      simp only [List.forall_mem_cons] at hargs
      exact elides_unary hev hscoped henv hargs.1 rewrite_tail
    | choose =>
      obtain ⟨test, yes, no, rfl⟩ := List.length_eq_three.1 hlength
      simp only [List.forall_mem_cons] at hargs
      obtain ⟨htest, hyes, hno, -⟩ := hargs
      refine hev.bind hscoped henv htest 1 fun v hv => elides_condition hv fun b => ?_
      cases b with
      | true => exact (hev _ _ _ _ hscoped henv hyes).less 1
      | false => exact (hev _ _ _ _ hscoped henv hno).less 1

theorem elides_evalArgs (hev : ev.Elides ρ id held) (hscoped : ctx.scopedLet = true)
    {args : List Expr} (henv : env.WellFormed) (hargs : ∀ arg ∈ args, arg.WellFormed) :
    (evalArgs ev room ctx env args).Elides ρ id
      (fun r r' => (∀ v ∈ r.1, v.WellFormed) ∧ r.2 = env ∧
        r' = (r.1.map (Value.rewrite (.serial held)), env.rewrite (.serial held)))
      fun limit room ctx => evalArgs (eval limit) room ctx (env.rewrite (.serial held))
        (args.map (Expr.rewrite (.serial held))) := by
  induction args with
  | nil => exact .done ⟨fun v hv => absurd hv List.not_mem_nil, rfl, rfl⟩ fun _ _ => rfl
  | cons arg args ih =>
    obtain ⟨harg, hargs⟩ := List.forall_mem_cons.1 hargs
    refine hev.bind hscoped henv harg 1 fun v hv => (ih hargs).bind ?_
    rintro ⟨values, env'⟩ - ⟨hvalues, rfl, rfl⟩
    exact .done ⟨List.forall_mem_cons.2 ⟨hv, hvalues⟩, rfl, rfl⟩ fun _ _ => rfl

theorem elides_applyFunction (hev : ev.Elides ρ id held) (hscoped : ctx.scopedLet = true)
    {name : Option String} {params : List String} {body : Expr} {args : List Expr}
    {f f' : Procedure} (hf : (Value.fn name params body).procedure = .ok f)
    (hf' : (Value.fn name params (body.rewrite (.serial held))).procedure = .ok f')
    (henv : env.WellFormed) (hbody : body.WellFormed) (hargs : ∀ arg ∈ args, arg.WellFormed) :
    (applyFunction ev room ctx env f (.list args)).Elides ρ id (Elided held env)
      fun limit room ctx => applyFunction (eval limit) room ctx (env.rewrite (.serial held)) f'
        (.list (args.map (Expr.rewrite (.serial held)))) := by
  rw [applyFunction_fn name params body args hf]
  simp only [applyFunction_fn name params _ _ hf', List.length_map]
  split
  · refine ((elides_evalArgs hev hscoped henv hargs).less 1).bind ?_
    rintro ⟨values, env'⟩ - ⟨hvalues, rfl, rfl⟩
    refine .trace ?_
    have hbodyEnv : (env'.extend (.ofList ((params.map .text).zip values))).WellFormed :=
      henv.extend (Frame.wellFormed_ofList fun binding h => hvalues _ (List.of_mem_zip h).2)
    simp only [← Env.rewrite_extend_zip]
    refine hev.bind hscoped hbodyEnv hbody 1 fun v hv => ?_
    exact .done (Elided.of hv env') fun _ _ => rfl
  · exact .fail

theorem elides_applyComparing (hev : ev.Elides ρ id held) (hscoped : ctx.scopedLet = true)
    {name : Option String} {params : List String} {body : Expr} {args : List Expr}
    {f f' : Procedure} (hf : (Value.fn name params body).procedure = .ok f)
    (hf' : (Value.fn name params (body.rewrite (.serial held))).procedure = .ok f')
    (henv : env.WellFormed) (hbody : body.WellFormed) (hargs : ∀ arg ∈ args, arg.WellFormed) :
    (applyComparing Value.equalGround ev room ctx env f (.list args)).Elides ρ id (Elided held env)
      fun limit room ctx => apply (eval limit) room ctx (env.rewrite (.serial held)) f'
        (.list (args.map (Expr.rewrite (.serial held)))) := by
  rw [applyComparing_fn _ name params body args hf]
  simp only [apply_fn name params _ _ hf']
  cases name.bind Builtin.ofName? with
  | some b =>
    exact .trace (((elides_applyBuiltinComparing hev hscoped b henv hargs).less 1).less 1)
  | none => exact (elides_applyFunction hev hscoped hf hf' henv hbody hargs).less 1

/-! ### Nodes -/

theorem elides_eval {p : Prog Work Result} {R : Result → Result → Prop} {e : Expr}
    (h : p.Elides ρ id R fun limit room ctx => evalNode (eval limit) room ctx env e) :
    p.Elides ρ id R fun limit room ctx => eval limit room ctx env e := by
  intro n r m hp
  obtain ⟨r', hr, hsettles⟩ := h n r m hp
  exact ⟨r', hr, hsettles.eval⟩

theorem elides_lit {v : Value} (hv : v.WellFormed) :
    (evalNode ev room ctx env (.lit v)).Elides ρ id (Elided held env)
      fun limit room ctx => eval limit room ctx (env.rewrite (.serial held))
        ((Expr.lit v).rewrite (.serial held)) := by
  refine elides_eval ?_
  simp only [Expr.rewrite_lit, evalNode_lit]
  exact .trace (.done (Elided.of hv env) fun _ _ => rfl)

theorem elides_var (hρ : ρ.Held held) (henv : env.WellFormed) (name : String) :
    (evalNode ev room ctx env (.var name)).Elides ρ id (Elided held env)
      fun limit room ctx => eval limit room ctx (env.rewrite (.serial held))
        ((Expr.var name).rewrite (.serial held)) := by
  refine elides_eval ?_
  simp only [Expr.rewrite_var, evalNode_var,
    Env.lookup_rewrite (Rewriting.wellFormed_serial hρ.wellFormed) henv]
  refine .trace ?_
  cases hv : env.lookup name with
  | none => exact .fail
  | some v =>
    rw [henv.lookup_eq] at hv
    exact .done (Elided.of (henv.get? hv) env) fun _ _ => rfl

theorem elides_app (hev : ev.Elides ρ id held) (hscoped : ctx.scopedLet = true) {callee : Expr}
    {args : List Expr} (henv : env.WellFormed) (he : (Expr.app callee args).WellFormed) :
    (evalNodeComparing Value.equalGround ev room ctx env (.app callee args)).Elides ρ id
      (Elided held env) fun limit room ctx => eval limit room ctx (env.rewrite (.serial held))
        ((Expr.app callee args).rewrite (.serial held)) := by
  obtain ⟨hcallee, hargs⟩ := (Expr.wellFormed_app callee args).1 he
  refine elides_eval ?_
  simp only [Expr.rewrite_app, evalNode_app, evalNodeComparing_app]
  refine .trace (hev.bind hscoped henv hcallee 2 fun v hv => ?_)
  cases hfn : v.hasType "Function" with
  | false => exact .fail
  | true =>
    obtain ⟨name, params, body, rfl⟩ := hv.eq_fn hfn
    exact (elides_applyComparing hev hscoped rfl rfl henv hv hargs).less 1

theorem elides_letIn (hev : ev.Elides ρ id held) (hscoped : ctx.scopedLet = true) {name : String}
    {value body : Expr} (henv : env.WellFormed) (hvalue : value.WellFormed)
    (hbody : body.WellFormed) :
    (evalNode ev room ctx env (.letIn name value body)).Elides ρ id
      (Elided held env) fun limit room ctx => eval limit room ctx (env.rewrite (.serial held))
        ((Expr.letIn name value body).rewrite (.serial held)) := by
  refine elides_eval ?_
  simp only [Expr.rewrite_letIn, evalNode_letIn]
  refine .trace (hev.bind hscoped henv hvalue 2 fun v hv => ?_)
  simp only [← Env.rewrite_bind]
  refine hev.bind hscoped (henv.bind hv) hbody 2 fun w hw => ?_
  rw [if_pos hscoped]
  exact .done (Elided.of hw env) fun ctx hscoped => by rw [if_pos hscoped]

theorem elides_cond (hev : ev.Elides ρ id held) (hscoped : ctx.scopedLet = true)
    {test yes no : Expr} (henv : env.WellFormed) (htest : test.WellFormed) (hyes : yes.WellFormed)
    (hno : no.WellFormed) :
    (evalNode ev room ctx env (.cond test yes no)).Elides ρ id
      (Elided held env) fun limit room ctx => eval limit room ctx (env.rewrite (.serial held))
        ((Expr.cond test yes no).rewrite (.serial held)) := by
  refine elides_eval ?_
  simp only [Expr.rewrite_cond, evalNode_cond]
  refine .trace (hev.bind hscoped henv htest 2 fun v hv => elides_condition hv fun b => ?_)
  cases b with
  | true => exact (hev _ _ _ _ hscoped henv hyes).less 2
  | false => exact (hev _ _ _ _ hscoped henv hno).less 2

/-- What is spawned is evaluated in place. -/
theorem elides_spawn (hρ : ρ.Held held) (hscoped : ctx.scopedLet = true) (body : Expr) :
    (evalNode ev room ctx env (.spawn body)).Elides ρ id
      (Elided held env) fun limit room ctx => eval limit room ctx (env.rewrite (.serial held))
        ((Expr.spawn body).rewrite (.serial held)) := by
  rw [evalNode_spawn]
  refine .trace_left fun n r m hp => ?_
  cases hp with
  | spawn hwork hp =>
    have hr : r = ⟨.future (.task (.child id (n + 1))), env⟩ := by
      cases hdebug : ctx.debug with
      | true =>
        rw [hdebug] at hp
        cases hp with
        | emit hp =>
          cases hp
          rfl
      | false =>
        rw [hdebug] at hp
        cases hp
        rfl
    rw [hr]
    exact ⟨_, Elided.of (Value.wellFormed_future _) env, hρ.spawned _ _ hwork hscoped⟩

/-- What a future is waited for is in its place already. -/
theorem elides_sync (hρ : ρ.Held held) (hev : ev.Elides ρ id held) (hscoped : ctx.scopedLet = true)
    {body : Expr} (henv : env.WellFormed) (hbody : body.WellFormed) :
    (evalNode ev room ctx env (.sync body)).Elides ρ id
      (Elided held env) fun limit room ctx => eval limit room ctx (env.rewrite (.serial held))
        ((Expr.sync body).rewrite (.serial held)) := by
  rw [evalNode_sync]
  refine .trace_left ((hev _ _ _ _ hscoped henv hbody).bind_left ?_)
  rintro ⟨v, env'⟩ r' ⟨hkeeps, hv, rfl⟩ n r m hp
  cases hkeeps
  obtain ⟨w, k, htake, hrest⟩ := hp.of_bind
  cases hrest
  cases v with
  | future x =>
    cases htake with
    | claim htake =>
      cases htake with
      | await hstored hdone =>
        cases hdone
        obtain ⟨hw, hheld⟩ := hρ.stored x w hstored
        exact ⟨rfl, hw, by rw [Value.rewrite_future, ← hheld]; rfl⟩
  | foreign d => exact hv.elim
  | int | bool | vec | fn => cases htake

theorem elides_evalNodeComparing (hρ : ρ.Held held) (hev : ev.Elides ρ id held) :
    Evaluator.Elides ρ id held (evalNodeComparing Value.equalGround ev) := by
  intro room ctx env e hscoped henv he
  cases e with
  | foreign d => exact he.elim
  | lit v => exact elides_lit he
  | var name => exact elides_var hρ henv name
  | app callee args => exact elides_app hev hscoped henv he
  | letIn name value body => exact elides_letIn hev hscoped henv he.1 he.2
  | cond test yes no => exact elides_cond hev hscoped henv he.1 he.2.1 he.2.2
  | spawn body => exact elides_spawn hρ hscoped body
  | sync body => exact elides_sync hρ hev hscoped henv he

/-- Where an evaluation succeeds that compares ground values only, so does the evaluation without
spawns and syncs. -/
theorem elides_evalComparing (hρ : ρ.Held held) (id : ThreadId) (limit : Nat) :
    Evaluator.Elides ρ id held (evalComparing Value.equalGround limit) := by
  induction limit with
  | zero => exact fun _ _ _ _ _ _ _ => .fail
  | succ limit ih =>
    intro room ctx env e hscoped henv he
    unfold evalComparing
    split
    · exact elides_evalNodeComparing hρ ih room ctx env e hscoped henv he
    · exact .fail

end Evaluator

end ForkJoin

import ForkJoin.Proofs.Run.Sequel

/-!
# Calls with a wrong number of arguments

A function takes as many arguments as it has parameters, and one with the name of a builtin as many
as the builtin. A call with another number of arguments is refused, and all that is looked at of the
arguments is how many there are: the program of the call is the same whatever they are
(`apply_of_count_ne`). So in a run in which the callee of an application comes to such a function
the application fails in the same system as any other application of the callee to as many
arguments (`System.arity_refused`).
-/

namespace ForkJoin

/-- How many arguments a function takes: one with the name of a builtin takes those of the builtin,
whatever parameters it has. -/
def Procedure.takes (f : Procedure) : Except Fault Nat := do
  match ← Builtin.ofFunctionName (← f.name) with
  | some b => return b.arity
  | none => f.arity

/-- A function of a name, or of none, that takes a number of arguments. -/
structure Value.Takes (f : Value) (name : Datum) (k : Nat) : Prop where
  type : f.hasType "Function"
  procedure : ∃ p, f.procedure = .ok p ∧ p.name = .ok name ∧ p.takes = .ok k

/-- A function of the language takes as many arguments as the builtin of its name, if there is one,
and else as many as it has parameters. -/
theorem Value.takes_fn (name : Option String) (params : List String) (body : Expr) :
    (fn name params body).Takes (.ofText? name)
      (((name.bind Builtin.ofName?).map Builtin.arity).getD params.length) where
  type := rfl
  procedure := by
    refine ⟨_, rfl, rfl, ?_⟩
    change (do
      match ← Builtin.ofFunctionName (.ofText? name) with
      | some b => return b.arity
      | none => .ok params.length) = (.ok _ : Except Fault Nat)
    rw [ofFunctionName_ofText?]
    cases name.bind Builtin.ofName? <;> rfl

/-- An expression that applies a callee to a number of arguments. -/
def Expr.Applies (e callee : Expr) (got : Nat) : Prop :=
  ∃ args, e.node = .ok (.app (.ok callee) (.ok args)) ∧ args.count = .ok got

theorem Expr.applies_app (callee : Expr) (args : List Expr) :
    (app callee args).Applies callee args.length :=
  ⟨.list args, rfl, rfl⟩

/-- Some messages as they are printed, if they are. -/
def Context.lines (ctx : Context) (messages : List String) : List String :=
  if ctx.debug then messages.map ctx.line else []

@[simp]
theorem Context.lines_nil (ctx : Context) : ctx.lines [] = [] := by
  unfold lines
  split <;> rfl

theorem Context.lines_append (ctx : Context) (messages more : List String) :
    ctx.lines (messages ++ more) = ctx.lines messages ++ ctx.lines more := by
  unfold lines
  split
  · exact List.map_append
  · rfl

theorem Context.trace_bind {ω α : Type} (ctx : Context) (message : String)
    (messages : List String) (p : Prog ω α) :
    (ctx.trace message >>= fun _ => (ctx.lines messages).foldr .emit p) =
      (ctx.lines (message :: messages)).foldr .emit p := by
  unfold trace lines
  split <;> rfl

/-- What a call of a function of some name tells before it counts its arguments: which builtin it
is, if it is one. -/
def callMessages (name : Datum) : List String :=
  match Builtin.ofFunctionName name with
  | .ok (some b) => ["Builtin: " ++ b.name]
  | _ => []

theorem Builtin.eq_name_of_ofFunctionName {name : Datum} {b : Builtin}
    (h : ofFunctionName name = .ok (some b)) : name = .text b.name := by
  unfold ofFunctionName at h
  cases name with
  | text s =>
    have hfind : all.find? (·.name == s) = some b := Except.ok.inj h
    have hname := List.find?_some hfind
    rw [eq_of_beq hname]
  | null | bool | int | float | list | tuple | record | cell => cases h

theorem nameOr_builtin (b : Builtin) : nameOr "<anonymous>" (.text b.name) = .text b.name := by
  cases b <;> rfl

theorem Args.length_items {args : Args} {got : Nat} (h : args.count = .ok got) :
    args.items.length = got := by
  cases args with
  | list items =>
    cases h
    rfl
  | keys names =>
    cases h
    exact List.length_map _
  | uncounted kind => cases h

/-! ### Refused calls -/

section

variable {ev : Evaluator} {room : Room} {ctx : Context} {env : Env} {args : Args} {got k : Nat}

theorem callBuiltin_of_count_ne {b : Builtin} (hgot : args.count = .ok got) (hne : got ≠ b.arity) :
    callBuiltin ev room ctx env b args =
      .raise (.arityMismatch b.name (.int b.arity) (.int got)) := by
  have hlength : args.items.length = got := Args.length_items hgot
  have hrefused : applyBuiltin ev (room.less 1) ctx env b args.items =
      .raise (.arityMismatch b.name (.int b.arity) (.int args.items.length)) :=
    applyBuiltin_of_length_ne (hlength ▸ hne)
  rw [hlength] at hrefused
  unfold callBuiltin
  split
  case h_1 items => exact hrefused
  case h_2 =>
    rw [hgot, Prog.ofPart_ok_bind, if_neg (by simp [hne])]
    exact hrefused

theorem applyFunction_of_count_ne {f : Procedure} {name : Datum} (hname : f.name = .ok name)
    (harity : f.arity = .ok k) (hgot : args.count = .ok got) (hne : got ≠ k) :
    applyFunction ev room ctx env f args =
      .raise (.arityMismatch (nameOr "<anonymous>" name) (.int k) (.int got)) := by
  have hcheck := checkArity_int (nameOr "<anonymous>" name) k got
  rw [if_neg hne] at hcheck
  simp only [applyFunction, prepareCall, hname, harity, hgot, Prog.ofPart_ok_bind, hcheck,
    Prog.raise_bind]

/-- A call with a wrong number of arguments prints what is printed for a builtin and fails, whatever
the arguments are. -/
theorem apply_of_count_ne {f : Procedure} {name : Datum} (hname : f.name = .ok name)
    (htakes : f.takes = .ok k) (hgot : args.count = .ok got) (hne : got ≠ k) :
    apply ev room ctx env f args = (ctx.lines (callMessages name)).foldr .emit
      (.raise (.arityMismatch (nameOr "<anonymous>" name) (.int k) (.int got))) := by
  have htakes' : (do
      match ← Builtin.ofFunctionName name with
      | some b => return b.arity
      | none => f.arity) = (.ok k : Except Fault Nat) := by
    rw [← htakes, Procedure.takes, hname]
    rfl
  cases hbuiltin : Builtin.ofFunctionName name with
  | error e =>
    rw [hbuiltin] at htakes'
    cases htakes'
  | ok b =>
    rw [hbuiltin] at htakes'
    simp only [apply, hname, hbuiltin, Prog.ofPart_ok_bind, callMessages]
    cases b with
    | none =>
      rw [Context.lines_nil]
      exact applyFunction_of_count_ne hname htakes' hgot hne
    | some b =>
      cases htakes'
      cases Builtin.eq_name_of_ofFunctionName hbuiltin
      rw [nameOr_builtin, ← callBuiltin_of_count_ne hgot hne]
      have htrace := ctx.trace_bind ("Builtin: " ++ b.name) []
        (callBuiltin ev (room.less 1) ctx env b args)
      rwa [Context.lines_nil] at htrace

end

/-- What an application does before it looks at its arguments: it evaluates its callee. -/
def evalCallee (limit : Nat) (room : Room) (ctx : Context) (env : Env) (callee : Expr) :
    Prog Work Result := do
  ctx.trace "Evaluating: APPLICATION"
  eval limit (room.less 2) ctx env callee

def applyCallee (limit : Nat) (room : Room) (ctx : Context) (args : Args) (f : Result) :
    Prog Work Result := do
  if f.value.hasType "Function" then
    apply (eval limit) (room.less 1) ctx f.env (← Prog.ofPart f.value.procedure) args
  else .raise (.notCallable f.value.typeName)

section

variable {limit : Nat} {room : Room} {ctx : Context} {env env' : Env} {e callee : Expr}
  {args : Args}

theorem eval_app (hroom : room.has 2) (ctx : Context) (env : Env)
    (he : e.node = .ok (.app (.ok callee) (.ok args))) :
    eval (limit + 1) room ctx env e =
      evalCallee limit room ctx env callee >>= applyCallee limit room ctx args := by
  rw [eval_succ limit hroom, evalNode, he, evalCallee, bind_assoc]
  rfl

theorem has_of_returns_evalCallee {r : Result}
    (h : (evalCallee limit room ctx env callee).Returns r) : room.has 2 := by
  have hreturns : (eval limit (room.less 2) ctx env callee).Returns r :=
    Prog.returns_trace_bind.1 h
  cases limit with
  | zero => cases hreturns
  | succ limit =>
    have hroom : (room.less 2).has 2 := by
      by_contra hnone
      have hfails : eval (limit + 1) (room.less 2) ctx env callee = .abort .stackExhausted :=
        if_neg hnone
      rw [hfails] at hreturns
      exact Prog.not_returns_abort hreturns
    cases room with
    | none => rfl
    | some left =>
      have hleft : 2 ≤ left - 2 := of_decide_eq_true hroom
      exact decide_eq_true (by omega)

theorem applyCallee_of_procedure {f : Value} {procedure : Procedure} (hf : f.hasType "Function")
    (hprocedure : f.procedure = .ok procedure) :
    applyCallee limit room ctx args ⟨f, env⟩ =
      apply (eval limit) (room.less 1) ctx env procedure args := by
  rw [applyCallee, if_pos hf, hprocedure]
  rfl

theorem applyCallee_of_count_ne {f : Value} {name : Datum} {k got : Nat} (hf : f.Takes name k)
    (hgot : args.count = .ok got) (hne : got ≠ k) :
    applyCallee limit room ctx args ⟨f, env⟩ = (ctx.lines (callMessages name)).foldr .emit
      (.raise (.arityMismatch (nameOr "<anonymous>" name) (.int k) (.int got))) := by
  obtain ⟨procedure, hprocedure, hname, htakes⟩ := hf.procedure
  rw [applyCallee_of_procedure hf.type hprocedure]
  exact apply_of_count_ne hname htakes hgot hne

end

theorem Prog.foldr_emit_raise_bind {ω α β : Type} (lines : List String) (e : LanguageError)
    (more : α → Prog ω β) :
    lines.foldr .emit (raise e) >>= more = lines.foldr .emit (raise e) := by
  induction lines with
  | nil => rfl
  | cons line lines ih => exact congrArg (emit line) ih

/-! ### Refused applications in runs -/

namespace System

variable {stack : Stack} {s last : System} {id : ThreadId} {ids : List ThreadId} {t t' : Thread}
  {limit : Nat} {room : Room} {ctx : Context} {env env' : Env} {e callee : Expr} {f : Value}
  {name : Datum} {k got : Nat}

theorem run_refused (hs : s.Counted) (ht : s.thread id = some t)
    (hrun : (s.setThread id { t with rest := evalCallee limit room ctx env callee }).run stack ids =
      some last)
    (ht' : last.thread id = some t') (hrest : t'.rest = .done ⟨f, env'⟩)
    (hdelivered : t'.delivered = none) (hf : f.Takes name k) (he : e.Applies callee got)
    (hne : got ≠ k) (more : Result → Prog Work Result) :
    (s.setThread id { t with rest := eval (limit + 1) room ctx env e >>= more }).run stack ids =
      some (last.setThread id { t' with
        rest := (ctx.lines (callMessages name)).foldr .emit
          (.raise (.arityMismatch (nameOr "<anonymous>" name) (.int k) (.int got))) }) := by
  obtain ⟨args, hnode, hgot⟩ := he
  have hcounted :
      (s.setThread id { t with rest := evalCallee limit room ctx env callee }).Counted :=
    hs.setThread ht (Nat.le_refl _)
  obtain ⟨t₁, ht₁, hreturns, -⟩ := hcounted.exists_thread_of_run (thread_setThread_self _ _ _) hrun
  cases ht'.symm.trans ht₁
  have hroom : room.has 2 := has_of_returns_evalCallee (hreturns ⟨f, env'⟩ (by rw [hrest]; rfl))
  rw [eval_app hroom ctx env hnode, bind_assoc]
  have hrefused : applyCallee limit room ctx args ⟨f, env'⟩ = _ :=
    applyCallee_of_count_ne hf hgot hne
  have hbind := hs.run_bind ht hrun ht' hrest hdelivered
    fun f => applyCallee limit room ctx args f >>= more
  rwa [hrefused, Prog.foldr_emit_raise_bind] at hbind

/-- **A wrong number of arguments fails before anything is evaluated.** In any system, let a thread
come to an application, with whatever is to be done with its result, and let its callee alone, in a
run of any threads in any order, come to a function that takes `k` arguments and that is not
delivered yet. Then with any other number of arguments, whatever they are, the same run ends the
thread in an error that tells the name of the function, or that it has none, and both numbers. The
other threads and all cells are as the callee left them, and all that the thread has done besides is
to print which builtin is called. An application of the callee to any other arguments, as many, goes
on in the same way in every run that begins with that of the callee. -/
theorem arity_refused (hs : s.Counted) (ht : s.thread id = some t)
    (hrun : (s.setThread id { t with rest := evalCallee limit room ctx env callee }).run stack ids =
      some last)
    (ht' : last.thread id = some t') (hrest : t'.rest = .done ⟨f, env'⟩)
    (hdelivered : t'.delivered = none) (hf : f.Takes name k) (he : e.Applies callee got)
    (hne : got ≠ k) (more : Result → Prog Work Result) :
    (s.setThread id { t with rest := eval (limit + 1) room ctx env e >>= more }).run stack
        (ids ++ (ctx.lines (callMessages name)).map fun _ => id) =
      some (last.setThread id { t' with
        rest := .raise (.arityMismatch (nameOr "<anonymous>" name) (.int k) (.int got)),
        printed := (ctx.lines (callMessages name)).reverse ++ t'.printed }) ∧
    ∀ e' : Expr, e'.Applies callee got → ∀ rest,
      (s.setThread id { t with rest := eval (limit + 1) room ctx env e' >>= more }).run stack
          (ids ++ rest) =
        (s.setThread id { t with rest := eval (limit + 1) room ctx env e >>= more }).run stack
          (ids ++ rest) := by
  have hrefused := run_refused hs ht hrun ht' hrest hdelivered hf he hne more
  refine ⟨run_append hrefused (run_print stack last id t' _ _), fun e' he' rest => ?_⟩
  have hrefused' := run_refused hs ht hrun ht' hrest hdelivered hf he' hne more
  rw [run_append_eq hrefused, run_append_eq hrefused']

/-- A callee that spawns a task and comes to a builtin, traced. The one argument is a name without a
meaning, and it is not looked at: the main thread fails for want of the second. -/
theorem arity_refused_spawning_callee : ∃ last,
    (initial.setThread .main
      { rest := eval 4 none { debug := true } .builtins
          (.app (.letIn "t" (.spawn (.lit (.int 1))) (.var "+")) [.var "nothing"]) >>= .done }).run
        ⟨4, none⟩ (List.replicate 7 .main) = some last ∧
      last.ended? .main = some (.error (.language (.arityMismatch "+" (.int 2) (.int 1)))) ∧
      (last.cell (.task (.child .main 1))).isSome := by
  let callee : Expr := .letIn "t" (.spawn (.lit (.int 1))) (.var "+")
  obtain ⟨last, t', hrun, ht', hrest, hdelivered, hcell⟩ : ∃ last t',
      (initial.setThread .main
        { rest := evalCallee 3 none { debug := true } .builtins callee }).run ⟨4, none⟩
          (List.replicate 6 .main) = some last ∧
      last.thread .main = some t' ∧
      t'.rest = .done ⟨Builtin.add.placeholder,
        Env.builtins.bind "t" (.future (.task (.child .main 1)))⟩ ∧
      t'.delivered = none ∧ (last.cell (.task (.child .main 1))).isSome :=
    ⟨_, _, rfl, rfl, rfl, rfl, rfl⟩
  have htakes : Builtin.add.placeholder.Takes "+" 2 := Value.takes_fn (some "+") ["x", "y"] _
  have hrefused := arity_refused counted_initial rfl hrun ht' hrest hdelivered htakes
    (Expr.applies_app callee [.var "nothing"]) (by decide) .done
  exact ⟨_, hrefused.1, rfl, hcell⟩

end System

end ForkJoin

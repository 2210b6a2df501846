import ForkJoin.Proofs.Flat

/-!
# The chain of frames refines the flat map

An evaluation threads a chain of frames that nobody changes; the flat model changes one map. Read
through flattening, both are the same program: `Prog.map` replaces what a program hands out, the
environment of a spawned task and the environment that an evaluation ends with, by the flattened
map, and what remains is the flat model's program, act by act. So the values, the errors, the lines,
the spawns and the claims are the same and come in the same order, whatever the other threads do.

The two sides meet at two facts about frames. A binding made by a `let` is one insertion, which
holds by definition; the parameters of a call are put over the snapshot in one frame on one side and
inserted one by one on the other, and `Frame.update_ofList` says that this is the same.
-/

namespace ForkJoin

namespace Prog

variable {ω ω' α β γ δ : Type}

def map (f : ω → ω') (g : α → β) : Prog ω α → Prog ω' β
  | .done a => .done (g a)
  | .fail e => .fail e
  | .emit line rest => .emit line (rest.map f g)
  | .spawn work rest => .spawn (f work) fun id => (rest id).map f g
  | .claim cell rest => .claim cell (rest.map f g)
  | .await cell rest => .await cell fun v => (rest v).map f g

theorem map_bind (f : ω → ω') (g : α → β) (h : γ → δ) (p : Prog ω α) (k : α → Prog ω γ)
    (k' : β → Prog ω' δ) (hk : ∀ a, (k a).map f h = k' (g a)) :
    (p.bind k).map f h = (p.map f g).bind k' := by
  induction p with
  | done a => exact hk a
  | fail e => rfl
  | emit line rest ih => simp only [bind, map, ih]
  | spawn work rest ih => simp only [bind, map, ih]
  | claim cell rest ih => simp only [bind, map, ih]
  | await cell rest ih => simp only [bind, map, ih]

@[simp] theorem map_ofPart (f : ω → ω') (x : Except Fault α) :
    (ofPart x : Prog ω α).map f id = ofPart x := by
  cases x <;> rfl

@[simp] theorem map_ofExcept (f : ω → ω') (x : Except Failure α) :
    (ofExcept x : Prog ω α).map f id = ofExcept x := by
  cases x <;> rfl

@[simp] theorem map_trace (f : ω → ω') (ctx : Context) (message : String) :
    (ctx.trace message : Prog ω Unit).map f id = ctx.trace message := by
  unfold Context.trace
  split <;> rfl

@[simp] theorem map_syncValue (f : ω → ω') (v : Value) :
    (syncValue v : Prog ω Value).map f id = syncValue v := by
  unfold syncValue
  split
  · rfl
  · split
    · cases v.cell "claim" <;> rfl
    · rfl

end Prog

/-! ### Frames -/

namespace Frame

def Distinct (f : Frame) : Prop :=
  f.entries.Pairwise fun a b => a.1.key ≠ b.1.key

theorem Distinct.insert {f : Frame} (hf : f.Distinct) (name : Name) (value : Value) :
    (f.insert name value).Distinct := by
  refine List.Pairwise.cons ?_ (hf.filter _)
  intro entry hentry
  have hne := (List.mem_filter.1 hentry).2
  rw [key_written]
  exact fun h => absurd h.symm (of_decide_eq_true hne)

theorem written_cons (entries : List (Name × Value)) (name other : Name) (value : Value) :
    (Frame.mk ((name, value) :: entries)).written other =
      if other.key = name.key then name else (Frame.mk entries).written other := by
  by_cases h : other.key = name.key
  · simp [written, entry?, h]
  · simp [written, entry?, h, Ne.symm h]

theorem written_filter_ne (entries : List (Name × Value)) {name other : Name}
    (h : other.key ≠ name.key) :
    (Frame.mk (entries.filter (·.1.key ≠ name.key))).written other =
      (Frame.mk entries).written other := by
  induction entries with
  | nil => rfl
  | cons entry entries ih =>
    obtain ⟨first, value⟩ := entry
    by_cases hfirst : first.key = name.key
    · rw [written_cons, if_neg (hfirst ▸ h), ← ih]
      simp [hfirst]
    · have hkeep : ((first, value) :: entries).filter (·.1.key ≠ name.key) =
          (first, value) :: entries.filter (·.1.key ≠ name.key) := by
        simp [hfirst]
      rw [hkeep, written_cons, written_cons, ih]

theorem written_insert (f : Frame) (name other : Name) (value : Value) :
    (f.insert name value).written other =
      if other.key = name.key then f.written name else f.written other := by
  rw [insert, written_cons, key_written]
  by_cases h : other.key = name.key
  · simp only [h, if_true]
  · simp only [h, if_false]
    exact written_filter_ne f.entries h

theorem insert_insert_of_key_eq (f : Frame) {first second : Name} (h : second.key = first.key)
    (x y : Value) : (f.insert first x).insert second y = f.insert first y := by
  rw [insert, written_insert, if_pos h, h]
  simp [insert, List.filter_filter]

theorem insert_insert_congr {f g : Frame} {name name' other : Name} {value : Value} (x : Value)
    (hkey : name'.key = name.key) (hother : other.key ≠ name.key)
    (h : f.insert name' value = g.insert name value) :
    (f.insert other x).insert name' value = (g.insert other x).insert name value := by
  have hname : name.key ≠ other.key := Ne.symm hother
  simp only [insert, hkey, Frame.mk.injEq, List.cons.injEq, Prod.mk.injEq, and_true] at h
  obtain ⟨hwritten, hrest⟩ := h
  have hkept : f.written other = g.written other := by
    rw [← written_filter_ne f.entries hother, hrest, written_filter_ne g.entries hother]
  have hf : (f.insert other x).written name' = f.written name' := by
    rw [written_insert, hkey, if_neg hname]
  have hg : (g.insert other x).written name = g.written name := by
    rw [written_insert, if_neg hname]
  have hentries : ∀ h : Frame, (h.insert other x).entries.filter (·.1.key ≠ name.key) =
      (h.written other, x) ::
        (h.entries.filter (·.1.key ≠ name.key)).filter (·.1.key ≠ other.key) := by
    intro h
    rw [insert, List.filter_cons, List.filter_filter, List.filter_filter]
    simp [hother, Bool.and_comm]
  rw [insert, hf, hkey, hentries, hrest, hwritten, hkept]
  rw [insert, hg, hentries]

theorem update_insert (f top : Frame) (htop : top.Distinct) (name : Name) (value : Value) :
    f.update (top.insert name value) = (f.update top).insert name value := by
  obtain ⟨entries⟩ := top
  induction entries with
  | nil => rfl
  | cons entry entries ih =>
    obtain ⟨first, x⟩ := entry
    obtain ⟨hfirst, hrest⟩ := List.pairwise_cons.1 htop
    by_cases h : name.key = first.key
    · have hkept : entries.filter (·.1.key ≠ name.key) = entries := by
        refine List.filter_eq_self.2 fun entry hentry => ?_
        exact decide_eq_true (h ▸ Ne.symm (hfirst entry hentry))
      have hinsert : (Frame.mk ((first, x) :: entries)).insert name value =
          ⟨(first, value) :: entries⟩ := by
        rw [insert, written_cons, if_pos h, List.filter_cons, hkept]
        simp [h]
      rw [hinsert]
      exact (insert_insert_of_key_eq _ h x value).symm
    · have hinsert : (Frame.mk ((first, x) :: entries)).insert name value =
          ⟨((Frame.mk entries).written name, value) :: (first, x) ::
            entries.filter (·.1.key ≠ name.key)⟩ := by
        rw [insert, written_cons, if_neg h, List.filter_cons]
        simp [Ne.symm h]
      rw [hinsert]
      exact insert_insert_congr x (key_written _ name) (Ne.symm h) (ih hrest)

theorem update_foldl_insert (f top : Frame) (htop : top.Distinct)
    (bindings : List (Name × Value)) :
    f.update (Flat.insertAll top bindings) = Flat.insertAll (f.update top) bindings := by
  induction bindings generalizing top with
  | nil => rfl
  | cons binding bindings ih =>
    obtain ⟨name, value⟩ := binding
    simp only [Flat.insertAll, List.foldl_cons] at ih ⊢
    rw [ih _ (htop.insert name value), update_insert f top htop]

theorem update_ofList (f : Frame) (bindings : List (Name × Value)) :
    f.update (.ofList bindings) = Flat.insertAll f bindings :=
  update_foldl_insert f {} List.Pairwise.nil bindings

end Frame

namespace Env

theorem flatten_extend_ofList (env : Env) (bindings : List (Name × Value)) :
    (env.extend (.ofList bindings)).flatten = Flat.insertAll env.flatten bindings :=
  env.flatten.update_ofList bindings

/-- A name means in a chain what it means in the flattened map. -/
theorem meaning_flatten (env : Env) (name : Name) :
    Flat.meaning env.flatten name = env.lookup name := by
  rw [Flat.meaning, get?_flatten]
  rfl

end Env

/-! ### Following an evaluation on the map -/

def Work.flatten (work : Work) : Flat.Work :=
  ⟨work.expr, work.env.flatten, work.context⟩

/-- A result as the flat model sees it: the value and the map that the context is left with. -/
def Result.flatten (r : Result) : Value × Frame :=
  (r.value, r.env.flatten)

namespace Flat

variable {α β γ δ : Type}

/-- A program and what a context does on a map are the same, read through flattening. -/
def Follows (view : α → β × Frame) (p : Prog ForkJoin.Work α) (act : Act β) (map : Frame) : Prop :=
  p.map Work.flatten view = act.run map

theorem Follows.bind {view : α → β × Frame} {view' : γ → δ × Frame} {p : Prog ForkJoin.Work α}
    {act : Act β} {map : Frame} {k : α → Prog ForkJoin.Work γ} {k' : β → Act δ}
    (hp : Follows view p act map) (hk : ∀ a, Follows view' (k a) (k' (view a).1) (view a).2) :
    Follows view' (p >>= k) (act >>= k') map := by
  unfold Follows at hp ⊢
  rw [StateT.run_bind, ← hp]
  exact Prog.map_bind _ _ _ p k _ hk

theorem Follows.lift_bind {view' : γ → δ × Frame} {p : Prog ForkJoin.Work α} {q : Prog Work α}
    {map : Frame} {k : α → Prog ForkJoin.Work γ} {k' : α → Act δ}
    (hp : p.map Work.flatten id = q) (hk : ∀ a, Follows view' (k a) (k' a) map) :
    Follows view' (p >>= k) (lift q >>= k') map := by
  unfold Follows at hk ⊢
  have hrun : (lift q >>= k').run map = q.bind fun a => (k' a).run map :=
    Prog.bind_assoc q _ _
  rw [hrun, ← hp]
  exact Prog.map_bind _ _ _ p k _ hk

theorem Follows.lift_result {p : Prog ForkJoin.Work Value} {q : Prog Work Value}
    (hp : p.map Work.flatten id = q) (env : Env) :
    Follows Result.flatten (do let v ← p; return ⟨v, env⟩) (lift q) env.flatten := by
  unfold Follows
  rw [← hp]
  exact Prog.map_bind _ _ _ p _ _ fun _ => rfl

theorem Follows.done {view : α → β × Frame} {a : α} {b : β} {map : Frame}
    (h : view a = (b, map)) : Follows view (.done a) (pure b) map :=
  congrArg Prog.done h

theorem Follows.raise (view : α → β × Frame) (e : LanguageError) (map : Frame) :
    Follows view (.raise e) (lift (.raise e)) map := rfl

theorem Follows.get {view : α → β × Frame} {p : Prog ForkJoin.Work α} {map : Frame}
    {k : Frame → Act β} (h : Follows view p (k map) map) : Follows view p (get >>= k) map := h

theorem Follows.modify {view : α → β × Frame} {p : Prog ForkJoin.Work α} {map : Frame}
    {change : Frame → Frame} {k : PUnit → Act β} (h : Follows view p (k ⟨⟩) (change map)) :
    Follows view p (modify change >>= k) map := h

/-- What is done on a copy is followed there, and the context goes on with its own map. -/
theorem Follows.onCopy {p : Prog ForkJoin.Work Result} {act : Act Value} {copy : Frame}
    (callerEnv : Env) (hp : Follows Result.flatten p act copy) :
    Follows Result.flatten (do let r ← p; return ⟨r.value, callerEnv⟩) (onCopy copy act)
      callerEnv.flatten := by
  have hrun : (Flat.onCopy copy act).run callerEnv.flatten =
      (act.run copy).bind fun r => .done (r.1, callerEnv.flatten) := rfl
  unfold Follows at hp ⊢
  rw [hrun, ← hp]
  exact Prog.map_bind _ _ _ p _ _ fun _ => rfl

def FollowedBy (ev : ForkJoin.Evaluator) (fev : Evaluator) : Prop :=
  ∀ room ctx env e, Follows Result.flatten (ev room ctx env e) (fev room ctx e) env.flatten

variable {ev : ForkJoin.Evaluator} {fev : Evaluator}

theorem follows_evalPart (hev : FollowedBy ev fev) (room : Room) (ctx : Context) (env : Env)
    (e : Except Fault Expr) :
    Follows Result.flatten (ForkJoin.evalPart ev room ctx env e)
      (do fev room ctx (← part e)) env.flatten := by
  refine Follows.lift_bind (Prog.map_ofPart _ e) fun e => ?_
  exact hev room ctx env e

theorem Follows.evalPart_bind (hev : FollowedBy ev fev) {view : α → β × Frame} (room : Room)
    (ctx : Context) (env : Env) (e : Except Fault Expr) {k : Result → Prog ForkJoin.Work α}
    {k' : Value → Act β} (hk : ∀ r, Follows view (k r) (k' r.value) r.env.flatten) :
    Follows view (ForkJoin.evalPart ev room ctx env e >>= k)
      (part e >>= fun e => fev room ctx e >>= k') env.flatten := by
  rw [← bind_assoc]
  exact Follows.bind (follows_evalPart hev room ctx env e) hk

theorem follows_evalArgs (hev : FollowedBy ev fev) (room : Room) (ctx : Context) (env : Env)
    (args : List Expr) :
    Follows (fun r : List Value × Env => (r.1, r.2.flatten)) (ForkJoin.evalArgs ev room ctx env args)
      (evalArgs fev room ctx args) env.flatten := by
  induction args generalizing env with
  | nil => rfl
  | cons arg args ih =>
    refine Follows.bind (hev _ ctx env arg) fun first => ?_
    refine Follows.bind (ih first.env) fun rest => ?_
    exact Follows.done rfl

theorem follows_applyFunction (hev : FollowedBy ev fev) (room : Room) (ctx : Context) (env : Env)
    (f : Procedure) (args : Args) :
    Follows Result.flatten (ForkJoin.applyFunction ev room ctx env f args)
      (applyFunction fev room ctx f args) env.flatten := by
  unfold ForkJoin.applyFunction ForkJoin.prepareCall applyFunction
  simp only [bind_assoc]
  refine Follows.lift_bind (Prog.map_ofPart _ f.name) fun name => ?_
  refine Follows.lift_bind (Prog.map_ofPart _ f.arity) fun arity => ?_
  refine Follows.lift_bind (Prog.map_ofPart _ args.count) fun got => ?_
  cases checkArity (nameOr "<anonymous>" name) (.int arity) got with
  | error e => rfl
  | ok _ =>
    refine Follows.get ?_
    simp only [bind_assoc]
    refine Follows.bind (follows_evalArgs hev _ ctx env args.items) fun values => ?_
    refine Follows.lift_bind (Prog.map_ofPart _ f.params) fun params => ?_
    simp only [pure_bind]
    refine Follows.lift_bind (Prog.map_trace _ ctx _) fun _ => ?_
    simp only [ForkJoin.evalPart, bind_assoc]
    refine Follows.lift_bind (Prog.map_ofPart _ f.body) fun body => ?_
    refine Follows.onCopy values.2 ?_
    rw [← Env.flatten_extend_ofList]
    exact hev _ ctx _ body

theorem follows_unary (hev : FollowedBy ev fev) (room : Room) (ctx : Context) (env : Env)
    (x : Expr) (f : Value → Except Failure Value) :
    Follows Result.flatten (ForkJoin.applyBuiltin.unary ev room ctx env x f)
      (applyBuiltin.unary fev room ctx x f) env.flatten := by
  refine Follows.bind (hev _ ctx env x) fun r => ?_
  exact Follows.lift_result (Prog.map_ofExcept _ _) r.env

theorem follows_binary (hev : FollowedBy ev fev) (room : Room) (ctx : Context) (env : Env)
    (x y : Expr) (f : Value → Value → Except Failure Value) :
    Follows Result.flatten (ForkJoin.applyBuiltin.binary ev room ctx env x y f)
      (applyBuiltin.binary fev room ctx x y f) env.flatten := by
  refine Follows.bind (hev _ ctx env x) fun r => ?_
  refine Follows.bind (hev _ ctx r.env y) fun s => ?_
  exact Follows.lift_result (Prog.map_ofExcept _ _) s.env

theorem follows_applyBuiltin (hev : FollowedBy ev fev) (room : Room) (ctx : Context) (env : Env)
    (b : Builtin) (args : List Expr) :
    Follows Result.flatten (ForkJoin.applyBuiltin ev room ctx env b args)
      (applyBuiltin fev room ctx b args) env.flatten := by
  unfold ForkJoin.applyBuiltin
  split
  · exact follows_binary hev _ ctx env _ _ _
  · exact follows_binary hev _ ctx env _ _ _
  · exact follows_binary hev _ ctx env _ _ _
  · exact follows_binary hev _ ctx env _ _ _
  · refine Follows.bind (hev _ ctx env _) fun r => ?_
    refine Follows.lift_bind (Prog.map_ofExcept _ _) fun b => ?_
    exact hev _ ctx r.env _
  · exact follows_unary hev _ ctx env _ _
  · exact follows_unary hev _ ctx env _ _
  · -- The cases above are ruled out for the map as well, so both refuse the arguments.
    rw [applyBuiltin]
    · exact Follows.raise _ _ _
    all_goals assumption

theorem follows_callBuiltin (hev : FollowedBy ev fev) (room : Room) (ctx : Context) (env : Env)
    (b : Builtin) (args : Args) :
    Follows Result.flatten (ForkJoin.callBuiltin ev room ctx env b args)
      (callBuiltin fev room ctx b args) env.flatten := by
  cases args with
  | list items => exact follows_applyBuiltin hev _ ctx env b items
  | keys names | uncounted kind =>
    refine Follows.lift_bind (Prog.map_ofPart _ _) fun got => ?_
    split
    · rfl
    · exact follows_applyBuiltin hev _ ctx env b _

theorem follows_apply (hev : FollowedBy ev fev) (room : Room) (ctx : Context) (env : Env)
    (f : Procedure) (args : Args) :
    Follows Result.flatten (ForkJoin.apply ev room ctx env f args)
      (apply fev room ctx f args) env.flatten := by
  refine Follows.lift_bind (Prog.map_ofPart _ f.name) fun name => ?_
  refine Follows.lift_bind (Prog.map_ofPart _ _) fun builtin => ?_
  cases builtin with
  | some b =>
    refine Follows.lift_bind (Prog.map_trace _ ctx _) fun _ => ?_
    exact follows_callBuiltin hev _ ctx env b args
  | none => exact follows_applyFunction hev _ ctx env f args

theorem follows_evalNode (hev : FollowedBy ev fev) :
    FollowedBy (ForkJoin.evalNode ev) (evalNode fev) := by
  intro room ctx env e
  refine Follows.lift_bind (Prog.map_ofPart _ e.node) fun node => ?_
  refine Follows.lift_bind (Prog.map_trace _ ctx _) fun _ => ?_
  cases node with
  | lit value => cases value <;> rfl
  | var name =>
    refine Follows.lift_bind (Prog.map_ofPart _ name) fun name => ?_
    refine Follows.lift_bind (Prog.map_ofPart _ _) fun key => ?_
    refine Follows.get ?_
    rw [Env.meaning_flatten]
    cases env.lookup key <;> rfl
  | app callee args =>
    refine Follows.evalPart_bind hev _ ctx env callee fun f => ?_
    split
    · refine Follows.lift_bind (Prog.map_ofPart _ _) fun procedure => ?_
      refine Follows.lift_bind (Prog.map_ofPart _ args) fun args => ?_
      exact follows_apply hev _ ctx f.env procedure args
    · rfl
  | letIn name value body =>
    refine Follows.evalPart_bind hev _ ctx env value fun bound => ?_
    refine Follows.lift_bind (Prog.map_ofPart _ name) fun name => ?_
    refine Follows.lift_bind (Prog.map_ofPart _ _) fun key => ?_
    refine Follows.get ?_
    refine Follows.modify ?_
    refine Follows.evalPart_bind hev _ ctx (bound.env.bind key bound.value) body fun result => ?_
    cases ctx.scopedLet <;> rfl
  | cond test yes no =>
    refine Follows.evalPart_bind hev _ ctx env test fun r => ?_
    refine Follows.lift_bind (Prog.map_ofExcept _ _) fun b => ?_
    exact follows_evalPart hev _ ctx r.env _
  | spawn body =>
    refine Follows.lift_bind (Prog.map_ofPart _ body) fun body => ?_
    refine Follows.get ?_
    refine Follows.lift_bind (p := .spawn ⟨body, env, ctx⟩ .done) rfl fun id => ?_
    cases ctx.debug <;> rfl
  | sync body =>
    refine Follows.evalPart_bind hev _ ctx env body fun r => ?_
    exact Follows.lift_result (Prog.map_syncValue _ _) r.env
  | unknown type => rfl

theorem followedBy_eval (limit : Nat) : FollowedBy (ForkJoin.eval limit) (eval limit) := by
  induction limit with
  | zero => exact fun _ _ _ _ => rfl
  | succ limit ih =>
    intro room ctx env e
    unfold ForkJoin.eval eval
    split
    · exact follows_evalNode ih room ctx env e
    · rfl

/-- **The chain refines the flat map.** Started on any chain of frames, an evaluation is act by act
the flat model started on the flattened chain: it prints, spawns and claims the same in the same
order, each task is given a copy of the map, and it ends with the same error, or with the same value
and a chain that flattens to the map which the flat model leaves. The tasks then do the same in
their turn. -/
theorem chain_refines_flat_map (stack : Stack) (ctx : Context) (env : Env) (e : Expr) :
    (stack.eval ctx env e).map Work.flatten Result.flatten =
        (eval stack.depth stack.room ctx e).run env.flatten ∧
      ∀ (id : ThreadId) (work : ForkJoin.Work),
        (Thread.task stack id work).rest.map Work.flatten Result.flatten =
          (work.flatten.act stack id).run work.flatten.map :=
  ⟨followedBy_eval stack.depth stack.room ctx env e,
    fun id work => followedBy_eval stack.depth stack.room (work.context.child id.label) work.env
      work.expr⟩

end Flat

end ForkJoin

import ForkJoin.Proofs.WellFormed
import ForkJoin.Proofs.Within.Value

/-!
# Values rewritten

A rewriting says what is put in the place of futures, of spawns and of syncs, wherever they stand in
a value or an expression, the bodies of functions and the literals in them included. Everything else
is kept, so a rewritten environment binds the same names, and each of them means the rewritten value.
Data from outside are not looked into.

Two rewritings are of use. One calls cells by other names; the other takes the spawns and the syncs
away and puts a value in the place of each future.
-/

namespace ForkJoin

/-- What is put in the place of futures, of spawns and of syncs. -/
structure Rewriting where
  future : CellId → Value := .future
  spawn : Expr → Expr := .spawn
  sync : Expr → Expr := .sync

mutual

def Value.rewrite (σ : Rewriting) : Value → Value
  | .int n => .int n
  | .bool b => .bool b
  | .vec items => .vec (Value.rewriteAll σ items)
  | .fn name params body => .fn name params (body.rewrite σ)
  | .future x => σ.future x
  | .foreign d => .foreign d

def Value.rewriteAll (σ : Rewriting) : List Value → List Value
  | [] => []
  | v :: vs => v.rewrite σ :: Value.rewriteAll σ vs

def Expr.rewrite (σ : Rewriting) : Expr → Expr
  | .lit value => .lit (value.rewrite σ)
  | .var name => .var name
  | .app callee args => .app (callee.rewrite σ) (Expr.rewriteAll σ args)
  | .letIn name value body => .letIn name (value.rewrite σ) (body.rewrite σ)
  | .cond test yes no => .cond (test.rewrite σ) (yes.rewrite σ) (no.rewrite σ)
  | .spawn body => σ.spawn (body.rewrite σ)
  | .sync body => σ.sync (body.rewrite σ)
  | .foreign d => .foreign d

def Expr.rewriteAll (σ : Rewriting) : List Expr → List Expr
  | [] => []
  | e :: es => e.rewrite σ :: Expr.rewriteAll σ es

end

section

variable {σ τ : Rewriting} {cells : CellId → Prop}

namespace Value

theorem rewriteAll_eq_map (vs : List Value) : rewriteAll σ vs = vs.map (rewrite σ) := by
  induction vs with
  | nil => rfl
  | cons v vs ih => rw [rewriteAll, ih, List.map_cons]

@[simp] theorem rewrite_int (n : Int) : (int n).rewrite σ = int n := rfl

@[simp] theorem rewrite_bool (b : Bool) : (bool b).rewrite σ = bool b := rfl

@[simp] theorem rewrite_vec (items : List Value) :
    (vec items).rewrite σ = vec (items.map (rewrite σ)) :=
  congrArg vec (rewriteAll_eq_map items)

@[simp] theorem rewrite_fn (name : Option String) (params : List String) (body : Expr) :
    (fn name params body).rewrite σ = fn name params (body.rewrite σ) := rfl

@[simp] theorem rewrite_future (x : CellId) : (future x).rewrite σ = σ.future x := rfl

@[simp] theorem rewrite_foreign (d : Datum) : (foreign d).rewrite σ = foreign d := rfl

end Value

namespace Expr

theorem rewriteAll_eq_map (es : List Expr) : rewriteAll σ es = es.map (rewrite σ) := by
  induction es with
  | nil => rfl
  | cons e es ih => rw [rewriteAll, ih, List.map_cons]

@[simp] theorem rewrite_lit (v : Value) : (lit v).rewrite σ = lit (v.rewrite σ) := rfl

@[simp] theorem rewrite_var (name : String) : (var name).rewrite σ = var name := rfl

@[simp] theorem rewrite_app (callee : Expr) (args : List Expr) :
    (app callee args).rewrite σ = app (callee.rewrite σ) (args.map (rewrite σ)) :=
  congrArg (app (callee.rewrite σ)) (rewriteAll_eq_map args)

@[simp] theorem rewrite_letIn (name : String) (value body : Expr) :
    (letIn name value body).rewrite σ = letIn name (value.rewrite σ) (body.rewrite σ) := rfl

@[simp] theorem rewrite_cond (test yes no : Expr) :
    (cond test yes no).rewrite σ =
      cond (test.rewrite σ) (yes.rewrite σ) (no.rewrite σ) := rfl

@[simp] theorem rewrite_spawn (body : Expr) :
    (spawn body).rewrite σ = σ.spawn (body.rewrite σ) := rfl

@[simp] theorem rewrite_sync (body : Expr) :
    (sync body).rewrite σ = σ.sync (body.rewrite σ) := rfl

end Expr

mutual

/-- Rewritings that treat the mentioned cells alike, and spawns and syncs too, rewrite alike. -/
theorem Value.rewrite_congr (hspawn : σ.spawn = τ.spawn) (hsync : σ.sync = τ.sync)
    (hfuture : ∀ x, cells x → σ.future x = τ.future x) :
    ∀ v : Value, v.Within cells → v.rewrite σ = v.rewrite τ
  | .int _, _ | .bool _, _ | .foreign _, _ => rfl
  | .future x, h => hfuture x ((Value.within_future x).1 h)
  | .vec items, h => congrArg Value.vec
      (Value.rewriteAll_congr hspawn hsync hfuture items ((Value.within_vec items).1 h))
  | .fn name params body, h => congrArg (Value.fn name params)
      (Expr.rewrite_congr hspawn hsync hfuture body ((Value.within_fn name params body).1 h))

theorem Value.rewriteAll_congr (hspawn : σ.spawn = τ.spawn) (hsync : σ.sync = τ.sync)
    (hfuture : ∀ x, cells x → σ.future x = τ.future x) :
    ∀ vs : List Value, (∀ v ∈ vs, v.Within cells) → Value.rewriteAll σ vs = Value.rewriteAll τ vs
  | [], _ => rfl
  | v :: vs, h => by
    obtain ⟨hv, hvs⟩ := List.forall_mem_cons.1 h
    rw [Value.rewriteAll, Value.rewriteAll, Value.rewrite_congr hspawn hsync hfuture v hv,
      Value.rewriteAll_congr hspawn hsync hfuture vs hvs]

theorem Expr.rewrite_congr (hspawn : σ.spawn = τ.spawn) (hsync : σ.sync = τ.sync)
    (hfuture : ∀ x, cells x → σ.future x = τ.future x) :
    ∀ e : Expr, e.Within cells → e.rewrite σ = e.rewrite τ
  | .lit value, h => congrArg Expr.lit
      (Value.rewrite_congr hspawn hsync hfuture value ((Expr.within_lit value).1 h))
  | .var _, _ | .foreign _, _ => rfl
  | .app callee args, h => by
    obtain ⟨hcallee, hargs⟩ := (Expr.within_app callee args).1 h
    rw [Expr.rewrite, Expr.rewrite, Expr.rewrite_congr hspawn hsync hfuture callee hcallee,
      Expr.rewriteAll_congr hspawn hsync hfuture args hargs]
  | .letIn name value body, h => by
    obtain ⟨hvalue, hbody⟩ := (Expr.within_letIn name value body).1 h
    rw [Expr.rewrite, Expr.rewrite, Expr.rewrite_congr hspawn hsync hfuture value hvalue,
      Expr.rewrite_congr hspawn hsync hfuture body hbody]
  | .cond test yes no, h => by
    obtain ⟨htest, hyes, hno⟩ := (Expr.within_cond test yes no).1 h
    rw [Expr.rewrite, Expr.rewrite, Expr.rewrite_congr hspawn hsync hfuture test htest,
      Expr.rewrite_congr hspawn hsync hfuture yes hyes,
      Expr.rewrite_congr hspawn hsync hfuture no hno]
  | .spawn body, h => by
    rw [Expr.rewrite, Expr.rewrite, hspawn,
      Expr.rewrite_congr hspawn hsync hfuture body ((Expr.within_spawn body).1 h)]
  | .sync body, h => by
    rw [Expr.rewrite, Expr.rewrite, hsync,
      Expr.rewrite_congr hspawn hsync hfuture body ((Expr.within_sync body).1 h)]

theorem Expr.rewriteAll_congr (hspawn : σ.spawn = τ.spawn) (hsync : σ.sync = τ.sync)
    (hfuture : ∀ x, cells x → σ.future x = τ.future x) :
    ∀ es : List Expr, (∀ e ∈ es, e.Within cells) → Expr.rewriteAll σ es = Expr.rewriteAll τ es
  | [], _ => rfl
  | e :: es, h => by
    obtain ⟨he, hes⟩ := List.forall_mem_cons.1 h
    rw [Expr.rewriteAll, Expr.rewriteAll, Expr.rewrite_congr hspawn hsync hfuture e he,
      Expr.rewriteAll_congr hspawn hsync hfuture es hes]

end

mutual

theorem Value.rewrite_id : ∀ v : Value, v.rewrite {} = v
  | .int _ | .bool _ | .foreign _ | .future _ => rfl
  | .vec items => congrArg Value.vec (Value.rewriteAll_id items)
  | .fn name params body => congrArg (Value.fn name params) (Expr.rewrite_id body)

theorem Value.rewriteAll_id : ∀ vs : List Value, Value.rewriteAll {} vs = vs
  | [] => rfl
  | v :: vs => by rw [Value.rewriteAll, Value.rewrite_id v, Value.rewriteAll_id vs]

theorem Expr.rewrite_id : ∀ e : Expr, e.rewrite {} = e
  | .lit value => congrArg Expr.lit (Value.rewrite_id value)
  | .var _ | .foreign _ => rfl
  | .app callee args => by
    rw [Expr.rewrite, Expr.rewrite_id callee, Expr.rewriteAll_id args]
  | .letIn name value body => by
    rw [Expr.rewrite, Expr.rewrite_id value, Expr.rewrite_id body]
  | .cond test yes no => by
    rw [Expr.rewrite, Expr.rewrite_id test, Expr.rewrite_id yes, Expr.rewrite_id no]
  | .spawn body | .sync body => by rw [Expr.rewrite, Expr.rewrite_id body]

theorem Expr.rewriteAll_id : ∀ es : List Expr, Expr.rewriteAll {} es = es
  | [] => rfl
  | e :: es => by rw [Expr.rewriteAll, Expr.rewrite_id e, Expr.rewriteAll_id es]

end

/-! ### Well-formed rewritings -/

structure Rewriting.WellFormed (σ : Rewriting) : Prop where
  future : ∀ x, (σ.future x).WellFormed
  spawn : ∀ e, e.WellFormed → (σ.spawn e).WellFormed
  sync : ∀ e, e.WellFormed → (σ.sync e).WellFormed

mutual

theorem Value.WellFormed.rewrite (hσ : σ.WellFormed) :
    ∀ {v : Value}, v.WellFormed → (v.rewrite σ).WellFormed
  | .int _, _ | .bool _, _ => trivial
  | .vec _, h => Value.AllWellFormed.rewriteAll hσ h
  | .fn _ _ _, h => Expr.WellFormed.rewrite hσ h
  | .future x, _ => hσ.future x
  | .foreign _, h => h.elim

theorem Value.AllWellFormed.rewriteAll (hσ : σ.WellFormed) :
    ∀ {vs : List Value}, Value.AllWellFormed vs → Value.AllWellFormed (Value.rewriteAll σ vs)
  | [], _ => trivial
  | _ :: _, h => ⟨Value.WellFormed.rewrite hσ h.1, Value.AllWellFormed.rewriteAll hσ h.2⟩

theorem Expr.WellFormed.rewrite (hσ : σ.WellFormed) :
    ∀ {e : Expr}, e.WellFormed → (e.rewrite σ).WellFormed
  | .lit _, h => Value.WellFormed.rewrite hσ h
  | .var _, _ => trivial
  | .app _ _, h => ⟨Expr.WellFormed.rewrite hσ h.1, Expr.AllWellFormed.rewriteAll hσ h.2⟩
  | .letIn _ _ _, h => ⟨Expr.WellFormed.rewrite hσ h.1, Expr.WellFormed.rewrite hσ h.2⟩
  | .cond _ _ _, h => ⟨Expr.WellFormed.rewrite hσ h.1, Expr.WellFormed.rewrite hσ h.2.1,
      Expr.WellFormed.rewrite hσ h.2.2⟩
  | .spawn _, h => hσ.spawn _ (Expr.WellFormed.rewrite hσ h)
  | .sync _, h => hσ.sync _ (Expr.WellFormed.rewrite hσ h)
  | .foreign _, h => h.elim

theorem Expr.AllWellFormed.rewriteAll (hσ : σ.WellFormed) :
    ∀ {es : List Expr}, Expr.AllWellFormed es → Expr.AllWellFormed (Expr.rewriteAll σ es)
  | [], _ => trivial
  | _ :: _, h => ⟨Expr.WellFormed.rewrite hσ h.1, Expr.AllWellFormed.rewriteAll hσ h.2⟩

end

/-! ### Environments -/

def Frame.rewrite (σ : Rewriting) (f : Frame) : Frame :=
  ⟨f.entries.map fun entry => (entry.1, entry.2.rewrite σ)⟩

def Env.rewrite (σ : Rewriting) (env : Env) : Env :=
  ⟨env.frames.map (Frame.rewrite σ)⟩

namespace Frame

theorem entry?_rewrite (f : Frame) (name : Name) :
    Frame.entry? (f.rewrite σ) name =
      (f.entry? name).map fun entry => (entry.1, entry.2.rewrite σ) :=
  List.find?_map

@[simp] theorem get?_rewrite (f : Frame) (name : Name) :
    (f.rewrite σ).get? name = (f.get? name).map (Value.rewrite σ) := by
  rw [get?, entry?_rewrite, get?, Option.map_map, Option.map_map]
  rfl

@[simp] theorem written_rewrite (f : Frame) (name : Name) :
    (f.rewrite σ).written name = f.written name := by
  rw [written, entry?_rewrite, written, Option.map_map]
  rfl

theorem rewrite_insert (f : Frame) (name : Name) (v : Value) :
    (f.insert name v).rewrite σ = (f.rewrite σ).insert name (v.rewrite σ) := by
  rw [insert, insert, written_rewrite]
  simp only [rewrite, List.map_cons, List.filter_map]
  rfl

theorem rewrite_ofList (bindings : List (Name × Value)) :
    (ofList bindings).rewrite σ =
      ofList (bindings.map fun binding => (binding.1, binding.2.rewrite σ)) := by
  have hfold : ∀ f : Frame,
      (bindings.foldl (fun f binding => f.insert binding.1 binding.2) f).rewrite σ =
        (bindings.map fun binding => (binding.1, binding.2.rewrite σ)).foldl
          (fun f binding => f.insert binding.1 binding.2) (f.rewrite σ) := by
    induction bindings with
    | nil => exact fun f => rfl
    | cons binding bindings ih =>
      intro f
      rw [List.foldl_cons, ih, rewrite_insert]
      rfl
  exact hfold {}

end Frame

namespace Env

theorem rewrite_extend (env : Env) (f : Frame) :
    (env.extend f).rewrite σ = (env.rewrite σ).extend (f.rewrite σ) := rfl

theorem rewrite_extend_zip (env : Env) (names : List Name) (values : List Value) :
    (env.extend (.ofList (names.zip values))).rewrite σ =
      (env.rewrite σ).extend (.ofList (names.zip (values.map (Value.rewrite σ)))) := by
  rw [rewrite_extend, Frame.rewrite_ofList, List.zip_map_right]
  rfl

theorem rewrite_bind (env : Env) (name : Name) (v : Value) :
    (env.bind name v).rewrite σ = (env.rewrite σ).bind name (v.rewrite σ) := rfl

theorem get?_rewrite (env : Env) (name : Name) :
    (env.rewrite σ).get? name = (env.get? name).map (Value.rewrite σ) := by
  obtain ⟨frames⟩ := env
  induction frames with
  | nil => rfl
  | cons f frames ih =>
    simp only [get?, rewrite, List.map_cons, List.findSome?_cons, Frame.get?_rewrite] at ih ⊢
    cases f.get? name with
    | none => exact ih
    | some v => rfl

theorem lookup_rewrite {env : Env} (hσ : σ.WellFormed) (henv : env.WellFormed) (name : Name) :
    (env.rewrite σ).lookup name = (env.lookup name).map (Value.rewrite σ) := by
  rw [henv.lookup_eq, lookup, get?_rewrite]
  cases hv : env.get? name with
  | none => rfl
  | some v =>
    have hrewritten := Value.WellFormed.rewrite hσ (henv.get? hv)
    cases hvalue : v.rewrite σ with
    | foreign d =>
      rw [hvalue] at hrewritten
      exact hrewritten.elim
    | _ => simp [hvalue]

theorem rewrite_congr {env : Env} (hspawn : σ.spawn = τ.spawn) (hsync : σ.sync = τ.sync)
    (hfuture : ∀ x, cells x → σ.future x = τ.future x) (henv : env.Within cells) :
    env.rewrite σ = env.rewrite τ := by
  refine congrArg Env.mk (List.map_congr_left fun f hf => ?_)
  refine congrArg Frame.mk (List.map_congr_left fun entry hentry => ?_)
  rw [Value.rewrite_congr hspawn hsync hfuture entry.2 (henv f hf entry hentry)]

theorem rewrite_id (env : Env) : env.rewrite {} = env := by
  obtain ⟨frames⟩ := env
  refine congrArg Env.mk ?_
  have hframe : ∀ f : Frame, f.rewrite {} = f := by
    rintro ⟨entries⟩
    refine congrArg Frame.mk ?_
    simp only [Value.rewrite_id, Prod.eta, List.map_id']
  exact (List.map_congr_left fun f _ => hframe f).trans (List.map_id frames)

end Env

end

end ForkJoin

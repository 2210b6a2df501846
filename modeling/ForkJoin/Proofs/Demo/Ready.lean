import ForkJoin.Proofs.Gives
import ForkJoin.Proofs.Session.Interpreters
import ForkJoin.Proofs.WellFormed

/-!
# Environments that the demos run in

Names have dynamic scope, so a function that the demos map over numbers runs in an environment in
which the parameters of the maps are bound over what they meant before. `Env.SameBut` says of an
environment that it differs from another one in given names only, and it is kept through all levels
of a recursion. The one thing asked of a mapped function is that it gives the same in all
environments that differ in the local names of the maps (`Env.Applies`).
-/

namespace ForkJoin

/-- An environment that binds all names as another one does, but for some. -/
def Env.SameBut (names : List String) (env env' : Env) : Prop :=
  ∀ name : Name, (∀ n ∈ names, name.key ≠ .text n) → env'.get? name = env.get? name

theorem Frame.get?_ofList_eq_none {bindings : List (Name × Value)} {name : Name}
    (h : ∀ binding ∈ bindings, name.key ≠ binding.1.key) :
    (ofList bindings).get? name = none := by
  have hfold : ∀ f : Frame, f.get? name = none →
      (bindings.foldl (fun f binding => f.insert binding.1 binding.2) f).get? name = none := by
    induction bindings with
    | nil => exact fun f hf => hf
    | cons binding bindings ih =>
      obtain ⟨hfirst, hrest⟩ := List.forall_mem_cons.1 h
      exact fun f hf => ih hrest _ (by rw [get?_insert, if_neg hfirst, hf])
  exact hfold {} rfl

theorem Value.WellFormed.ne_null {v : Value} (hv : v.WellFormed) : v ≠ .foreign .null := by
  rintro rfl
  exact hv

namespace Env

variable {names params : List String} {env env' : Env}

theorem lookup_of_get? {name : Name} {v : Value} (h : env.get? name = some v)
    (hv : v ≠ .foreign .null) : env.lookup name = some v := by
  unfold lookup
  rw [h]
  split
  · rename_i hnull
    exact absurd (Option.some.inj hnull) hv
  · rfl

theorem lookup_inBody {values : List Value} {p : String} {v : Value}
    (hp : (Frame.ofList ((params.map .text).zip values)).get? p = some v)
    (hv : v ≠ .foreign .null) : (env.inBody params values).lookup p = some v :=
  lookup_of_get? (by rw [inBody, get?_extend, hp, Option.some_or]) hv

theorem lookup_bind_self {name : String} {v : Value} (hv : v ≠ .foreign .null) :
    (env.bind name v).lookup name = some v :=
  lookup_of_get? (by rw [get?_bind, if_pos rfl]) hv

theorem lookup_bind_of_ne {name other : String} (h : other ≠ name) (v : Value) :
    (env.bind name v).lookup other = env.lookup other := by
  unfold lookup
  rw [get?_bind, if_neg (by simpa using h)]

namespace SameBut

theorem refl (names : List String) (env : Env) : env.SameBut names env :=
  fun _ _ => rfl

theorem inBody (h : env.SameBut names env') (hparams : ∀ p ∈ params, p ∈ names)
    (values : List Value) : env.SameBut names (env'.inBody params values) := by
  intro name hname
  rw [Env.inBody, get?_extend, Frame.get?_ofList_eq_none, Option.none_or, h name hname]
  intro binding hbinding
  obtain ⟨p, hp, hkey⟩ := List.mem_map.1 (List.of_mem_zip hbinding).1
  rw [← hkey]
  exact hname p (hparams p hp)

theorem bind (h : env.SameBut names env') {n : String} (hn : n ∈ names) (v : Value) :
    env.SameBut names (env'.bind n v) := by
  intro name hname
  rw [get?_bind, Name.key_text, if_neg (hname n hn), h name hname]

theorem get?_eq (h : env.SameBut names env') {n : String} (hn : n ∉ names) :
    env'.get? n = env.get? n :=
  h n fun _ hp heq => hn (Name.text.inj heq ▸ hp)

theorem lookup_eq (h : env.SameBut names env') {n : String} (hn : n ∉ names) :
    env'.lookup n = env.lookup n := by
  unfold lookup
  rw [h.get?_eq hn]

end SameBut

theorem Resolves.of_sameBut {b : Builtin} (h : env.Resolves b) (hsame : env.SameBut names env')
    (hb : b.name ∉ names) : env'.Resolves b := by
  obtain ⟨params, body, hlookup⟩ := h
  exact ⟨params, body, (hsame.lookup_eq hb).trans hlookup⟩

end Env

/-! ### Environments that the demos run in -/

/-- The parameters and other names that the maps bind while they run. -/
def Definition.locals : List String :=
  ["A", "B", "n", "f", "v", "pending", "rest"]

/-- An environment with the functions of the demos, in which the names of the builtins mean the
builtins. -/
structure Env.Ready (env : Env) : Prop where
  resolves : ∀ b, env.Resolves b
  installed : ∀ d ∈ Definition.demos, env.get? d.name = some d.value

/-- A function that is applied to a value ends with an outcome and spawns and claims nothing, in
every environment that differs from this one in local names of the maps only and for every
thread. -/
def Env.Applies (env : Env) (depth : Nat) (ctx : Context) (f x : Value) (o : Outcome) : Prop :=
  ∀ task env', env.SameBut Definition.locals env' → ∀ limit room, Affords limit room depth →
    ((eval limit room (ctx.child task) env' (.app (.lit f) [.lit x])).quiet.ended?).map
      (·.map Result.value) = some o

theorem Expr.not_lets_apply (f x : Value) (name : Name) (value : Expr) :
    ¬ (Expr.app (.lit f) [.lit x]).Lets name value := by
  have hlit : ∀ v, ¬ (Expr.lit v).Lets name value := by
    rintro v (⟨hnode, -⟩ | ⟨hnode, hpart, -⟩)
    · cases hnode
    · cases hnode
      cases hpart
  rintro (⟨hnode, -⟩ | ⟨hnode, hpart, h⟩)
  · cases hnode
  · cases hnode
    cases hpart with
    | callee => exact hlit f h
    | argument harg => exact hlit x (List.mem_singleton.1 harg ▸ h)

namespace Env.Applies

variable {env env' : Env} {depth : Nat} {ctx : Context} {f x : Value} {o : Outcome}

theorem gives (h : env.Applies depth ctx f x o) (hsame : env.SameBut Definition.locals env')
    (task : Datum) : (Expr.app (.lit f) [.lit x]).Gives depth (ctx.child task) env' o :=
  gives_of_ended? (Expr.not_lets_apply f x) (h task env' hsame)

theorem of_gives (h : ∀ task env', env.SameBut Definition.locals env' →
    (Expr.app (.lit f) [.lit x]).Gives depth (ctx.child task) env' o) :
    env.Applies depth ctx f x o := by
  intro task env' hsame limit room hroom
  rw [h task env' hsame limit room hroom]
  cases o <;> rfl

end Env.Applies

namespace Env.Ready

variable {env env' : Env}

theorem of_sameBut (h : env.Ready) (hsame : env.SameBut Definition.locals env') : env'.Ready where
  resolves b := (h.resolves b).of_sameBut hsame (by cases b <;> decide)
  installed d hd := by
    have hname : d.name ∉ Definition.locals := by
      revert d
      decide
    rw [hsame.get?_eq hname, h.installed d hd]

theorem lookup (h : env.Ready) {d : Definition} (hd : d ∈ Definition.demos) :
    env.lookup d.name = some (.fn (some d.name) d.params d.body) :=
  lookup_of_get? (h.installed d hd) (by simp)

end Env.Ready

theorem Interpreter.DemosInstalled.ready {i i' : Interpreter} (h : i.DemosInstalled i')
    (hi : ∀ b, i.env.Resolves b) : i'.env.Ready where
  resolves b := by
    have hname : i'.env.get? b.name = i.env.get? b.name :=
      h.other b.name (by cases b <;> decide)
    obtain ⟨params, body, hb⟩ := hi b
    exact ⟨params, body, by rw [Env.lookup, hname, ← Env.lookup, hb]⟩
  installed := h.demo

theorem Env.builtins_resolves (b : Builtin) : builtins.Resolves b := by
  cases b <;> exact ⟨_, _, rfl⟩

section

variable {env env' : Env} {ctx : Context} {depth : Nat} {x : Value} {fname : Option String}
  {params : List String} {body : Expr} {o : Outcome}

theorem gives_apply_head {xs : List Value} (hhead : env.Resolves .head)
    (hf : env.lookup "f" = some (.fn fname params body))
    (hv : env.lookup "v" = some (.vec (x :: xs)))
    (happly : (Expr.app (.lit (.fn fname params body)) [.lit x]).Gives depth ctx env o) :
    (Expr.call "f" [.call "head" [.var "v"]]).Gives (depth + 3) ctx env o :=
  gives_call_singleton (Nat.succ_pos _) hf ((gives_head hhead (gives_var hv)).mono (by omega))
    (happly.mono (by omega))

/-- Doubling adds a value to itself, which fails unless it is an integer. -/
theorem gives_double_body (henv : env.Ready) (hx : x ≠ .foreign .null) :
    Definition.double.body.Gives 2 ctx (env.inBody Definition.double.params [x])
      (arithmetic .add "+" x x) := by
  have hadd : (env.inBody Definition.double.params [x]).Resolves .add :=
    (henv.resolves .add).of_sameBut
      ((Env.SameBut.refl Definition.double.params env).inBody (fun _ hp => hp) _) (by decide)
  have hvar : (Expr.var "x").Gives 1 ctx (env.inBody Definition.double.params [x]) (.ok x) :=
    gives_var (Env.lookup_inBody rfl hx)
  exact gives_binary (b := .add) hadd (fun _ _ _ => rfl) hvar hvar fun _ _ => rfl

theorem Env.Ready.applies_double (henv : env.Ready) (ctx : Context) (hx : x ≠ .foreign .null) :
    env.Applies 3 ctx Definition.double.value x (arithmetic .add "+" x x) := by
  refine .of_gives fun task env' hsame => ?_
  exact gives_app_fn ((gives_lit _).mono (by decide)) rfl
    (.cons ((gives_lit _).mono (by decide)) .nil) rfl (gives_double_body (henv.of_sameBut hsame) hx)

end

end ForkJoin

import ForkJoin.Proofs.Demo.Ready

/-!
# Mapping in one thread

`pmap` applies a function to the elements of a vector, the first one first, in the thread that calls
it. What it gives is found by induction on the vector, for every environment that differs from the
first one in local names only, since each level binds the parameters anew.
-/

namespace ForkJoin

variable {env env' : Env} {ctx : Context} {depth : Nat} {A B : Value} {fname : Option String}
  {params : List String} {body : Expr} {r : Value → Outcome}

def Env.inMap (env : Env) (A B f : Value) (xs : List Value) : Env :=
  env.inBody Definition.recursivePmap.params [A, B, .int xs.length, f, .vec xs]

theorem Env.SameBut.inMap (h : env.SameBut Definition.locals env') (A B f : Value)
    (xs : List Value) : env.SameBut Definition.locals (env'.inMap A B f xs) :=
  h.inBody (by decide) _

theorem gives_recursivePmap_test (xs : List Value)
    (henv : (env.inMap A B (.fn fname params body) xs).Ready) :
    (Expr.call "=" [.var "n", .lit (.int 0)]).Gives 2 ctx
      (env.inMap A B (.fn fname params body) xs) (.ok (.bool xs.isEmpty)) := by
  have hn : (env.inMap A B (.fn fname params body) xs).lookup "n" = some (.int xs.length) :=
    Env.lookup_inBody rfl (by simp)
  refine gives_eq (henv.resolves .eq) (gives_var hn) (gives_lit _) fun room hroom => ?_
  rw [Value.equal, Room.need_of_has (Room.has_of_le hroom (by decide))]
  cases xs with
  | nil => rfl
  | cons x xs => exact congrArg Except.ok (beq_false_of_ne (by simp only [List.length_cons]; omega))

theorem givesAll_recursivePmap (hA : A.WellFormed) (hB : B.WellFormed) (x : Value)
    (xs : List Value) (henv : (env.inMap A B (.fn fname params body) (x :: xs)).Ready) :
    GivesAll 2 ctx (env.inMap A B (.fn fname params body) (x :: xs))
      [.var "A", .var "B", .call "-" [.var "n", .lit (.int 1)], .var "f", .call "tail" [.var "v"]]
      [A, B, .int xs.length, .fn fname params body, .vec xs] := by
  have hn : (env.inMap A B (.fn fname params body) (x :: xs)).lookup "n" =
      some (.int (x :: xs).length) := Env.lookup_inBody rfl (by simp)
  have hv : (env.inMap A B (.fn fname params body) (x :: xs)).lookup "v" =
      some (.vec (x :: xs)) := Env.lookup_inBody rfl (by simp)
  have hlength : ((x :: xs).length : Int) - 1 = xs.length := by simp
  have hsub : (Expr.call "-" [.var "n", .lit (.int 1)]).Gives 2 ctx
      (env.inMap A B (.fn fname params body) (x :: xs)) (.ok (.int xs.length)) :=
    hlength ▸ gives_sub (henv.resolves .sub) (gives_var hn) (gives_lit (.int 1))
  refine .cons ((gives_var ?_).mono (by decide)) (.cons ((gives_var ?_).mono (by decide))
    (.cons hsub (.cons ((gives_var ?_).mono (by decide))
      (.cons (gives_tail (henv.resolves .tail) (gives_var hv)) .nil))))
  · exact Env.lookup_inBody rfl hA.ne_null
  · exact Env.lookup_inBody rfl hB.ne_null
  · exact Env.lookup_inBody rfl (by simp)

/-- One level for each element: the element is mapped before the others are. -/
theorem gives_recursivePmap (hA : A.WellFormed) (hB : B.WellFormed) (xs : List Value)
    (henv : env.Ready)
    (hf : ∀ x ∈ xs, env.Applies depth ctx (.fn fname params body) x (r x))
    (hsame : env.SameBut Definition.locals env') :
    Definition.recursivePmap.body.Gives (3 * xs.length + depth + 3) ctx
      (env'.inMap A B (.fn fname params body) xs) ((xs.mapM r).map .vec) := by
  induction xs generalizing env' with
  | nil =>
    have hready := henv.of_sameBut (hsame.inMap A B (.fn fname params body) [])
    exact gives_choose (hready.resolves .choose)
      ((gives_recursivePmap_test [] hready).mono (by omega)) ((gives_lit _).mono (by omega))
  | cons x xs ih =>
    have hsame' := hsame.inMap A B (.fn fname params body) (x :: xs)
    have hready := henv.of_sameBut hsame'
    obtain ⟨hfx, hfxs⟩ := List.forall_mem_cons.1 hf
    have hv : (env'.inMap A B (.fn fname params body) (x :: xs)).lookup "v" =
        some (.vec (x :: xs)) := Env.lookup_inBody rfl (by simp)
    have hhead := gives_apply_head (hready.resolves .head) (Env.lookup_inBody rfl (by simp)) hv
      (hfx.gives hsame' ctx.task)
    have htail := gives_call_fn (by omega)
      (hready.lookup (d := .recursivePmap) (by simp [Definition.demos])) rfl
      ((givesAll_recursivePmap hA hB x xs hready).mono (by omega)) rfl (ih hfxs hsame')
    refine gives_choose (hready.resolves .choose)
      ((gives_recursivePmap_test (x :: xs) hready).mono (by omega)) ?_
    have hcons := gives_cons (hready.resolves .cons) (hhead.mono (by omega)) htail
    rw [← List.mapM_cons] at hcons
    exact hcons.mono (by simp only [List.length_cons]; omega)

/-- `pmap` gives the vector of what its function gives for the elements, or raises the failure of
the first element that has one. -/
theorem gives_pmap (hA : A.WellFormed) (hB : B.WellFormed) {xs : List Value} (henv : env.Ready)
    (hf : ∀ x ∈ xs, env.Applies depth ctx (.fn fname params body) x (r x)) {args : List Expr}
    (hargs : GivesAll (3 * xs.length + depth + 4) ctx env args
      [A, B, .int xs.length, .fn fname params body, .vec xs]) :
    (Expr.call "pmap" args).Gives (3 * xs.length + depth + 5) ctx env
      ((xs.mapM r).map .vec) := by
  have hsame := (Env.SameBut.refl Definition.locals env).inMap A B (.fn fname params body) xs
  have hready := henv.of_sameBut hsame
  refine gives_call_fn (by omega) (henv.lookup (d := .pmap) (by simp [Definition.demos])) rfl hargs
    rfl ?_
  refine gives_call_fn (by omega)
    (hready.lookup (d := .recursivePmap) (by simp [Definition.demos])) rfl ?_ rfl
    (gives_recursivePmap hA hB xs henv hf hsame)
  have hvars : GivesAll 1 ctx (env.inMap A B (.fn fname params body) xs)
      [.var "A", .var "B", .var "n", .var "f", .var "v"]
      [A, B, .int xs.length, .fn fname params body, .vec xs] :=
    .cons (gives_var (Env.lookup_inBody rfl hA.ne_null))
      (.cons (gives_var (Env.lookup_inBody rfl hB.ne_null))
        (.cons (gives_var (Env.lookup_inBody rfl (by simp)))
          (.cons (gives_var (Env.lookup_inBody rfl (by simp)))
            (.cons (gives_var (Env.lookup_inBody rfl (by simp))) .nil))))
  exact hvars.mono (by omega)

end ForkJoin

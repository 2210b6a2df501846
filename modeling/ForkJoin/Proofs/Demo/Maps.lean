import ForkJoin.Proofs.Demo.SpawnMap

/-!
# Two maps compared

`pmap` and `spawn_map` in a session, for a function that has no effects. Where the function gives
values for all elements both maps return the vector of these values. Where it fails for some, `pmap`
raises the failure of the first of them, at which it stops, and `spawn_map` that of the last, since
it has started all tasks by then and takes their results from the back
(`System.Served.maps_finish`).
-/

namespace ForkJoin

section

variable {stack : Stack} {out : Provided} {s : System} {t : Thread} {ctx : Context} {env : Env}
  {depth : Nat} {A B : Value} {fname : Option String} {params : List String} {body : Expr}
  {r : Value → Outcome} {xs : List Value} {args : List Expr}

/-- The way of `spawn_map` from its call on, if its tasks end with what the function gives for the
elements. -/
theorem exists_goes_spawnMap (henv : env.Ready)
    (hf : ∀ x ∈ xs, env.Applies depth ctx (.fn fname params body) x (r x))
    (hstack : Affords stack.depth stack.room (4 * xs.length + depth + 5))
    (hargs : GivesAll (3 * xs.length + 3) ctx env args [.fn fname params body, .vec xs])
    (first : Nat) :
    ∃ promised works steps, (∀ i x, xs[i]? = some x → promised (first + i + 1) = r x) ∧
      List.Forall₂ (Work.Maps (.fn fname params body)) works xs ∧
      (stack.eval ctx env (.call "spawn_map" args)).quiet.Goes stack first promised first
        (spawnsAfter first works ++ claimsUntilFailure (resultsAfter first (xs.map r)).reverse)
        (((mapFromBack r xs).map .vec).map (⟨·, env⟩)) (first + xs.length) steps := by
  let promised : Nat → Outcome := fun m => ((xs.map r)[m - first - 1]?).getD (.ok (.vec []))
  have hpromised : ∀ i x, xs[i]? = some x → promised (first + i + 1) = r x := by
    intro i x hx
    have hi : first + i + 1 - first - 1 = i := by omega
    simp only [promised, hi, List.getElem?_map, hx, Option.map_some, Option.getD_some]
  obtain ⟨works, steps, hworks, hgoes⟩ := goes_spawnMap (hstack.mono (by omega)) xs henv hf
    (.refl _ _) (hstack.mono (by omega)) (hargs.mono (by omega)) (Nat.le_refl _) hpromised
  exact ⟨promised, works, steps, hpromised, hworks, hgoes⟩

namespace System.Served

theorem pmap_finishes (hout : out.WellFormed) (hs : Served stack out s)
    (ht : s.thread .main = some t) (hA : A.WellFormed) (hB : B.WellFormed) (henv : env.Ready)
    (hf : ∀ x ∈ xs, env.Applies depth ctx (.fn fname params body) x (r x))
    (hstack : Affords stack.depth stack.room (4 * xs.length + depth + 5))
    (hargs : GivesAll (3 * xs.length + 3) ctx env args
      [A, B, .int xs.length, .fn fname params body, .vec xs]) :
    (s.setThread .main { t with rest := stack.eval ctx env (.call "pmap" args) }).Finishes stack
      t.spawned (((xs.mapM r).map .vec).map (⟨·, env⟩)) [] :=
  hs.finishes_of_quiet hout ht
    (gives_pmap hA hB henv hf (hargs.mono (by omega)) _ _ (hstack.mono (by omega)))

/-- The cells of the tasks come to hold what the function gives for the elements. -/
theorem spawnMap_finishes (hout : out.WellFormed) (hs : Served stack out s)
    (ht : s.thread .main = some t) (henv : env.Ready)
    (hf : ∀ x ∈ xs, env.Applies depth ctx (.fn fname params body) x (r x))
    (hstack : Affords stack.depth stack.room (4 * xs.length + depth + 5))
    (hargs : GivesAll (3 * xs.length + 3) ctx env args [.fn fname params body, .vec xs]) :
    ∃ works, List.Forall₂ (Work.Maps (.fn fname params body)) works xs ∧
      (s.setThread .main { t with rest := stack.eval ctx env (.call "spawn_map" args) }).Finishes
        stack t.spawned (((mapFromBack r xs).map .vec).map (⟨·, env⟩))
        (spawnsAfter t.spawned works ++
          claimsUntilFailure (resultsAfter t.spawned (xs.map r)).reverse) ∧
      ∀ ids last i x c o, (s.setThread .main { t with
          rest := stack.eval ctx env (.call "spawn_map" args) }).run stack ids = some last →
        xs[i]? = some x → last.cell (.task (.child .main (t.spawned + i + 1))) = some c →
          c.outcome = some o → o = r x := by
  obtain ⟨promised, works, steps, hpromised, hworks, hgoes⟩ :=
    exists_goes_spawnMap henv hf hstack hargs t.spawned
  have hnodup := nodup_spawnsAfter_claims t.spawned works (xs.map r)
  refine ⟨works, hworks, hs.finishes hout ht hgoes hnodup, fun ids last i x c o hrun hx hc ho => ?_⟩
  rw [← hpromised i x hx]
  exact hs.outcome_eq hout ht hgoes hnodup hrun (by omega) hc ho

/-- The two maps for a function without effects, applied to any vector, in both modes of `let` and
in every order of the steps. They return the same vector of values. Of several failures `pmap`
raises the first and `spawn_map` the last. And `spawn_map` spawns a task for each element, in order,
before it claims anything; then it claims the cells of the tasks, which hold what the function gives
for the elements, from the last one back, each once, up to the first that holds a failure. -/
theorem maps_finish (hout : out.WellFormed) (hs : Served stack out s)
    (ht : s.thread .main = some t) (ctx : Context) (hA : A.WellFormed) (hB : B.WellFormed)
    (henv : env.Ready) (hf : ∀ x ∈ xs, env.Applies depth ctx (.fn fname params body) x (r x))
    (hstack : Affords stack.depth stack.room (4 * xs.length + depth + 5))
    {pmapArgs spawnMapArgs : List Expr}
    (hpmap : GivesAll (3 * xs.length + 3) ctx env pmapArgs
      [A, B, .int xs.length, .fn fname params body, .vec xs])
    (hspawnMap : GivesAll (3 * xs.length + 3) ctx env spawnMapArgs
      [.fn fname params body, .vec xs]) :
    ∃ (o o' : Outcome) (works : List Work),
      (s.setThread .main { t with rest := stack.eval ctx env (.call "pmap" pmapArgs) }).Finishes
        stack t.spawned (o.map (⟨·, env⟩)) [] ∧
      (s.setThread .main { t with
          rest := stack.eval ctx env (.call "spawn_map" spawnMapArgs) }).Finishes
        stack t.spawned (o'.map (⟨·, env⟩)) (spawnsAfter t.spawned works ++
          claimsUntilFailure (resultsAfter t.spawned (xs.map r)).reverse) ∧
      (∀ ys, xs.map r = ys.map Except.ok → o = .ok (.vec ys) ∧ o' = .ok (.vec ys)) ∧
      (∀ before x after e, xs = before ++ x :: after → r x = .error e →
        ((∀ y ∈ before, (r y).isOk) → o = .error e) ∧
          ((∀ y ∈ after, (r y).isOk) → o' = .error e)) ∧
      List.Forall₂ (Work.Maps (.fn fname params body)) works xs ∧
      ∀ ids last i x c result, (s.setThread .main { t with
          rest := stack.eval ctx env (.call "spawn_map" spawnMapArgs) }).run stack ids = some last →
        xs[i]? = some x → last.cell (.task (.child .main (t.spawned + i + 1))) = some c →
          c.outcome = some result → result = r x := by
  obtain ⟨works, hworks, hspawn, hheld⟩ :=
    hs.spawnMap_finishes hout ht henv hf hstack hspawnMap
  refine ⟨_, _, works, hs.pmap_finishes hout ht hA hB henv hf hstack hpmap, hspawn,
    fun ys hys => ⟨?_, ?_⟩, fun before x after e hxs hx => ⟨fun hbefore => ?_, fun hafter => ?_⟩,
    hworks, hheld⟩
  · rw [mapM_eq_ok hys]
    rfl
  · rw [mapFromBack_eq_ok hys]
    rfl
  · rw [hxs, mapM_eq_error hbefore hx]
    rfl
  · rw [hxs, mapFromBack_eq_error hx hafter]
    rfl

end System.Served

end

/-- Doubling a truth value, a vector and a number. -/
theorem System.Served.maps_finish_of_failures :
    let stack : Stack := ⟨20, none⟩
    let env : Env := (Interpreter.installDemos ⟨stack, 0, .compact⟩ {}).env
    let start (e : Expr) : System :=
      (System.launch .none (.done (.ofValue (.vec [])))).setThread .main
        { rest := stack.eval {} env e }
    let failure (v : Value) : Failure := .language (operandMismatch "+" "argument 1" "Integer" v)
    let v : Expr := .lit (.vec [.bool true, .vec [], .int 2])
    (start (.call "pmap" [.lit (.int 0), .lit (.int 0), .lit (.int 3), .var "double", v])).Finishes
        stack 0 (.error (failure (.bool true))) [] ∧
      ∃ works : List Work, works.length = 3 ∧
        (start (.call "spawn_map" [.var "double", v])).Finishes stack 0
          (.error (failure (.vec [])))
          (spawnsAfter 0 works ++
            [.claim (.task (.child .main 3)), .claim (.task (.child .main 2))]) := by
  intro stack env start failure v
  have hready : env.Ready :=
    (Interpreter.demosInstalled {} stack 0).ready Env.builtins_resolves
  have hdouble : env.lookup "double" = some Definition.double.value :=
    hready.lookup (d := .double) (by simp [Definition.demos])
  have hf : ∀ x ∈ [.bool true, .vec [], .int 2], env.Applies 3 {} Definition.double.value x
      (arithmetic .add "+" x x) := by
    intro x hx
    refine hready.applies_double {} ?_
    rintro rfl
    simp at hx
  have hmap : GivesAll 12 {} env [.var "double", v]
      [Definition.double.value, .vec [.bool true, .vec [], .int 2]] :=
    .cons ((gives_var hdouble).mono (by decide)) (.cons ((gives_lit _).mono (by decide)) .nil)
  have hlit : ∀ n, (Expr.lit (.int n)).Gives 12 {} env (.ok (.int n)) :=
    fun n => (gives_lit _).mono (by decide)
  have hstack : Affords stack.depth stack.room 20 := ⟨Nat.le_refl 20, rfl⟩
  obtain ⟨o, o', works, hpmap, hspawnMap, -, hfailures, hworks, -⟩ :=
    System.Served.maps_finish Provided.wellFormed_none .launch rfl {} (Value.wellFormed_int 0)
      (Value.wellFormed_int 0) hready hf hstack
      (.cons (hlit 0) (.cons (hlit 0) (.cons (hlit 3) hmap))) hmap
  obtain rfl : o = .error (failure (.bool true)) :=
    (hfailures [] (.bool true) [.vec [], .int 2] _ rfl rfl).1 (by simp)
  have hlast : ∀ y ∈ [Value.int 2], (arithmetic .add "+" y y).isOk := by
    intro y hy
    cases List.mem_singleton.1 hy
    rfl
  obtain rfl : o' = .error (failure (.vec [])) :=
    (hfailures [.bool true] (.vec []) [.int 2] _ rfl rfl).2 hlast
  exact ⟨hpmap, works, hworks.length_eq, hspawnMap⟩

end ForkJoin

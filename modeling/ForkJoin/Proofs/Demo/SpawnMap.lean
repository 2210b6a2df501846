import ForkJoin.Proofs.Demo.Pmap
import ForkJoin.Proofs.Run.Finishing

/-!
# Mapping in tasks

`spawn_map` applies a function to each element of a vector in a task of its own. It goes down the
vector and spawns the tasks, and on the way back it claims their results. So it is the last element
whose result it takes first, and of several failures the one that it raises is the last.

Each level of the recursion binds the names `pending` and `rest` over those of the levels further
out. What is left to do at a level (`goes_join`) reads them after the levels below have returned,
which give the environment back as they found it.
-/

namespace ForkJoin

section

variable {α β : Type} {f : α → Except Failure β} {before after xs : List α} {ys : List β} {x : α}
  {e : Failure}

theorem mapM_eq_ok (h : xs.map f = ys.map Except.ok) : xs.mapM f = .ok ys := by
  have hmap : (xs.map f).mapM id = xs.mapM f := List.mapM_map
  have hpure : (ys.map Except.ok).mapM id = (pure ys : Except Failure (List β)) := by
    rw [List.mapM_map]
    exact List.mapM_pure.trans (congrArg pure (List.map_id ys))
  rw [← hmap, h, hpure]
  rfl

theorem mapM_eq_error (hbefore : ∀ y ∈ before, (f y).isOk) (hx : f x = .error e) :
    (before ++ x :: after).mapM f = .error e := by
  induction before with
  | nil =>
    rw [List.nil_append, List.mapM_cons, hx]
    rfl
  | cons y before ih =>
    obtain ⟨hy, hbefore⟩ := List.forall_mem_cons.1 hbefore
    rw [List.cons_append, List.mapM_cons, ih hbefore]
    cases hfy : f y with
    | error e' =>
      rw [hfy] at hy
      cases hy
    | ok b => rfl

/-- What comes of the elements of a list that are taken from the last to the first: their values, in
the order of the elements, or the failure of the last one that has one. -/
def mapFromBack (f : α → Except Failure β) (xs : List α) : Except Failure (List β) :=
  (xs.reverse.mapM f).map List.reverse

theorem mapFromBack_cons (f : α → Except Failure β) (x : α) (xs : List α) :
    mapFromBack f (x :: xs) = (do
      let ys ← mapFromBack f xs
      let y ← f x
      return y :: ys) := by
  rw [mapFromBack, List.reverse_cons, List.mapM_append, List.mapM_cons, mapFromBack]
  cases xs.reverse.mapM f with
  | error e => rfl
  | ok ys =>
    cases f x with
    | error e => rfl
    | ok y => exact congrArg Except.ok (List.reverse_append)

theorem mapFromBack_eq_ok (h : xs.map f = ys.map Except.ok) : mapFromBack f xs = .ok ys := by
  have hreverse : xs.reverse.map f = ys.reverse.map Except.ok := by
    rw [List.map_reverse, h, List.map_reverse]
  rw [mapFromBack, mapM_eq_ok hreverse]
  exact congrArg Except.ok (List.reverse_reverse ys)

theorem mapFromBack_eq_error (hx : f x = .error e) (hafter : ∀ y ∈ after, (f y).isOk) :
    mapFromBack f (before ++ x :: after) = .error e := by
  have hreverse : (before ++ x :: after).reverse = after.reverse ++ x :: before.reverse := by simp
  rw [mapFromBack, hreverse, mapM_eq_error (fun y hy => hafter y (List.mem_reverse.1 hy)) hx]
  rfl

end

/-! ### Spawns and claims of a map -/

def spawnsAfter (n : Nat) (works : List Work) : List Act :=
  works.mapIdx fun i work => .spawn (.child .main (n + i + 1)) work

def resultsAfter (n : Nat) (outcomes : List Outcome) : List (CellId × Outcome) :=
  outcomes.mapIdx fun i o => (.task (.child .main (n + i + 1)), o)

/-- The claims of a thread that takes results in order and stops at the first failure. -/
def claimsUntilFailure : List (CellId × Outcome) → List Act
  | [] => []
  | (x, .ok _) :: results => .claim x :: claimsUntilFailure results
  | (x, .error _) :: _ => [.claim x]

structure Work.Maps (f : Value) (work : Work) (x : Value) : Prop where
  expr : work.expr = .call "f" [.call "head" [.var "v"]]
  function : work.env.lookup "f" = some f
  element : ∃ xs, work.env.lookup "v" = some (.vec (x :: xs))

theorem spawnsAfter_cons (n : Nat) (work : Work) (works : List Work) :
    spawnsAfter n (work :: works) =
      .spawn (.child .main (n + 1)) work :: spawnsAfter (n + 1) works := by
  simp [spawnsAfter, List.mapIdx_cons, Nat.add_assoc, Nat.add_comm 1]

theorem resultsAfter_cons (n : Nat) (o : Outcome) (outcomes : List Outcome) :
    resultsAfter n (o :: outcomes) =
      (.task (.child .main (n + 1)), o) :: resultsAfter (n + 1) outcomes := by
  simp [resultsAfter, List.mapIdx_cons, Nat.add_assoc, Nat.add_comm 1]

theorem claimsUntilFailure_append (rs rs' : List (CellId × Outcome)) :
    claimsUntilFailure (rs ++ rs') = claimsUntilFailure rs ++
      if (rs.mapM Prod.snd).isOk then claimsUntilFailure rs' else [] := by
  induction rs with
  | nil => rfl
  | cons result rs ih =>
    obtain ⟨x, o⟩ := result
    cases o with
    | error e => rfl
    | ok v =>
      rw [List.cons_append, claimsUntilFailure, ih, claimsUntilFailure, List.mapM_cons]
      cases rs.mapM Prod.snd <;> rfl

theorem mapM_resultsAfter (n : Nat) (outcomes : List Outcome) :
    (resultsAfter n outcomes).reverse.mapM Prod.snd = outcomes.reverse.mapM id := by
  have hsnd : (resultsAfter n outcomes).map Prod.snd = outcomes := by
    induction outcomes generalizing n with
    | nil => rfl
    | cons o outcomes ih => rw [resultsAfter_cons, List.map_cons, ih]
  rw [← Function.id_comp Prod.snd, ← List.mapM_map, List.map_reverse, hsnd]

theorem claims_resultsAfter_cons (n : Nat) (r : Value → Outcome) (x : Value) (xs : List Value) :
    claimsUntilFailure (resultsAfter n ((x :: xs).map r)).reverse =
      claimsUntilFailure (resultsAfter (n + 1) (xs.map r)).reverse ++
        if (mapFromBack r xs).isOk then [.claim (.task (.child .main (n + 1)))] else [] := by
  have hgathered : (xs.map r).reverse.mapM id = xs.reverse.mapM r := by
    rw [← List.map_reverse, List.mapM_map, Function.id_comp]
  rw [List.map_cons, resultsAfter_cons, List.reverse_cons, claimsUntilFailure_append,
    mapM_resultsAfter, hgathered, mapFromBack]
  cases xs.reverse.mapM r <;> cases r x <;> rfl

theorem claimsUntilFailure_sublist (rs : List (CellId × Outcome)) :
    (claimsUntilFailure rs).Sublist (rs.map fun result => .claim result.1) := by
  induction rs with
  | nil => exact .slnil
  | cons result rs ih =>
    obtain ⟨x, o⟩ := result
    cases o with
    | ok v => exact ih.cons_cons _
    | error e => exact (List.nil_sublist _).cons_cons _

theorem pairwise_mapIdx {α β : Type} {R : β → β → Prop} {f : Nat → α → β}
    (h : ∀ i j a b, i < j → R (f i a) (f j b)) (l : List α) : (l.mapIdx f).Pairwise R := by
  refine List.pairwise_iff_getElem.2 fun i j hi hj hij => ?_
  rw [List.getElem_mapIdx, List.getElem_mapIdx]
  exact h i j _ _ hij

/-- Tasks have different names, so a map spawns none of them twice and claims none of their cells
twice. -/
theorem nodup_spawnsAfter_claims (n : Nat) (works : List Work) (outcomes : List Outcome) :
    (spawnsAfter n works ++ claimsUntilFailure (resultsAfter n outcomes).reverse).Nodup := by
  have hspawns : (spawnsAfter n works).Nodup := by
    refine pairwise_mapIdx (fun i j _ _ hij heq => ?_) works
    injection heq with htask
    injection htask with _ hnumber
    omega
  have hcells : ((resultsAfter n outcomes).map fun result => Act.claim result.1).Nodup := by
    refine List.pairwise_map.2 (pairwise_mapIdx (fun i j _ _ hij heq => ?_) outcomes)
    injection heq with hcell
    injection hcell with htask
    injection htask with _ hnumber
    omega
  have hclaims := claimsUntilFailure_sublist (resultsAfter n outcomes).reverse
  rw [List.map_reverse] at hclaims
  refine List.nodup_append.2 ⟨hspawns, hclaims.nodup (List.nodup_reverse.2 hcells), ?_⟩
  rintro _ hspawn _ hclaim rfl
  obtain ⟨i, hi, rfl⟩ := List.mem_mapIdx.1 hspawn
  obtain ⟨result, -, heq⟩ := List.mem_map.1 (List.mem_reverse.1 (hclaims.subset hclaim))
  cases heq

/-! ### Levels of the recursion -/

section

variable {stack : Stack} {limit first n m depth : Nat} {room : Room} {ctx : Context}
  {env env' : Env} {fname : Option String} {params : List String} {body : Expr}
  {r : Value → Outcome} {promised : Nat → Outcome}

def Env.inSpawnMap (env : Env) (f : Value) (xs : List Value) : Env :=
  env.inBody Definition.spawnMap.params [f, .vec xs]

theorem quiet_call_spawnMap (f : Value) (xs : List Value) (henv : env.Ready)
    (hroom : Affords (limit + 2) room (depth + 4)) {args : List Expr}
    (hargs : GivesAll (depth + 3) ctx env args [f, .vec xs]) :
    (eval (limit + 2) room ctx env (.call "spawn_map" args)).quiet = (do
      let r ← (eval limit (room.less 5) ctx (env.inSpawnMap f xs)
        (if xs.isEmpty then .lit (.vec [])
          else .letIn "pending" (.spawn (.call "f" [.call "head" [.var "v"]]))
            (.letIn "rest" (.call "spawn_map" [.var "f", .call "tail" [.var "v"]])
              (.call "cons" [.sync (.var "pending"), .var "rest"])))).quiet
      return ⟨r.value, env⟩) := by
  have hready : (env.inSpawnMap f xs).Ready :=
    henv.of_sameBut ((Env.SameBut.refl _ _).inBody (by decide) _)
  have hv : (env.inSpawnMap f xs).lookup "v" = some (.vec xs) :=
    Env.lookup_inBody rfl (by simp)
  have htest : (Expr.call "=" [.var "v", .lit (.vec [])]).Gives 2 ctx
      (env.inSpawnMap f xs) (.ok (.bool xs.isEmpty)) := by
    refine gives_eq (hready.resolves .eq) (gives_var hv) (gives_lit _) fun room hroom => ?_
    rw [Value.equal, Room.need_of_has (Room.has_of_le hroom (by decide)),
      Room.need_of_has (Room.has_of_le hroom (by decide))]
    cases xs <;> rfl
  have hbound : env.lookup "spawn_map" = some Definition.spawnMap.value :=
    henv.lookup (d := .spawnMap) (by simp [Definition.demos])
  refine (quiet_app_fn hroom ((gives_var hbound).mono (by omega)) rfl hargs rfl).trans ?_
  change ((eval (limit + 1) (room.less 3) ctx (env.inSpawnMap f xs)
    (.cond (.call "=" [.var "v", .lit (.vec [])]) _ _)).quiet >>= _) = _
  rw [quiet_cond (hroom.less (by decide)) (htest.mono (by omega)), Room.less_less]

/-- The end of a level: the result of its task is claimed and put in front of the others. -/
theorem goes_join (stack : Stack) (ctx : Context) (promised : Nat → Outcome) {vs : List Value}
    (hroom : Affords limit room 3) (hcons : env.Resolves .cons)
    (hpending : env.lookup "pending" = some (.future (.task (.child .main m))))
    (hrest : env.lookup "rest" = some (.vec vs)) (hfirst : first < m) (hm : m ≤ n) :
    ∃ steps, (eval limit room ctx env
        (.call "cons" [.sync (.var "pending"), .var "rest"])).quiet.Goes stack first promised n
      [.claim (.task (.child .main m))]
      ((promised m).map fun v => ⟨.vec (v :: vs), env⟩) n steps := by
  obtain ⟨limit, rfl⟩ := hroom.exists_succ
  obtain ⟨limit, rfl⟩ := (hroom.less (Nat.zero_le 5)).exists_succ
  have hoperands := hroom.less (Nat.le_refl 5)
  have hsync : eval (limit + 1) (room.less 5) ctx.quiet env (.sync (.var "pending")) =
      .claim (.task (.child .main m)) (.await (.task (.child .main m)) fun v =>
        .done ⟨v, env⟩) := by
    rw [← quiets_eval, quiet_eval_sync (hoperands.has (by decide)),
      gives_var hpending limit _ (hoperands.less (by decide))]
    rfl
  have hvar : eval (limit + 1) (room.less 5) ctx.quiet env (.var "rest") =
      .done ⟨.vec vs, env⟩ := (gives_var hrest).eval_quiet (hoperands.mono (by decide))
  have hprog : (eval (limit + 2) room ctx env
      (.call "cons" [.sync (.var "pending"), .var "rest"])).quiet =
      .claim (.task (.child .main m)) (.await (.task (.child .main m)) fun v =>
        .done ⟨.vec (v :: vs), env⟩) := by
    refine (quiet_call_builtin (b := .cons) (hroom.has (by decide)) hcons _).trans ?_
    rw [applyBuiltin_cons, applyBuiltin.binary, Room.less_less, hsync]
    refine congrArg (Prog.claim _) (congrArg (Prog.await _) (funext fun v => ?_))
    change (eval (limit + 1) (room.less 5) ctx.quiet env (.var "rest") >>= _) = _
    rw [hvar]
    rfl
  rw [hprog]
  refine ⟨_, .claim hfirst hm (.await hfirst hm (?_ : Prog.Goes _ _ _ _ _ _ _ _ 0))⟩
  cases promised m with
  | error e => exact .fail e
  | ok v => exact .done _

theorem goes_rest {p : Prog Work Result} {acts : List Act} {o : Except Failure (List Value)}
    {last steps : Nat} (ctx : Context) (callerEnv : Env) (hroom : Affords limit room 3)
    (hready : ∀ v, (env.bind "rest" v).Ready)
    (hpending : env.lookup "pending" = some (.future (.task (.child .main m))))
    (hfirst : first < m) (hm : m ≤ last)
    (hp : p.Goes stack first promised n acts ((o.map .vec).map (⟨·, env⟩)) last steps) :
    ∃ steps', (do
        let bound ← p
        let r ← (eval limit room ctx (bound.env.bind "rest" bound.value)
          (.call "cons" [.sync (.var "pending"), .var "rest"])).quiet
        return ⟨r.value, callerEnv⟩ : Prog Work Result).Goes stack first promised n
      (acts ++ if o.isOk then [.claim (.task (.child .main m))] else [])
      (do
        let vs ← o
        let v ← promised m
        return ⟨.vec (v :: vs), callerEnv⟩) last steps' := by
  cases o with
  | error e =>
    refine ⟨steps, ?_⟩
    change Prog.Goes stack first promised n _ (acts ++ []) (.error e) last steps
    rw [List.append_nil]
    exact hp.bind_error
  | ok vs =>
    have hrest : (env.bind "rest" (.vec vs)).lookup "rest" = some (.vec vs) :=
      Env.lookup_bind_self (by simp)
    obtain ⟨steps', hjoin⟩ := goes_join stack ctx promised hroom ((hready _).resolves .cons)
      ((Env.lookup_bind_of_ne (by decide) _).trans hpending) hrest hfirst hm
    have hend := hjoin.map fun r => Result.mk r.value callerEnv
    have ho : ((promised m).map fun v => Result.mk (.vec (v :: vs)) (env.bind "rest" (.vec vs))).map
        (fun r => Result.mk r.value callerEnv) =
        (do let v ← promised m; return ⟨.vec (v :: vs), callerEnv⟩) := by
      cases promised m <;> rfl
    rw [ho] at hend
    exact ⟨_, hp.bind hend⟩

theorem quiet_call_spawnMap_cons (f x : Value) (xs : List Value) (henv : env.Ready)
    (hroom : Affords (limit + 4) room (depth + 4)) {args : List Expr}
    (hargs : GivesAll (depth + 3) ctx env args [f, .vec (x :: xs)]) :
    (eval (limit + 4) room ctx env (.call "spawn_map" args)).quiet =
      .spawn ⟨.call "f" [.call "head" [.var "v"]],
          env.inSpawnMap f (x :: xs), ctx.quiet⟩ fun id => (do
        let bound ← (eval limit (room.less 9) ctx
          ((env.inSpawnMap f (x :: xs)).bind "pending" (.future (.task id)))
          (.call "spawn_map" [.var "f", .call "tail" [.var "v"]])).quiet
        let r ← (eval limit (room.less 9) ctx (bound.env.bind "rest" bound.value)
          (.call "cons" [.sync (.var "pending"), .var "rest"])).quiet
        return ⟨r.value, env⟩) := by
  have houter : (room.less 5).has 2 := Room.has_less (hroom.has (by omega))
  have hinner : (room.less 7).has 2 := Room.has_less (hroom.has (by omega))
  rw [quiet_call_spawnMap f (x :: xs) henv hroom hargs]
  simp only [List.isEmpty_cons, Bool.false_eq_true, if_false]
  rw [quiet_eval_letIn houter, Room.less_less, quiet_eval_spawn hinner]
  refine congrArg (Prog.spawn _) (funext fun id => ?_)
  change ((eval (limit + 1) (room.less 7) ctx
    ((env.inSpawnMap f (x :: xs)).bind "pending" (.future (.task id))) _).quiet >>= _) >>= _ = _
  rw [quiet_eval_letIn hinner, Room.less_less]
  simp only [bind_assoc, pure_bind]

theorem givesAll_spawnMap {f x : Value} {xs : List Value} (htail : env.Resolves .tail)
    (hf : env.lookup "f" = some f) (hv : env.lookup "v" = some (.vec (x :: xs))) :
    GivesAll 2 ctx env [.var "f", .call "tail" [.var "v"]] [f, .vec xs] :=
  .cons ((gives_var hf).mono (by decide)) (.cons (gives_tail htail (gives_var hv)) .nil)

theorem quiet_spawnMap_task (hstack : Affords stack.depth stack.room (depth + 3)) (id : ThreadId)
    {x : Value} {xs : List Value} {o : Outcome} (hready : env'.Ready)
    (hf : env'.lookup "f" = some (.fn fname params body))
    (hv : env'.lookup "v" = some (.vec (x :: xs)))
    (happly : env.Applies depth ctx (.fn fname params body) x o)
    (hsame : env.SameBut Definition.locals env') :
    (Thread.task stack id
        ⟨.call "f" [.call "head" [.var "v"]], env', ctx.quiet⟩).rest.quiet =
      .ofExcept (o.map (⟨·, env'⟩)) := by
  have htask := gives_apply_head (hready.resolves .head) hf hv (happly.gives hsame id.label)
  exact (quiets_eval _ _ _ _ _).trans (htask.eval_quiet hstack)

/-- The way of the map: all tasks are spawned in the order of the elements, then the results are
claimed from the last element to the first, up to a failure. -/
theorem goes_spawnMap (hstack : Affords stack.depth stack.room (depth + 3)) (xs : List Value)
    (henv : env.Ready) (hf : ∀ x ∈ xs, env.Applies depth ctx (.fn fname params body) x (r x))
    (hsame : env.SameBut Definition.locals env')
    (hroom : Affords limit room (4 * xs.length + 4)) {args : List Expr}
    (hargs : GivesAll (4 * xs.length + 3) ctx env' args [.fn fname params body, .vec xs])
    (hfirst : first ≤ n) (hpromised : ∀ i x, xs[i]? = some x → promised (n + i + 1) = r x) :
    ∃ works steps, List.Forall₂ (Work.Maps (.fn fname params body)) works xs ∧
      (eval limit room ctx env' (.call "spawn_map" args)).quiet.Goes stack first promised n
        (spawnsAfter n works ++ claimsUntilFailure (resultsAfter n (xs.map r)).reverse)
        (((mapFromBack r xs).map .vec).map (⟨·, env'⟩)) (n + xs.length) steps := by
  induction xs generalizing env' limit room args n with
  | nil =>
    obtain ⟨limit, rfl⟩ := hroom.exists_succ
    obtain ⟨limit, rfl⟩ := (hroom.less (Nat.zero_le 5)).exists_succ
    have hroom' : Affords limit (room.less 5) 1 := by
      simpa using ((hroom.less (Nat.le_refl 5)).less (Nat.zero_le 5)).mono (by decide)
    have hempty : (Expr.lit (.vec [])).Gives 1 ctx (env'.inSpawnMap (.fn fname params body) [])
        (.ok (.vec [])) := gives_lit _
    refine ⟨[], 0, .nil, ?_⟩
    rw [quiet_call_spawnMap _ [] (henv.of_sameBut hsame) hroom hargs]
    simp only [List.isEmpty_nil, if_true, hempty limit _ hroom']
    exact .done _
  | cons x xs ih =>
    have hlimit : 4 ≤ limit := Nat.le_trans (by omega) hroom.limit
    obtain ⟨limit, rfl⟩ := Nat.exists_eq_add_of_le' hlimit
    obtain ⟨hfx, hfxs⟩ := List.forall_mem_cons.1 hf
    -- The environment of this level, and the one in which the next level is called.
    let env₁ := env'.inSpawnMap (.fn fname params body) (x :: xs)
    let env₂ := env₁.bind "pending" (.future (.task (.child .main (n + 1))))
    have hsame₁ : env.SameBut Definition.locals env₁ := hsame.inBody (by decide) _
    have hsame₂ : env.SameBut Definition.locals env₂ := hsame₁.bind (by decide) _
    have hv₁ : env₁.lookup "v" = some (.vec (x :: xs)) := Env.lookup_inBody rfl (by simp)
    have hf₁ : env₁.lookup "f" = some (.fn fname params body) := Env.lookup_inBody rfl (by simp)
    have hargs₂ : GivesAll 2 ctx env₂ [.var "f", .call "tail" [.var "v"]]
        [.fn fname params body, .vec xs] :=
      givesAll_spawnMap ((henv.of_sameBut hsame₂).resolves .tail)
        ((Env.lookup_bind_of_ne (by decide) _).trans hf₁)
        ((Env.lookup_bind_of_ne (by decide) _).trans hv₁)
    have hroom₂ : Affords limit (room.less 9) (4 * xs.length + 4) :=
      ⟨Nat.le_of_add_le_add_right hroom.limit,
        Room.has_less (hroom.has (by simp only [List.length_cons]; omega))⟩
    obtain ⟨works, steps, hworks, hgoes⟩ := ih hfxs hsame₂ hroom₂ (hargs₂.mono (by omega))
      (Nat.le_succ_of_le hfirst) fun i x' hx' => by
        rw [← hpromised (i + 1) x' hx', Nat.add_right_comm n 1 i, Nat.add_assoc n i 1]
    have hpromised₁ : promised (n + 1) = r x := hpromised 0 x rfl
    obtain ⟨steps', hrest⟩ := goes_rest (m := n + 1) ctx env' (hroom₂.mono (by omega))
      (fun _ => henv.of_sameBut (hsame₂.bind (by decide) _)) (Env.lookup_bind_self (by simp))
      (Nat.lt_succ_of_le hfirst) (Nat.le_add_right _ _) hgoes
    let work : Work := ⟨.call "f" [.call "head" [.var "v"]], env₁, ctx.quiet⟩
    have htask : (Thread.task stack (.child .main (n + 1)) work).rest.quiet =
        .ofExcept ((r x).map (⟨·, env₁⟩)) :=
      quiet_spawnMap_task hstack _ (henv.of_sameBut hsame₁) hf₁ hv₁ hfx hsame₁
    have hvalue : ((r x).map (Result.mk · env₁)).map Result.value = promised (n + 1) := by
      rw [hpromised₁]
      cases r x <;> rfl
    have houtcome : ((mapFromBack r (x :: xs)).map .vec).map (Result.mk · env') = (do
        let vs ← mapFromBack r xs
        let v ← promised (n + 1)
        return ⟨.vec (v :: vs), env'⟩) := by
      rw [mapFromBack_cons, hpromised₁]
      cases mapFromBack r xs <;> cases r x <;> rfl
    have hlast : n + (x :: xs).length = n + 1 + xs.length := by
      rw [List.length_cons]
      omega
    refine ⟨work :: works, steps' + (Thread.task stack (.child .main (n + 1)) work).left + 1,
      .cons ⟨rfl, hf₁, xs, hv₁⟩ hworks, ?_⟩
    rw [quiet_call_spawnMap_cons _ x xs (henv.of_sameBut hsame) hroom hargs, houtcome, hlast,
      claims_resultsAfter_cons, spawnsAfter_cons, List.cons_append, ← List.append_assoc]
    exact .spawn htask hvalue hrest

end

end ForkJoin

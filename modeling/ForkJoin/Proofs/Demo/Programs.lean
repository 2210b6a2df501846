import ForkJoin.Proofs.Demo.Maps

/-!
# The demo programs are correct

Run on an interpreter in which the names of the builtins mean the builtins, whatever else it binds,
the demos double the first of their numbers or all of them, in every order of the steps. They leave
nothing behind but the functions of the demos: no parameter, and none of the names that the maps
bind on the way (`Interpreter.demonstrates_demos`).
-/

namespace ForkJoin

namespace Demo

theorem mapM_toInteger (ns : List Int) : (ns.map Datum.int).mapM Datum.toInteger = .ok ns := by
  induction ns with
  | nil => rfl
  | cons n ns ih =>
    rw [List.map_cons, List.mapM_cons, ih]
    rfl

theorem vectorLiteral_ints (ns : List Int) :
    vectorLiteral (ns.map .int) = .ok (.lit (.vec (ns.map .int))) := by
  rw [vectorLiteral, mapM_toInteger]
  rfl

theorem program_pmap (ns : List Int) : pmap.program (ns.map .int) =
    .ok (.call "pmap" [typePlaceholder, typePlaceholder, .lit (.int ns.length), .var "double",
      .lit (.vec (ns.map .int))]) := by
  simp only [pmap, vectorLiteral_ints, List.length_map]
  rfl

theorem program_spawnMap (ns : List Int) : spawnMap.program (ns.map .int) =
    .ok (.call "spawn_map" [.var "double", .lit (.vec (ns.map .int))]) := by
  simp only [spawnMap, vectorLiteral_ints]
  rfl

theorem find?_all {d : Demo} (hd : d ∈ all) : find? all d.name = .ok (some d) := by
  simp only [all, List.mem_cons, List.not_mem_nil, or_false] at hd
  rcases hd with rfl | rfl | rfl <;> rfl

/-- What a demo is to come to: the first of its numbers doubled, or the vector of all of them
doubled. -/
def result (d : Demo) (n : Int) (ns : List Int) : Value :=
  if d.name = "double" then .int (2 * n) else .vec ((n :: ns).map fun m => .int (2 * m))

end Demo

theorem map_double (ns : List Int) :
    (ns.map Value.int).map (fun x => arithmetic .add "+" x x) =
      (ns.map fun m => Value.int (2 * m)).map Except.ok := by
  simp only [List.map_map, List.map_inj_left, Function.comp_apply]
  intro m _
  rw [Int.two_mul]
  rfl

/-- The way of a demo, wherever the functions that demos use are bound. The stack has to reach four
evaluations deeper for every number. -/
theorem Env.Ready.goes_demo {env : Env} (henv : env.Ready) {stack : Stack} (ctx : Context) (n : Int)
    (ns : List Int) (hstack : Affords stack.depth stack.room (4 * (n :: ns).length + 10))
    (first : Nat) {d : Demo} (hd : d ∈ Demo.all) :
    ∃ e promised acts last steps, d.program ((n :: ns).map .int) = .ok e ∧
      (stack.eval ctx env e).quiet.Goes stack first promised first acts
        (.ok ⟨d.result n ns, env⟩) last steps ∧ acts.Nodup := by
  have hdouble : env.lookup "double" = some Definition.double.value :=
    henv.lookup (d := .double) (by simp [Definition.demos])
  have hf : ∀ x ∈ (n :: ns).map Value.int,
      env.Applies 3 ctx Definition.double.value x (arithmetic .add "+" x x) := by
    intro x hx
    obtain ⟨m, -, rfl⟩ := List.mem_map.1 hx
    exact henv.applies_double ctx (by simp)
  have hmapArgs : GivesAll 1 ctx env [.var "double", .lit (.vec ((n :: ns).map .int))]
      [Definition.double.value, .vec ((n :: ns).map .int)] :=
    .cons (gives_var hdouble) (.cons (gives_lit _) .nil)
  have hlength : ((n :: ns).map Value.int).length = (n :: ns).length := List.length_map _
  simp only [Demo.all, List.mem_cons, List.not_mem_nil, or_false] at hd
  rcases hd with rfl | rfl | rfl
  · have hcall : (Expr.call "double" [.lit (.int n)]).Gives 3 ctx env (.ok (.int (n + n))) :=
      gives_call_fn (by decide) hdouble rfl (.cons ((gives_lit _).mono (by decide)) .nil) rfl
        (gives_double_body henv (by simp))
    have hquiet := hcall _ _ (hstack.mono (by omega))
    rw [← Int.two_mul] at hquiet
    refine ⟨_, fun _ => .ok (.vec []), [], first, 0, rfl, ?_, List.nodup_nil⟩
    rw [Stack.eval, hquiet]
    exact .ofExcept stack first first _ _
  · have hplaceholder : (Value.fn (some "") [] (.lit (.int 0))).WellFormed := trivial
    have hargs : GivesAll (3 * ((n :: ns).map Value.int).length + 3 + 4) ctx env
        [Demo.typePlaceholder, Demo.typePlaceholder, .lit (.int (n :: ns).length),
          .var "double", .lit (.vec ((n :: ns).map .int))]
        [.fn (some "") [] (.lit (.int 0)), .fn (some "") [] (.lit (.int 0)),
          .int ((n :: ns).map Value.int).length, Definition.double.value,
          .vec ((n :: ns).map .int)] := by
      rw [hlength]
      exact .cons ((gives_lit _).mono (by omega)) (.cons ((gives_lit _).mono (by omega))
        (.cons ((gives_lit _).mono (by omega)) (hmapArgs.mono (by omega))))
    have hquiet := gives_pmap hplaceholder hplaceholder henv hf hargs stack.depth stack.room
      (hstack.mono (by omega))
    rw [mapM_eq_ok (map_double _)] at hquiet
    refine ⟨_, fun _ => .ok (.vec []), [], first, 0, Demo.program_pmap _, ?_, List.nodup_nil⟩
    rw [Stack.eval, hquiet]
    exact .ofExcept stack first first _ _
  · obtain ⟨promised, works, steps, -, -, hgoes⟩ := exists_goes_spawnMap henv hf
      (hstack.mono (by omega)) (hmapArgs.mono (by omega)) first
    rw [mapFromBack_eq_ok (map_double _)] at hgoes
    exact ⟨_, promised, _, _, steps, Demo.program_spawnMap _, hgoes,
      nodup_spawnsAfter_claims first works _⟩

namespace Interpreter

variable {stack : Stack} {out : Provided} {s : System} {t : Thread} {i j : Interpreter}

theorem DemosInstalled.compact (h : i.DemosInstalled j) :
    i.DemosInstalled { j with env := j.env.compact } where
  demo d hd := (Env.get?_compact _ _).trans (h.demo d hd)
  other name hname := (Env.get?_compact _ _).trans (h.other name hname)

/-- A demo that is run on an interpreter with some numbers, while the other threads of a system go
on, returns a value. Afterwards the interpreter has the functions of the demos and else what it had
before. -/
def Demonstrates (stack : Stack) (steps : Nat) (s : System) (t : Thread) (i : Interpreter)
    (demo : String) (ns : List Int) (v : Value) : Prop :=
  ∃ (j : Interpreter) (e : Expr) (acts : List Act) (after : Interpreter),
    i.prepareDemo ⟨stack, steps, .compact⟩ Demo.all demo (ns.map .int) = (j, .ok e) ∧
    (s.setThread .main { t with rest := j.program ⟨stack, steps, .compact⟩ e }).Finishes stack
      t.spawned (.ok ⟨v, j.env⟩) acts ∧
    j.conclude ⟨stack, steps, .compact⟩ (.ok ⟨v, j.env⟩) = (after, .ok v) ∧
    i.DemosInstalled after

theorem demonstrates_of_finishes {steps : Nat} {d : Demo} {n : Int} {ns : List Int} {e : Expr}
    {v : Value} {acts : List Act} (hd : Demo.find? Demo.all d.name = .ok (some d))
    (hprogram : d.program ((n :: ns).map .int) = .ok e)
    (hfinishes : (s.setThread .main { t with
        rest := (i.installDemos ⟨stack, steps, .compact⟩).program ⟨stack, steps, .compact⟩ e
      }).Finishes stack t.spawned (.ok ⟨v, (i.installDemos ⟨stack, steps, .compact⟩).env⟩) acts) :
    i.Demonstrates stack steps s t d.name (n :: ns) v := by
  refine ⟨_, e, acts, _, ?_, hfinishes, rfl, (demosInstalled i stack steps).compact⟩
  rw [prepareDemo, hd]
  simp only [List.map_cons] at hprogram ⊢
  rw [hprogram]
  rfl

/-- The demos are correct on every interpreter in which the names of the builtins mean the builtins,
for all numbers, and in every order of the steps. The stack has to reach four evaluations deeper for
every number. -/
theorem demonstrates_demos (hout : out.WellFormed) (hs : s.Served stack out)
    (ht : s.thread .main = some t) (i : Interpreter) (hi : ∀ b, i.env.Resolves b) (steps : Nat)
    (n : Int) (ns : List Int)
    (hstack : Affords stack.depth stack.room (4 * (n :: ns).length + 10)) :
    i.Demonstrates stack steps s t "double" (n :: ns) (.int (2 * n)) ∧
    i.Demonstrates stack steps s t "pmap" (n :: ns)
      (.vec ((n :: ns).map fun m => .int (2 * m))) ∧
    i.Demonstrates stack steps s t "spawn-map" (n :: ns)
      (.vec ((n :: ns).map fun m => .int (2 * m))) := by
  have hready : (i.installDemos ⟨stack, steps, .compact⟩).env.Ready :=
    (demosInstalled i stack steps).ready hi
  have hdemo : ∀ d ∈ Demo.all, i.Demonstrates stack steps s t d.name (n :: ns) (d.result n ns) := by
    intro d hd
    obtain ⟨e, promised, acts, last, count, hprogram, hgoes, hnodup⟩ :=
      hready.goes_demo i.context n ns hstack t.spawned hd
    exact demonstrates_of_finishes (Demo.find?_all hd) hprogram (hs.finishes hout ht hgoes hnodup)
  exact ⟨hdemo .double (by simp [Demo.all]), hdemo .pmap (by simp [Demo.all]),
    hdemo .spawnMap (by simp [Demo.all])⟩

/-- A name that the maps bind on the way means afterwards what it meant before. -/
theorem demonstrates_demos_of_rest :
    Demonstrates ⟨18, some 90⟩ 1000 (.launch .none (.done (.ofValue (.vec []))))
      { rest := .done (.ofValue (.vec [])) }
      { env := Env.builtins.bind "rest" (.int 7), context := { scopedLet := true } }
      "spawn-map" [5, -1] (.vec [.int 10, .int (-2)]) := by
  have hresolves : ∀ b, (Env.builtins.bind "rest" (.int 7)).Resolves b := by
    intro b
    cases b <;> exact ⟨_, _, rfl⟩
  exact (demonstrates_demos Provided.wellFormed_none .launch rfl
    { env := Env.builtins.bind "rest" (.int 7), context := { scopedLet := true } } hresolves 1000
    5 [-1] ⟨by decide, by decide⟩).2.2

end Interpreter

end ForkJoin

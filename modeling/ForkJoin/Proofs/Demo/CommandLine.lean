import ForkJoin.CommandLine
import ForkJoin.Proofs.Demo.Programs
import ForkJoin.Proofs.Numerals
import ForkJoin.Proofs.Run.Curtailed
import ForkJoin.Proofs.Session.Progress
import ForkJoin.Proofs.Session.Quiet

/-!
# Demos on the command line

A run of a demo comes to an end, on every stack: either its evaluation returns the numbers doubled,
or the stack was exhausted, which is reported as an error of the language.

A result is told outside of what catches such errors. So a run ends without an exit code in one case
only, when a number has doubled to one of more digits than a numeral may have. That a number can be
read does not mean that its double can be told. With debug output a run tells its numbers first;
there a number that was read is never too long (`exists_openingLines`).
-/

namespace ForkJoin

open Text

/-- The cells that are there from the start, and no threads that write to them. -/
def Provided.named : Provided :=
  { Provided.none with cell := fun name generation => System.firstCell (.external name generation) }

theorem Provided.wellFormed_named : Provided.named.WellFormed := by
  refine ⟨fun name generation c v hc hv => ?_, nofun⟩
  cases generation with
  | zero =>
    cases hc
    cases hv
  | succ => cases hc

theorem System.launch_named :
    System.launch .named (.done (.ofValue (.vec []))) = System.initial := by
  refine congr (congrArg System.mk (funext fun id => ?_)) (funext fun x => ?_)
  · cases id <;> rfl
  · cases x with
    | external name generation => rfl
    | task id => rfl

theorem Pool.exists_runMain_empty {stack : Stack} {q : Prog Work Result} {promised : Nat → Outcome}
    {o : Except Failure Result} {acts : List Act} {count : Nat}
    (h : (System.initial.setThread .main { Thread.idle with rest := q }).OnCourse stack 0 promised o
      { Thread.idle with rest := q } acts count) :
    ∃ enough, ∀ steps, enough ≤ steps → (({} : Pool).runMain stack steps q).2 = some o := by
  have hsystem : (({} : Pool).startMain q).system =
      System.initial.setThread .main { Thread.idle with rest := q } := startMain_system {} q
  have hevaluates : (({} : Pool).startMain q).Evaluates stack 0 promised o
      (count + (({} : Pool).startMain q).system.leftAmong 0 0) := by
    refine ⟨attentive_empty.startMain q, fun id hsome => ?_, _, acts, count, hsystem ▸ h, rfl⟩
    by_cases hid : id = .main
    · exact .inl hid
    · rw [hsystem, System.thread_setThread, if_neg hid] at hsome
      simp [System.initial, hid] at hsome
  obtain ⟨enough, henough⟩ := hevaluates.exists_steps
  refine ⟨enough, fun steps hsteps => ?_⟩
  rw [← henough steps hsteps, ended?_main]
  rfl

theorem Pool.printed_runMain_empty {q : Prog Work Result} (hq : q.quiet = q) (stack : Stack)
    (steps : Nat) (id : ThreadId) : (({} : Pool).runMain stack steps q).1.printed id = [] := by
  have hstart : (({} : Pool).startMain q).system.quiet = (({} : Pool).startMain q).system := by
    have hidle : System.initial.quiet = System.initial :=
      congrArg Stage.system (Stage.quiet_initial fun _ => {})
    rw [startMain_system, System.quiet_setThread]
    change System.initial.quiet.setThread .main { Thread.idle with rest := q.quiet } = _
    rw [hidle, hq]
    rfl
  obtain ⟨ids, hrun⟩ : (({} : Pool).startMain q).Runs stack (({} : Pool).runMain stack steps q).1 :=
    runs_runUntilOver _ steps .main
  have hquiet := congrFun (congrArg System.thread (System.quiet_eq_of_run hstart hrun)) id
  unfold printed
  split
  case h_1 t ht =>
    change Option.map Thread.quiet (Store.thread _ id) = Store.thread _ id at hquiet
    rw [ht] at hquiet
    rw [← Option.some.inj hquiet]
    rfl
  case h_2 => rfl

/-! ### Evaluating a demo -/

/-- On any stack a demo returns its result, unless the stack is exhausted. -/
theorem Env.Ready.exists_outcome {env : Env} (henv : env.Ready) (stack : Stack) (ctx : Context)
    (n : Int) (ns : List Int) {d : Demo} (hd : d ∈ Demo.all) :
    ∃ e o enough, d.program ((n :: ns).map .int) = .ok e ∧
      (∀ steps, enough ≤ steps →
        (({} : Pool).runMain stack steps (stack.eval ctx env e)).2 = some o) ∧
      (o = .ok ⟨d.result n ns, env⟩ ∨ o = .error (.fault .stackExhausted) ∧
        ¬ Affords stack.depth stack.room (4 * (n :: ns).length + 10)) := by
  have hserved : System.initial.Served stack .named := System.launch_named ▸ .launch
  by_cases hstack : Affords stack.depth stack.room (4 * (n :: ns).length + 10)
  · obtain ⟨e, promised, acts, last, count, hprogram, hgoes, hnodup⟩ :=
      henv.goes_demo ctx n ns hstack 0 hd
    obtain ⟨acts', count', -, hcourse⟩ :=
      hserved.exists_onCourse Provided.wellFormed_named rfl hgoes hnodup
    obtain ⟨enough, henough⟩ := Pool.exists_runMain_empty hcourse
    exact ⟨e, _, enough, hprogram, henough, .inl rfl⟩
  · -- On a stack that is large enough the demo would go its way, of which it goes a first part.
    let wide : Stack := ⟨max stack.depth (4 * (n :: ns).length + 10), none⟩
    obtain ⟨e, promised, acts, last, count, hprogram, hgoes, hnodup⟩ :=
      henv.goes_demo ctx n ns (show Affords wide.depth wide.room _ from ⟨Nat.le_max_right _ _, rfl⟩)
        0 hd
    have hcut : (stack.eval ctx env e).quiet.Curtails (wide.eval ctx env e).quiet := by
      rw [Stack.quiet_eval, Stack.quiet_eval]
      exact curtails_eval (Nat.le_max_left _ _) _ _ _ _
    obtain ⟨promised', o, acts', count', ho, hcourse⟩ := hserved.exists_onCourse_curtailed
      Provided.wellFormed_named rfl hgoes hnodup (Nat.le_max_left _ _) rfl hcut
    obtain ⟨enough, henough⟩ := Pool.exists_runMain_empty hcourse
    exact ⟨e, o, enough, hprogram, henough, ho.symm.imp_right fun ho => ⟨ho, hstack⟩⟩

/-! ### Telling the result -/

namespace Demo

/-- The numbers in what a demo is to come to. -/
def doubled (d : Demo) (n : Int) (ns : List Int) : List Int :=
  if d.name = "double" then [2 * n] else (n :: ns).map (2 * ·)

end Demo

namespace CommandLine

/-- The lines that tell what a demo has come to. -/
def resultLines (d : Demo) (n : Int) (ns : List Int) : List String :=
  if d.name = "double" then ["Result: " ++ toString (2 * n)]
  else ["Result: " ++ bracketed ((d.doubled n ns).map toString),
    s!"Length: {(n :: ns).length}"]

/-- How a run ends, and what it tells, when a demo has come to its result: nothing if a number in it
is too long. -/
def resultEnding (d : Demo) (n : Int) (ns : List Int) : Except Failure Nat × List String :=
  if ∀ m ∈ d.doubled n ns, Numeral.Fits m then (.ok 0, resultLines d n ns)
  else (.error (.fault .numeralTooLong), [])

theorem resultEnding_cases (d : Demo) (n : Int) (ns : List Int) :
    (resultEnding d n ns = (.ok 0, resultLines d n ns) ∧
        ∀ m ∈ d.doubled n ns, Numeral.Fits m) ∨
      resultEnding d n ns = (.error (.fault .numeralTooLong), []) ∧
        ∃ m ∈ d.doubled n ns, ¬ Numeral.Fits m := by
  by_cases hfits : ∀ m ∈ d.doubled n ns, Numeral.Fits m
  · exact .inl ⟨if_pos hfits, hfits⟩
  · exact .inr ⟨if_neg hfits, by simpa only [not_forall, exists_prop] using hfits⟩

variable {stack : Stack} {d : Demo}

theorem conclusion_result {policy : Policy} (hroom : policy.stack.room.has 5) (view : CellView)
    (d : Demo) (n : Int) (ns : List Int) :
    conclusion policy view (d.result n ns) = resultEnding d n ns := by
  have hends : ∀ (v : Value) (text : String) (lines : List String),
      v.display view policy.stack.room =
        (if ∀ m ∈ d.doubled n ns, Numeral.Fits m then .ok text else .error .numeralTooLong) →
      lengthLines v = .ok lines → ("Result: " ++ text) :: lines = resultLines d n ns →
      conclusion policy view v = resultEnding d n ns := by
    intro v text lines hdisplay hlength hlines
    rw [conclusion, hdisplay, resultEnding]
    by_cases hall : ∀ m ∈ d.doubled n ns, Numeral.Fits m
    · rw [if_pos hall, if_pos hall, ← hlines]
      simp only [hlength]
    · rw [if_neg hall, if_neg hall]
  by_cases hname : d.name = "double"
  · rw [Demo.result, if_pos hname]
    refine hends _ (toString (2 * n)) [] ?_ rfl ?_
    · rw [Value.display_int (Room.has_of_le hroom (by decide)), Demo.doubled, if_pos hname]
      simp only [List.forall_mem_singleton]
    · rw [resultLines, if_pos hname]
  · have hmap : (n :: ns).map (fun m => Value.int (2 * m)) = (d.doubled n ns).map Value.int := by
      rw [Demo.doubled, if_neg hname, List.map_map]
      rfl
    rw [Demo.result, if_neg hname, hmap]
    refine hends _ _ [s!"Length: {(n :: ns).length}"] (Value.display_ints hroom _) ?_ ?_
    · have hlength : ((d.doubled n ns).map Value.int).length = (n :: ns).length := by
        rw [List.length_map, Demo.doubled, if_neg hname, List.length_map]
      rw [← hlength]
      rfl
    · rw [resultLines, if_neg hname]

def ending (policy : Policy) (view : CellView) (demo : Datum) :
    Except Failure Value → Except Failure Nat × List String
  | .ok v => conclusion policy view v
  | .error (.language e) => (.ok 1, errorLines demo e)
  | .error e => (.error e, [])

theorem openingLines_eq (demo : Datum) (values : List Int) (debug scopedLet : Bool) :
    openingLines { demo, values, debug, scopedLet } =
      if debug = true → ∀ m ∈ values, Numeral.Fits m then
        .ok (if debug then [openingLine demo (bracketed (values.map toString))] else [])
      else .error .numeralTooLong := by
  cases debug with
  | false => rfl
  | true =>
    have hshown : openingLines { demo, values, debug := true, scopedLet } =
        (Datum.list (values.map .int)).shown.map fun numbers => [openingLine demo numbers] := rfl
    rw [hshown, Datum.shown_ints]
    by_cases hall : ∀ m ∈ values, Numeral.Fits m
    · rw [if_pos hall, if_pos fun _ => hall]
      rfl
    · rw [if_neg hall, if_neg fun h => hall (h rfl)]
      rfl

theorem fits_of_readNumbers {words : List String} {ns : List Int}
    (h : readNumbers words = .ok ns) : ∀ n ∈ ns, Numeral.Fits n := by
  induction words generalizing ns with
  | nil =>
    cases h
    nofun
  | cons word words ih =>
    rw [readNumbers] at h
    split at h
    case h_1 => cases h
    case h_2 n hn =>
      cases hrest : readNumbers words with
      | error e =>
        rw [hrest] at h
        cases h
      | ok ms =>
        rw [hrest] at h
        cases h
        exact List.forall_mem_cons.2 ⟨Numeral.fits_of_read? hn, ih hrest⟩

/-- Numbers that were read never keep a run from opening. -/
theorem exists_openingLines {words : List String} {ns : List Int} (h : readNumbers words = .ok ns)
    (demo : Datum) (debug scopedLet : Bool) :
    ∃ opening, openingLines { demo, values := ns, debug, scopedLet } = .ok opening :=
  ⟨_, (openingLines_eq demo ns debug scopedLet).trans (if_pos fun _ => fits_of_readNumbers h)⟩

/-- A run of a demo that opens evaluates its program in a new pool and tells what that has come to,
behind the line that opens it and what the main thread has printed. -/
theorem runDemo_eq (policy : Policy) (hfound : Demo.find? Demo.all d.name = .ok (some d)) (n : Int)
    (ns : List Int) (debug scopedLet : Bool) {e : Expr} {o : Except Failure Result}
    {opening : List String} (hprogram : d.program ((n :: ns).map .int) = .ok e)
    (hopening : openingLines { demo := d.name, values := n :: ns, debug, scopedLet } =
      .ok opening) :
    let i : Interpreter := { context := { debug, scopedLet } }
    let run := ({} : Pool).runMain policy.stack policy.steps
      ((i.installDemos policy).program policy e)
    let outcome := runDemo policy Demo.all { demo := d.name, values := n :: ns, debug, scopedLet }
    run.2 = some o →
      let told := ending policy run.1.system.view d.name
        ((i.installDemos policy).conclude policy o).2
      outcome.exit = told.1 ∧
        outcome.stdout = unlines (opening ++ run.1.printed .main ++ told.2) := by
  intro i run outcome hrun told
  let j := i.installDemos policy
  let start : Session := { context := { debug, scopedLet } }
  let made : Session := start.setInterpreter "main" j
  have hprepare : (start.interpreter "main").prepareDemo policy start.demos d.name
      ((n :: ns).map .int) = (j, .ok e) := by
    change i.prepareDemo policy Demo.all d.name ((n :: ns).map .int) = _
    rw [Interpreter.prepareDemo, hfound]
    simp only [List.map_cons] at hprogram ⊢
    rw [hprogram]
    rfl
  have hinterpreter : made.interpreter "main" = j := by
    rw [Session.interpreter_setInterpreter, if_pos rfl]
  have hperform : start.perform policy "main" (.runDemo d.name ((n :: ns).map .int)) =
      ({ made with pool := run.1 }.setInterpreter "main" (j.conclude policy o).1,
        (j.conclude policy o).2.map .value) := by
    have hpair : made.pool.runMain policy.stack policy.steps (j.program policy e) =
        (run.1, some o) := Prod.ext rfl hrun
    rw [Session.perform, hprepare]
    change made.eval policy "main" e = _
    rw [Session.eval, hinterpreter, Session.runMain, hpair]
  have houtcome : outcome = runDemo policy Demo.all
    { demo := d.name, values := n :: ns, debug, scopedLet } := rfl
  rw [runDemo, hopening] at houtcome
  dsimp only at houtcome
  rw [hperform] at houtcome
  have htold : told = ending policy run.1.system.view d.name (j.conclude policy o).2 := rfl
  rw [houtcome, htold]
  cases (j.conclude policy o).2 with
  | ok v => exact ⟨rfl, rfl⟩
  | error e => cases e <;> exact ⟨rfl, rfl⟩

/-- On any stack a run of a demo that opens comes to an end: it tells the result, or that the stack
was exhausted. Without debug output nothing stands before that. -/
theorem exists_runDemo (hroom : stack.room.has 5) (hd : d ∈ Demo.all) (n : Int) (ns : List Int)
    (debug scopedLet : Bool) (hopens : debug = true → ∀ m ∈ n :: ns, Numeral.Fits m) :
    ∃ told enough, (told = resultEnding d n ns ∨
        told = (.ok 1, errorLines d.name (.depthExceeded (.int reportedDepth) .null)) ∧
          ¬ Affords stack.depth stack.room (4 * (n :: ns).length + 10)) ∧
      ∀ steps, enough ≤ steps → ∃ trace,
        let outcome := runDemo ⟨stack, steps, .compact⟩ Demo.all
          { demo := d.name, values := n :: ns, debug, scopedLet }
        outcome.exit = told.1 ∧ outcome.stdout = unlines
          ((if debug then openingLine d.name (bracketed ((n :: ns).map toString)) :: trace else []) ++
            told.2) := by
  -- How many steps a run may take is no part of how demos are installed and evaluated.
  let i : Interpreter := { context := { debug, scopedLet } }
  let j := i.installDemos ⟨stack, 0, .compact⟩
  have hready : j.env.Ready :=
    (Interpreter.demosInstalled i stack 0).ready Env.builtins_resolves
  obtain ⟨e, o, enough, hprogram, hrun, ho⟩ := hready.exists_outcome stack i.context n ns hd
  obtain ⟨told, htold, hends⟩ : ∃ told, (told = resultEnding d n ns ∨
      told = (.ok 1, errorLines d.name (.depthExceeded (.int reportedDepth) .null)) ∧
        ¬ Affords stack.depth stack.room (4 * (n :: ns).length + 10)) ∧
      ∀ steps view, ending ⟨stack, steps, .compact⟩ view d.name
        (j.conclude ⟨stack, steps, .compact⟩ o).2 = told := by
    rcases ho with rfl | ⟨rfl, hstack⟩
    · exact ⟨_, .inl rfl, fun steps view => conclusion_result hroom view d n ns⟩
    · exact ⟨_, .inr ⟨rfl, hstack⟩, fun _ _ => rfl⟩
  refine ⟨told, enough, htold, fun steps hsteps => ?_⟩
  let run := ({} : Pool).runMain stack steps (stack.eval i.context j.env e)
  have hsilent : debug = false → run.1.printed .main = [] := by
    intro hdebug
    have hquiet : (stack.eval i.context j.env e).quiet = stack.eval i.context j.env e := by
      rw [Stack.quiet_eval, Context.quiet, ← hdebug]
    exact Pool.printed_runMain_empty hquiet stack steps .main
  have hopening : openingLines { demo := d.name, values := n :: ns, debug, scopedLet } =
      .ok (if debug then [openingLine d.name (bracketed ((n :: ns).map toString))] else []) :=
    (openingLines_eq d.name (n :: ns) debug scopedLet).trans (if_pos hopens)
  have hbefore : (if debug then [openingLine d.name (bracketed ((n :: ns).map toString))] else []) ++
        run.1.printed .main =
      if debug then openingLine d.name (bracketed ((n :: ns).map toString)) :: run.1.printed .main
      else [] := by
    cases debug with
    | true => rfl
    | false => exact hsilent rfl
  obtain ⟨hexit, hstdout⟩ := runDemo_eq ⟨stack, steps, .compact⟩ (Demo.find?_all hd) n ns debug
    scopedLet hprogram hopening (hrun steps hsteps)
  have hend := hends steps run.1.system.view
  refine ⟨run.1.printed .main, hexit.trans (congrArg Prod.fst hend), hstdout.trans ?_⟩
  rw [← hbefore, ← hend]
  rfl

theorem exists_runDemo_double_dies {n : Int} {ns : List Int}
    (hstack : Affords stack.depth stack.room (4 * (n :: ns).length + 10))
    (hlong : ¬ Numeral.Fits (2 * n)) :
    ∃ enough, ∀ steps, enough ≤ steps →
      let outcome := runDemo ⟨stack, steps, .compact⟩ Demo.all
        { demo := "double", values := n :: ns }
      outcome.exit = .error (.fault .numeralTooLong) ∧ outcome.stdout = "" := by
  obtain ⟨told, enough, htold, hrun⟩ := exists_runDemo (hstack.has (n := 5) (by omega))
    (d := .double) (by simp [Demo.all]) n ns false false nofun
  have hmember : ∃ m ∈ Demo.double.doubled n ns, ¬ Numeral.Fits m :=
    ⟨2 * n, List.mem_cons_self, hlong⟩
  have hdies : told = (.error (.fault .numeralTooLong), []) := by
    rcases htold with htold | ⟨-, hno⟩
    · rw [htold, resultEnding, if_neg (by simpa using hmember)]
    · exact absurd hstack hno
  subst hdies
  refine ⟨enough, fun steps hsteps => ?_⟩
  obtain ⟨trace, hexit, hstdout⟩ := hrun steps hsteps
  exact ⟨hexit, hstdout⟩

/-- Every run of a demo comes to an end. Where the stack was exhausted the error is told and the
exit code is one; a stack that reaches four evaluations deeper for every number is not exhausted.
Else the result is told and the exit code is zero, unless a number in it has more digits than a
numeral may have. Then the run dies with a fault that nothing catches, and tells nothing. With debug
output a run tells its numbers first, and dies of one that is too long before it evaluates
anything. -/
theorem runDemo_ends (hroom : stack.room.has 5) (hd : d ∈ Demo.all) (n : Int) (ns : List Int)
    (debug scopedLet : Bool) :
    let settings : Settings := { demo := d.name, values := n :: ns, debug, scopedLet }
    (debug = true → ∀ m ∈ n :: ns, Numeral.Fits m) ∧
        (∃ enough exit told, (∀ steps, enough ≤ steps → ∃ trace,
          let outcome := runDemo ⟨stack, steps, .compact⟩ Demo.all settings
          outcome.exit = exit ∧ outcome.stdout = unlines
            ((if debug then openingLine d.name (bracketed ((n :: ns).map toString)) :: trace
              else []) ++ told)) ∧
        (exit = .ok 1 ∧ told = errorLines d.name (.depthExceeded (.int reportedDepth) .null) ∧
            ¬ Affords stack.depth stack.room (4 * (n :: ns).length + 10) ∨
          exit = .ok 0 ∧ told = resultLines d n ns ∧ (∀ m ∈ d.doubled n ns, Numeral.Fits m) ∨
          exit = .error (.fault .numeralTooLong) ∧ told = [] ∧
            ∃ m ∈ d.doubled n ns, ¬ Numeral.Fits m)) ∨
      debug = true ∧ (∃ m ∈ n :: ns, ¬ Numeral.Fits m) ∧ ∀ steps,
        let outcome := runDemo ⟨stack, steps, .compact⟩ Demo.all settings
        outcome.exit = .error (.fault .numeralTooLong) ∧ outcome.stdout = "" := by
  intro settings
  by_cases hopens : debug = true → ∀ m ∈ n :: ns, Numeral.Fits m
  · obtain ⟨told, enough, htold, hrun⟩ := exists_runDemo hroom hd n ns debug scopedLet hopens
    refine .inl ⟨hopens, enough, told.1, told.2, hrun, ?_⟩
    rcases htold with rfl | ⟨rfl, hstack⟩
    · rcases resultEnding_cases d n ns with ⟨hending, hfits⟩ | ⟨hending, hlong⟩
      · rw [hending]
        exact .inr (.inl ⟨rfl, rfl, hfits⟩)
      · rw [hending]
        exact .inr (.inr ⟨rfl, rfl, hlong⟩)
    · exact .inl ⟨rfl, rfl, hstack⟩
  · have hopening : openingLines settings = .error .numeralTooLong :=
      (openingLines_eq d.name (n :: ns) debug scopedLet).trans (if_neg hopens)
    obtain ⟨hdebug, hlong⟩ := Classical.not_imp.1 hopens
    refine .inr ⟨hdebug, by simpa only [not_forall, exists_prop] using hlong, fun steps => ?_⟩
    rw [runDemo, hopening]
    exact ⟨rfl, rfl⟩

/-- Two numbers doubled in tasks, on the stack that threads have as a rule. -/
theorem runDemo_ends_of_spawnMap : ∃ enough, ∀ steps, enough ≤ steps →
    let outcome := runDemo ⟨defaultStack, steps, .compact⟩ Demo.all
      { demo := "spawn-map", values := [21, -1] }
    outcome.exit = .ok 0 ∧ outcome.stdout = "Result: [42, -2]\nLength: 2\n" := by
  obtain ⟨enough, exit, told, hrun, hends⟩ := ((@runDemo_ends defaultStack .spawnMap
    (by decide) (by simp [Demo.all]) 21 [-1] false false).resolve_right fun h => nomatch h.1).2
  have hstack : Affords defaultStack.depth defaultStack.room 18 := ⟨by decide, by decide⟩
  have hfits : ∀ m ∈ Demo.spawnMap.doubled 21 [-1], Numeral.Fits m := by decide +kernel
  have hlines : unlines ([] ++ resultLines .spawnMap 21 [-1]) =
      "Result: [42, -2]\nLength: 2\n" := by decide +kernel
  obtain ⟨rfl, rfl⟩ : exit = .ok 0 ∧ told = resultLines .spawnMap 21 [-1] := by
    rcases hends with ⟨-, -, hno⟩ | ⟨hexit, htold, -⟩ | ⟨-, -, m, hm, hlong⟩
    · exact absurd hstack hno
    · exact ⟨hexit, htold⟩
    · exact absurd (hfits m hm) hlong
  refine ⟨enough, fun steps hsteps => ?_⟩
  obtain ⟨trace, hexit, hstdout⟩ := hrun steps hsteps
  exact ⟨hexit, hstdout.trans hlines⟩

/-- The greatest number that the command line reads has as many nines as are allowed. Its double is
too long, and the run dies. -/
theorem runDemo_dies_of_nines :
    readNumbers [String.ofList (List.replicate Numeral.maxDigits '9')] =
        .ok [Int.ofNat (Numeral.bound - 1)] ∧
      ∃ enough, ∀ steps, enough ≤ steps →
        let outcome := runDemo ⟨defaultStack, steps, .compact⟩ Demo.all
          { demo := "double", values := [Int.ofNat (Numeral.bound - 1)] }
        outcome.exit = .error (.fault .numeralTooLong) ∧ outcome.stdout = "" := by
  constructor
  · obtain ⟨k, hk⟩ := Numeral.exists_maxDigits_eq
    rw [readNumbers, Numeral.bound_eq, hk, Numeral.read?_nines (Nat.le_of_eq hk.symm)]
    rfl
  · exact exists_runDemo_double_dies ⟨by decide, by decide⟩ Numeral.not_fits_double

end CommandLine

end ForkJoin

import ForkJoin.Proofs.Run.Trace

/-!
# Which thread a line belongs to

What the logs of threads (`System.Logs`) say about the lines themselves when a program is run with
tracing on: who prints which mark, who announces which task, and what the last line of a task tells.
`System.Attributed` collects it, and it holds after every run (`lines_attributed`).
-/

namespace ForkJoin

namespace System

variable {stack : Stack} {scopedLet : Bool} {s : System} {id : ThreadId} {t : Thread}

def written? (s : System) (id : ThreadId) : Option Outcome :=
  (s.cell (.task id)).bind (·.outcome)

/-- The lines of a system in which every thread says who it is. Lines stand in the order in which
they were printed, the latest first. -/
structure Attributed (s : System) : Prop where
  /-- The main thread prints no mark. -/
  main : ∀ t text, s.thread .main = some t → text ∈ t.printed → ¬text.startsWith "[task "
  /-- A task prints its mark in front of a line, unless it announces a task that it spawned. -/
  task : ∀ p n t text, s.thread (.child p n) = some t → text ∈ t.printed →
    text.startsWith (ThreadId.child p n).mark ∨
      ∃ k, (s.thread (.child (.child p n) k)).isSome ∧
        text = (ThreadId.child (.child p n) k).spawnLine
  /-- No thread prints the mark of another one. -/
  own : ∀ id u t text, s.thread id = some t → text ∈ t.printed → text.startsWith u.mark → u = id
  /-- What a thread has announced, and announces next, are its tasks in the order of the spawns. -/
  announced : ∀ id t, s.thread id = some t →
    ThreadId.spawnLines (t.printed.reverse ++ t.rest.lines) =
      (List.range t.spawned).map fun k => (ThreadId.child id (k + 1)).spawnLine
  /-- A task is announced once by the thread that spawned it, and never by another one. -/
  once : ∀ p n id t, (s.thread (.child p n)).isSome → s.thread id = some t →
    (t.printed.reverse ++ t.rest.lines).count (ThreadId.child p n).spawnLine =
      if id = p then 1 else 0
  /-- The last line of a task that is over, and no other, tells what is written to its cell. -/
  finished : ∀ p n t, s.thread (.child p n) = some t → t.isOver → ∃ last earlier,
    t.printed = last :: earlier ∧ (ThreadId.child p n).IsFinal last ∧
      (∀ text ∈ earlier, ¬(ThreadId.child p n).IsFinal text) ∧
      (last = (ThreadId.child p n).commitLine ↔ ∃ v, s.written? (.child p n) = some (.ok v)) ∧
      ∀ reason, last = (ThreadId.child p n).failLine reason ↔
        ∃ e, s.written? (.child p n) = some (.error e) ∧ e.text = reason
  /-- A task that is not over has told nothing about its end, and its cell is empty. -/
  running : ∀ p n t, s.thread (.child p n) = some t → ¬t.isOver →
    (∀ text ∈ t.printed, ¬(ThreadId.child p n).IsFinal text) ∧ s.written? (.child p n) = none

namespace Logs

variable (hs : s.Logs scopedLet)

include hs

theorem mem_printed (ht : s.thread id = some t) {text : String} (hmem : text ∈ t.printed) :
    (∃ message, Message message ∧ text = id.line message) ∨
      (∃ k, (s.thread (.child id k)).isSome ∧ text = (ThreadId.child id k).spawnLine) ∨
      (∃ p n, id = .child p n) ∧ id.IsFinal text := by
  obtain ⟨last, lines, hprinted, hlogged, hlast⟩ := hs.exists_log ht
  rw [hprinted] at hmem
  rcases List.mem_append.1 hmem with hmem | hmem
  · exact .inr (.inr (hlast text hmem))
  · obtain ⟨n, hle, hlog⟩ : ∃ n, n ≤ t.spawned ∧ id.Log n lines := by
      rcases hlogged with ⟨-, hlog⟩ | ⟨-, hspawned, hlog⟩
      · exact ⟨_, Nat.le_refl _, hlog⟩
      · exact ⟨_, by omega, hlog⟩
    rcases hlog.mem_cases hmem with hmessage | ⟨k, hpos, hk, htext⟩
    · exact .inl hmessage
    · exact .inr (.inl ⟨k, (hs.tasks id t k ht).2 ⟨hpos, Nat.le_trans hk hle⟩, htext⟩)

theorem announced (ht : s.thread id = some t) :
    ThreadId.spawnLines (t.printed.reverse ++ t.rest.lines) =
      (List.range t.spawned).map fun k => (ThreadId.child id (k + 1)).spawnLine := by
  obtain ⟨last, lines, hprinted, hlogged, hlast⟩ := hs.exists_log ht
  have hsilent : ThreadId.spawnLines last.reverse = [] := by
    refine List.filter_eq_nil_iff.2 fun text htext => ?_
    obtain ⟨rest, rfl⟩ := (hlast text (List.mem_reverse.1 htext)).2.exists_eq
    exact ThreadId.not_startsWith_spawned_mark _ _
  have hparts : ThreadId.spawnLines (t.printed.reverse ++ t.rest.lines) =
      ThreadId.spawnLines lines.reverse ++ ThreadId.spawnLines last.reverse ++
        ThreadId.spawnLines t.rest.lines := by
    simp [ThreadId.spawnLines, hprinted, List.filter_append]
  rw [hparts, hsilent, List.append_nil]
  rcases hlogged with ⟨htraces, hlog⟩ | ⟨htraces, hspawned, hlog⟩
  · rw [hlog.spawnLines_eq, htraces.spawnLines_lines (ThreadId.line_context scopedLet id)]
    simp
  · rw [hlog.spawnLines_eq, htraces.spawnLines_lines (ThreadId.line_context scopedLet id), hspawned]
    simp [List.range_succ]

theorem count_spawnLine {p : ThreadId} {n : Nat} (hchild : (s.thread (.child p n)).isSome)
    (ht : s.thread id = some t) :
    (t.printed.reverse ++ t.rest.lines).count (ThreadId.child p n).spawnLine =
      if id = p then 1 else 0 := by
  have hspawn : (ThreadId.child p n).spawnLine.startsWith "Spawned task " :=
    ThreadId.startsWith_append _ _
  have hfiltered : (t.printed.reverse ++ t.rest.lines).count (ThreadId.child p n).spawnLine =
      ((List.range t.spawned).map fun k => (ThreadId.child id (k + 1)).spawnLine).count
        (ThreadId.child p n).spawnLine := by
    rw [← hs.announced ht]
    exact (List.count_filter (p := fun line : String => line.startsWith "Spawned task ")
      hspawn).symm
  rw [hfiltered]
  split
  case isTrue hid =>
    subst hid
    obtain ⟨hpos, hle⟩ := (hs.tasks id t n ht).1 hchild
    refine List.count_eq_one_of_mem ?_ (List.mem_map.2 ⟨n - 1, List.mem_range.2 (by omega), ?_⟩)
    · refine List.nodup_range.map fun k k' h => ?_
      have hindex := (ThreadId.child.inj (ThreadId.spawnLine_injective h)).2
      omega
    · rw [Nat.sub_add_cancel hpos]
  case isFalse hid =>
    refine List.count_eq_zero_of_not_mem fun hmem => ?_
    obtain ⟨k, -, hk⟩ := List.mem_map.1 hmem
    exact hid (ThreadId.child.inj (ThreadId.spawnLine_injective hk)).1

theorem finished {p : ThreadId} {n : Nat} (ht : s.thread (.child p n) = some t)
    (hover : t.isOver) : ∃ last earlier,
      t.printed = last :: earlier ∧ (ThreadId.child p n).IsFinal last ∧
        (∀ text ∈ earlier, ¬(ThreadId.child p n).IsFinal text) ∧
        (last = (ThreadId.child p n).commitLine ↔ ∃ v, s.written? (.child p n) = some (.ok v)) ∧
        ∀ reason, last = (ThreadId.child p n).failLine reason ↔
          ∃ e, s.written? (.child p n) = some (.error e) ∧ e.text = reason := by
  obtain ⟨c, hc, hlogged⟩ := hs.task p n t ht
  cases hlogged with
  | running hdelivery hdelivered hempty hlogged =>
    have hdue := (Thread.isOver_iff.1 hover).2
    rw [Thread.due?, hdelivered, hdelivery] at hdue
    cases hdue
  | @finished o lines hdelivery hdelivered hended hstored hprinted hlogged =>
    have hwritten : s.written? (.child p n) = some o := by simp [written?, hc, hstored]
    refine ⟨_, lines, hprinted, ThreadId.isFinal_announcement _ o, hlogged.not_isFinal, ?_⟩
    rw [hwritten]
    cases o with
    | ok v =>
      rw [ThreadId.announcement_ok]
      simp [ThreadId.commitLine_ne_failLine]
    | error e =>
      rw [ThreadId.announcement_error]
      simp [(ThreadId.commitLine_ne_failLine _ _).symm, (ThreadId.failLine_injective _).eq_iff]

theorem attributed : s.Attributed where
  main := by
    intro t text ht hmem
    rcases hs.mem_printed ht hmem with ⟨message, hmessage, rfl⟩ | ⟨k, -, rfl⟩ | ⟨⟨p, n, h⟩, -⟩
    · exact hmessage.not_startsWith_task
    · exact ThreadId.not_startsWith_task_spawnLine _
    · cases h
  task := by
    intro p n t text ht hmem
    rcases hs.mem_printed ht hmem with ⟨message, -, rfl⟩ | hspawned | ⟨-, hfinal⟩
    · exact .inl (ThreadId.startsWith_append _ _)
    · exact .inr hspawned
    · exact .inl hfinal.startsWith_mark
  own := by
    intro id u t text ht hmem hmark
    have htask := ThreadId.startsWith_task_of_mark hmark
    rcases hs.mem_printed ht hmem with ⟨message, hmessage, rfl⟩ | ⟨k, -, rfl⟩ | ⟨-, hfinal⟩
    · cases id with
      | main => exact absurd htask hmessage.not_startsWith_task
      | helper n | child p n =>
        exact ThreadId.eq_of_startsWith_mark hmark (ThreadId.startsWith_append _ _)
    · exact absurd htask (ThreadId.not_startsWith_task_spawnLine _)
    · exact ThreadId.eq_of_startsWith_mark hmark hfinal.startsWith_mark
  announced id t ht := hs.announced ht
  once p n id t hchild ht := hs.count_spawnLine hchild ht
  finished p n t ht hover := hs.finished ht hover
  running := by
    intro p n t ht hrunning
    obtain ⟨c, hc, hlogged⟩ := hs.task p n t ht
    cases hlogged with
    | running hdelivery hdelivered hempty hlogged =>
      exact ⟨hlogged.not_isFinal, by simp [written?, hc, hempty]⟩
    | finished hdelivery hdelivered hended hstored hprinted hlogged =>
      refine absurd (Thread.isOver_iff.2 ⟨?_, ?_⟩) hrunning
      · rw [hended]
        rfl
      · rw [Thread.due?, hdelivered]

end Logs

/-! ### Runs -/

theorem logs_launch (out : Provided) {p : Prog Work Result}
    (hp : p.Traces (ThreadId.main.context scopedLet) none) : (launch out p).Logs scopedLet where
  toCounted := (sound_launch out p).toCounted
  tasks := by
    intro u t n ht
    have hspawned : t.spawned = 0 := by
      cases u with
      | main =>
        cases ht
        rfl
      | helper k =>
        obtain ⟨w, -, rfl⟩ := Option.map_eq_some_iff.1 ht
        rfl
      | child q k => cases ht
    rw [hspawned]
    simp [launch]
    omega
  main t ht := by
    cases ht
    exact ⟨rfl, .complete hp .nil⟩
  aside n t ht := by
    obtain ⟨⟨name, generation, o⟩, -, rfl⟩ := Option.map_eq_some_iff.1 ht
    refine ⟨rfl, rfl, ?_, ?_⟩
    · cases o <;> rfl
    · rintro d ⟨⟩
      exact ⟨rfl, fun u h => by cases h⟩
  task u n t ht := by cases ht

/-- **Every line says whose it is.** However the threads of a program take their turns with tracing
on, no line of the main thread bears a mark; a task prints its own mark in front of each of its
lines but the announcements of the tasks that it spawned; every task is announced once, by the
thread that spawned it, in the order of the spawns; and the last line of a task that is over, and no
other, tells whether a value or a failure was written to its cell, and which failure. -/
theorem lines_attributed (stack : Stack) (out : Provided) (scopedLet : Bool) (env : Env) (e : Expr)
    {ids : List ThreadId} {last : System}
    (hrun : (launch out (stack.eval { debug := true, scopedLet } env e)).run stack ids =
      some last) :
    last.Attributed := by
  have hstart := logs_launch out (traces_eval stack.depth stack.room
    (ThreadId.main.context scopedLet) env e rfl)
  have hlast : last.Logs scopedLet := by
    refine run_induction (fun s id s' hs hstep => ?_) hstart hrun
    obtain ⟨t, m, ht, hm, rfl⟩ := step_eq_some_iff.1 hstep
    exact hs.after ht hm
  exact hlast.attributed

/-- A task spawns another one, which fails, and waits for it. Each is announced by the thread that
spawned it, and both tell that they have failed. -/
theorem lines_attributed_of_failing_task :
    let stack : Stack := ⟨5, none⟩
    let e : Expr := .sync (.spawn (.sync (.spawn (.var "x"))))
    let outer := ThreadId.child .main 1
    let inner := ThreadId.child outer 1
    let ids := [.main, .main, .main, .main, .main, outer, outer, outer, outer, outer, inner, inner,
      outer, outer, .main]
    ∃ last, (launch .none (stack.eval { debug := true, scopedLet := false } ⟨[]⟩ e)).run stack ids =
        some last ∧ last.Attributed ∧
      [.main, outer, inner].map (fun id => (last.thread id).map (·.printed.reverse)) = [
        some ["Evaluating: SYNC", "Evaluating: SPAWN", "Spawned task t1"],
        some ["[task t1] Evaluating: SYNC", "[task t1] Evaluating: SPAWN", "Spawned task t1.1",
          "[task t1] failed: UndefinedVariable: Undefined variable: x"],
        some ["[task t1.1] Evaluating: VARIABLE",
          "[task t1.1] failed: UndefinedVariable: Undefined variable: x"]] := by
  refine Exists.imp (fun last h => ⟨h.1, lines_attributed ⟨5, none⟩ .none false ⟨[]⟩ _ h.1, h.2⟩)
    (Option.map_eq_some_iff.1 ?_)
  decide +kernel

end System

end ForkJoin

import ForkJoin.Proofs.Run.Confluence
import ForkJoin.Proofs.Run.Ordered
import ForkJoin.Proofs.Trace

/-!
# The logs of threads

What the threads of a program print when it is run with tracing on. A thread keeps a log of messages
and announcements of spawned tasks (`ThreadId.Log`), in which its tasks are announced in the order
of their spawns; the only one that may be missing is the last, which is then announced next. A task
that has ended prints one line more, which tells what it has written to its cell.

`System.Logs` says so of a system, and every step keeps it so (`Logs.after`).
-/

namespace ForkJoin

namespace ThreadId

theorem announcement_ok (id : ThreadId) (v : Value) :
    announcement id.label (.ok v) = id.commitLine := by
  apply String.toList_injective
  simp [announcement, commitLine, toList_mark, toString]

theorem announcement_error (id : ThreadId) (e : Failure) :
    announcement id.label (.error e) = id.failLine e.text := by
  apply String.toList_injective
  simp [announcement, failLine, toList_mark, toString]

theorem isFinal_announcement (id : ThreadId) (o : Outcome) :
    id.IsFinal (announcement id.label o) := by
  cases o with
  | ok v => exact .inl (announcement_ok id v)
  | error e => exact .inr ⟨_, announcement_error id e⟩

def context (scopedLet : Bool) : ThreadId → Context
  | main => { debug := true, scopedLet }
  | id => { debug := true, scopedLet, task := id.label }

/-- What a thread has printed, the latest line first: messages and, in order, the announcements of
the first `n` tasks that it spawned. -/
inductive Log (id : ThreadId) : Nat → List String → Prop
  | nil : Log id 0 []
  | message {n : Nat} {lines : List String} {message : String} (hmessage : Message message)
      (hlog : Log id n lines) : Log id n (id.line message :: lines)
  | announce {n : Nat} {lines : List String} (hlog : Log id n lines) :
      Log id (n + 1) ((child id (n + 1)).spawnLine :: lines)

def spawnLines (lines : List String) : List String :=
  lines.filter (·.startsWith "Spawned task ")

variable {id : ThreadId} {n : Nat} {lines : List String} {scopedLet : Bool}

theorem debug_context (scopedLet : Bool) (id : ThreadId) :
    (id.context scopedLet).debug = true := by
  cases id <;> rfl

theorem context_child (scopedLet : Bool) (id : ThreadId) (n : Nat) :
    (id.context scopedLet).child (child id n).label = (child id n).context scopedLet := by
  cases id <;> rfl

theorem line_context (scopedLet : Bool) (id : ThreadId) (message : String) :
    (id.context scopedLet).line message = id.line message := by
  have hmarked : ∀ u : ThreadId,
      Context.line { debug := true, scopedLet, task := u.label } message = u.mark ++ message := by
    intro u
    have htruthy : (Datum.text u.label).isTruthy = true := by
      simp [Datum.isTruthy, u.label_ne_empty]
    rw [Context.line, if_pos htruthy]
    rfl
  cases id with
  | main => rfl
  | helper n | child p n => exact hmarked _

theorem Log.mem_cases (h : id.Log n lines) {text : String} (hmem : text ∈ lines) :
    (∃ message, Message message ∧ text = id.line message) ∨
      ∃ k, 1 ≤ k ∧ k ≤ n ∧ text = (child id k).spawnLine := by
  induction h with
  | nil => exact absurd hmem List.not_mem_nil
  | message hmessage _ ih =>
    rcases List.mem_cons.1 hmem with rfl | hmem
    · exact .inl ⟨_, hmessage, rfl⟩
    · exact ih hmem
  | announce _ ih =>
    rcases List.mem_cons.1 hmem with rfl | hmem
    · exact .inr ⟨_, Nat.succ_pos _, Nat.le_refl _, rfl⟩
    · rcases ih hmem with hmessage | ⟨k, hpos, hle, htext⟩
      · exact .inl hmessage
      · exact .inr ⟨k, hpos, Nat.le_succ_of_le hle, htext⟩

theorem Log.spawnLines_eq (h : id.Log n lines) :
    spawnLines lines.reverse = (List.range n).map fun k => (child id (k + 1)).spawnLine := by
  induction h with
  | nil => rfl
  | message hmessage _ ih =>
    have hother := hmessage.not_startsWith_spawned id
    simp only [spawnLines, List.reverse_cons, List.filter_append] at ih ⊢
    simp [ih, hother]
  | @announce n lines _ ih =>
    have hown : (child id (n + 1)).spawnLine.startsWith "Spawned task " := startsWith_append _ _
    simp only [spawnLines, List.reverse_cons, List.filter_append] at ih ⊢
    simp [ih, hown, List.range_succ]

end ThreadId

/-- What a program prints before its next act announces what is pending, and nothing else. -/
theorem Prog.Traces.spawnLines_lines {α : Type} {ctx : Context} {id : ThreadId}
    {pending : Option ThreadId} {p : Prog Work α} (h : p.Traces ctx pending)
    (hline : ∀ message, ctx.line message = id.line message) :
    ThreadId.spawnLines p.lines = pending.toList.map ThreadId.spawnLine := by
  induction h with
  | message hmessage _ ih =>
    have hother := hmessage.not_startsWith_spawned id
    simpa [Prog.lines, ThreadId.spawnLines, hline, hother] using ih
  | @announce new rest _ ih =>
    have hown : new.spawnLine.startsWith "Spawned task " := ThreadId.startsWith_append _ _
    simp only [ThreadId.spawnLines] at ih
    simp [Prog.lines, ThreadId.spawnLines, hown, ih]
  | done | fail | spawn | claim | await => rfl

/-! ### Threads that keep a log -/

inductive Thread.Logged (scopedLet : Bool) (id : ThreadId) (t : Thread) (lines : List String) : Prop
  | complete (hrest : t.rest.Traces (id.context scopedLet) none) (hlog : id.Log t.spawned lines)
  | pending {n : Nat} (hrest : t.rest.Traces (id.context scopedLet) (some (.child id (n + 1))))
      (hspawned : t.spawned = n + 1) (hlog : id.Log n lines)

/-- A task and its cell: before it has delivered, and after. -/
inductive Thread.TaskLogged (scopedLet : Bool) (id : ThreadId) (t : Thread) (c : Cell) : Prop
  | running (hdelivery : t.delivery = some ⟨.task id, id.label, true⟩)
      (hdelivered : t.delivered = none) (hempty : c.outcome = none)
      (hlogged : t.Logged scopedLet id t.printed)
  | finished {o : Outcome} {lines : List String}
      (hdelivery : t.delivery = some ⟨.task id, id.label, true⟩)
      (hdelivered : t.delivered = some (.ok ())) (hended : t.outcome? = some o)
      (hstored : c.outcome = some o) (hprinted : t.printed = announcement id.label o :: lines)
      (hlogged : t.Logged scopedLet id lines)

/-- A thread from outside, which has ended from the start, says nothing and writes to no cell of a
task. -/
structure Thread.Aside (t : Thread) : Prop where
  printed : t.printed = []
  spawned : t.spawned = 0
  ended : t.outcome?.isSome
  silent : ∀ d, t.delivery = some d → d.announce = false ∧ ∀ u, d.cell ≠ .task u

theorem Thread.Logged.not_isFinal {scopedLet : Bool} {p : ThreadId} {n : Nat} {t : Thread}
    {lines : List String} (h : t.Logged scopedLet (.child p n) lines) :
    ∀ text ∈ lines, ¬(ThreadId.child p n).IsFinal text := by
  intro text hmem hfinal
  obtain ⟨k, hlog⟩ : ∃ k, (ThreadId.child p n).Log k lines := by
    rcases h with ⟨-, hlog⟩ | ⟨-, -, hlog⟩
    · exact ⟨_, hlog⟩
    · exact ⟨_, hlog⟩
  rcases hlog.mem_cases hmem with ⟨message, hmessage, rfl⟩ | ⟨k, -, -, rfl⟩
  · exact hmessage.not_isFinal hfinal
  · exact ThreadId.not_startsWith_task_spawnLine _
      (ThreadId.startsWith_task_of_mark hfinal.startsWith_mark)

section Moves

variable {stack : Stack} {cell : CellId → Option Cell} {scopedLet : Bool} {id : ThreadId}
  {t : Thread} {m : Move}

/-- What is pending is announced by the next act, so a thread that does not print next has announced
all of its tasks. -/
theorem Thread.Logged.complete_of_ne_emit {lines : List String} (h : t.Logged scopedLet id lines)
    (hemit : ∀ line rest, t.rest ≠ .emit line rest) :
    t.rest.Traces (id.context scopedLet) none ∧ id.Log t.spawned lines := by
  rcases h with ⟨htraces, hlog⟩ | ⟨htraces, -, -⟩
  · exact ⟨htraces, hlog⟩
  · generalize t.rest = p at htraces hemit
    cases htraces with
    | announce => exact absurd rfl (hemit _ _)

theorem Thread.Moves.logged (hm : t.Moves stack cell id m)
    (h : t.Logged scopedLet id t.printed) (hended : t.outcome? = none) :
    m.thread.Logged scopedLet id m.thread.printed := by
  cases hm with
  | @print line rest hrest =>
    rcases h with ⟨htraces, hlog⟩ | ⟨htraces, hspawned, hlog⟩
    · rw [hrest] at htraces
      cases htraces with
      | message hmessage htraces =>
        refine .complete htraces ?_
        rw [ThreadId.line_context]
        exact .message hmessage hlog
    · rw [hrest] at htraces
      cases htraces with
      | announce htraces =>
        refine .complete htraces ?_
        change id.Log t.spawned _
        rw [hspawned]
        exact .announce hlog
  | spawn hrest =>
    obtain ⟨htraces, hlog⟩ := h.complete_of_ne_emit (by simp [hrest])
    rw [hrest] at htraces
    cases htraces with
    | spawn hcontext htraces => exact .pending (htraces _) rfl hlog
  | take hrest =>
    obtain ⟨htraces, hlog⟩ := h.complete_of_ne_emit (by simp [hrest])
    rw [hrest] at htraces
    cases htraces with
    | claim htraces => exact .complete htraces hlog
  | refuse hrest =>
    exact .complete (.fail _) (h.complete_of_ne_emit (by simp [hrest])).2
  | @receive _ _ _ o hrest =>
    obtain ⟨htraces, hlog⟩ := h.complete_of_ne_emit (by simp [hrest])
    rw [hrest] at htraces
    cases htraces with
    | await htraces =>
      cases o with
      | ok v => exact .complete (htraces v) hlog
      | error e => exact .complete (.fail e) hlog
  | deliver hended' | late hended' | lost hended' =>
    rw [hended] at hended'
    cases hended'

theorem Thread.Logged.congr {t' : Thread} {lines : List String} (h : t.Logged scopedLet id lines)
    (hrest : t'.rest = t.rest) (hspawned : t'.spawned = t.spawned) :
    t'.Logged scopedLet id lines := by
  rcases h with ⟨htraces, hlog⟩ | ⟨htraces, hcount, hlog⟩
  · exact .complete (hrest ▸ htraces) (hspawned ▸ hlog)
  · exact .pending (hrest ▸ htraces) (hspawned.trans hcount) hlog

theorem Thread.Logged.work_context {work : Work} {rest : ThreadId → Prog Work Result}
    {lines : List String} (h : t.Logged scopedLet id lines) (hrest : t.rest = .spawn work rest) :
    work.context = id.context scopedLet := by
  obtain ⟨htraces, -⟩ := h.complete_of_ne_emit (by simp [hrest])
  rw [hrest] at htraces
  cases htraces with
  | spawn hcontext => exact hcontext

theorem Thread.taskLogged_task {work : Work} (hcontext : work.context = id.context scopedLet)
    (stack : Stack) (n : Nat) {c : Cell} (hempty : c.outcome = none) :
    (task stack (.child id n) work).TaskLogged scopedLet (.child id n) c := by
  refine .running ?_ rfl hempty (.complete ?_ .nil)
  · simp [task, hcontext, ThreadId.debug_context]
  · simp only [task, hcontext, ThreadId.context_child]
    exact traces_eval stack.depth stack.room _ _ _ (ThreadId.debug_context _ _)

theorem Thread.Moves.start_cases (hm : t.Moves stack cell id m) :
    (m.start = none ∧ m.thread.spawned = t.spawned) ∨
      (∃ t', m.start = some (.child id (t.spawned + 1), t')) ∧
        m.thread.spawned = t.spawned + 1 := by
  cases hm with
  | spawn hrest => exact .inr ⟨⟨_, rfl⟩, rfl⟩
  | print | take | refuse | receive => exact .inl ⟨rfl, rfl⟩
  | deliver | late | lost => exact .inl ⟨rfl, announced_spawned _ _ _⟩

theorem Thread.Moves.of_ended {o : Outcome} (hm : t.Moves stack cell id m)
    (hended : t.outcome? = some o) : ∃ d, t.due? = some d ∧
      (∃ r, m.thread = { t.announced d o with delivered := some r }) ∧
      ∀ c, cell d.cell = some c → c.outcome = none →
        m.thread.delivered = some (.ok ()) ∧ m.change = .put d.cell o := by
  cases hm with
  | print hrest | spawn hrest | take hrest | refuse hrest | receive hrest =>
    rw [Thread.outcome?, hrest] at hended
    cases hended
  | deliver hended' hdue =>
    cases hended.symm.trans hended'
    exact ⟨_, hdue, ⟨_, rfl⟩, fun c _ _ => ⟨rfl, rfl⟩⟩
  | late hended' hdue hcell hwritten =>
    cases hended.symm.trans hended'
    refine ⟨_, hdue, ⟨_, rfl⟩, fun c hc hempty => ?_⟩
    cases hcell.symm.trans hc
    rw [hempty] at hwritten
    cases hwritten
  | lost hended' hdue hcell =>
    cases hended.symm.trans hended'
    refine ⟨_, hdue, ⟨_, rfl⟩, fun c hc _ => ?_⟩
    rw [hcell] at hc
    cases hc

end Moves

/-! ### Systems that keep logs -/

/-- A system whose threads keep logs: the main thread, which delivers nothing, the tasks, and beside
them threads from outside. The tasks of a thread are those that it has counted. -/
structure System.Logs (scopedLet : Bool) (s : System) : Prop extends s.Counted where
  tasks : ∀ p t n, s.thread p = some t →
    ((s.thread (.child p n)).isSome ↔ 1 ≤ n ∧ n ≤ t.spawned)
  main : ∀ t, s.thread .main = some t → t.delivery = none ∧ t.Logged scopedLet .main t.printed
  aside : ∀ n t, s.thread (.helper n) = some t → t.Aside
  task : ∀ p n t, s.thread (.child p n) = some t →
    ∃ c, s.cell (.task (.child p n)) = some c ∧ t.TaskLogged scopedLet (.child p n) c

namespace System

variable {stack : Stack} {scopedLet : Bool} {s s' : System} {id : ThreadId} {t : Thread} {m : Move}

theorem isSome_after_iff (ht : s.thread id = some t) (u : ThreadId) :
    ((s.after id m).thread u).isSome ↔ (s.thread u).isSome ∨ ∃ t', m.start = some (u, t') := by
  by_cases hu : u = id
  · simp [after, hu, ht]
  · simp only [after, if_neg hu, Option.isSome_or, Bool.or_eq_true, Option.isSome_iff_exists,
      Move.started?_eq_some_iff]
    exact or_comm

namespace Logs

theorem delivers_own (hs : s.Logs scopedLet) (ht : s.thread id = some t) {d : Delivery}
    {u : ThreadId} (hd : t.delivery = some d) (hcell : d.cell = .task u) : u = id := by
  cases id with
  | main =>
    rw [(hs.main t ht).1] at hd
    cases hd
  | helper n => exact absurd hcell (((hs.aside n t ht).silent d hd).2 u)
  | child p n =>
    obtain ⟨c, -, ⟨hdelivery, -, -, -⟩ | ⟨hdelivery, -, -, -, -, -⟩⟩ := hs.task p n t ht
    all_goals
      rw [hdelivery] at hd
      cases hd
      exact (CellId.task.inj hcell).symm

theorem logged (hs : s.Logs scopedLet) (ht : s.thread id = some t) (hended : t.outcome? = none) :
    t.Logged scopedLet id t.printed := by
  cases id with
  | main => exact (hs.main t ht).2
  | helper n =>
    have hisSome := (hs.aside n t ht).ended
    rw [hended] at hisSome
    cases hisSome
  | child p n =>
    obtain ⟨c, -, ⟨-, -, -, hlogged⟩ | ⟨-, -, hended', -, -, -⟩⟩ := hs.task p n t ht
    · exact hlogged
    · rw [hended] at hended'
      cases hended'

theorem tasks_after (hs : s.Logs scopedLet) (ht : s.thread id = some t)
    (hm : t.Moves stack s.cell id m) (p : ThreadId) (t' : Thread) (n : Nat)
    (ht' : (s.after id m).thread p = some t') :
    ((s.after id m).thread (.child p n)).isSome ↔ 1 ≤ n ∧ n ≤ t'.spawned := by
  rw [isSome_after_iff ht]
  rcases after_thread_eq_some ht' with ⟨rfl, rfl⟩ | ⟨-, hstart⟩ | ⟨hne, hthread⟩
  · rw [hs.tasks p t n ht]
    rcases hm.start_cases with ⟨hstart, hspawned⟩ | ⟨⟨t', hstart⟩, hspawned⟩
    · simp [hstart, hspawned]
    · simp only [hstart, hspawned, Option.some.injEq, Prod.mk.injEq, ThreadId.child.injEq, true_and,
        exists_and_left, exists_eq', and_true]
      omega
  · -- The task is new and has spawned nothing yet.
    obtain ⟨rfl, -, -, work, rest, -, rfl⟩ := hm.of_start hstart
    have hnone : s.thread (.child (.child id (t.spawned + 1)) n) = none := by
      rw [← Option.not_isSome_iff_eq_none]
      intro h
      obtain ⟨u, hu, -⟩ := hs.thread _ _ h
      rw [hs.thread_new ht] at hu
      cases hu
    simp [hnone, hstart, Thread.task, (ThreadId.child_ne _ _).symm]
    omega
  · rw [hs.tasks p t' n hthread]
    refine or_iff_left ?_
    rintro ⟨u, hstart⟩
    obtain ⟨hchild, -⟩ := hm.of_start hstart
    exact hne (ThreadId.child.inj hchild).1

theorem main_after (hs : s.Logs scopedLet) (ht : s.thread id = some t)
    (hm : t.Moves stack s.cell id m) (t' : Thread)
    (ht' : (s.after id m).thread .main = some t') :
    t'.delivery = none ∧ t'.Logged scopedLet .main t'.printed := by
  rcases after_thread_eq_some ht' with ⟨rfl, rfl⟩ | ⟨-, hstart⟩ | ⟨-, hthread⟩
  · obtain ⟨hdelivery, hlogged⟩ := hs.main t ht
    refine ⟨hm.delivery_eq.trans hdelivery, ?_⟩
    cases hended : t.outcome? with
    | none => exact hm.logged hlogged hended
    | some o =>
      obtain ⟨d, hdue, -⟩ := hm.of_ended hended
      rw [Thread.delivery_of_due? hdue] at hdelivery
      cases hdelivery
  · cases (hm.of_start hstart).1
  · exact hs.main t' hthread

theorem aside_after (hs : s.Logs scopedLet) (ht : s.thread id = some t)
    (hm : t.Moves stack s.cell id m) (n : Nat) (t' : Thread)
    (ht' : (s.after id m).thread (.helper n) = some t') : t'.Aside := by
  rcases after_thread_eq_some ht' with ⟨rfl, rfl⟩ | ⟨-, hstart⟩ | ⟨-, hthread⟩
  · obtain ⟨hprinted, hspawned, hended, hsilent⟩ := hs.aside n t ht
    obtain ⟨o, ho⟩ := Option.isSome_iff_exists.1 hended
    obtain ⟨d, hdue, ⟨r, hthread⟩, -⟩ := hm.of_ended ho
    have hannounced : t.announced d o = t := by
      rw [Thread.announced, (hsilent d (Thread.delivery_of_due? hdue)).1]
      rfl
    rw [hthread, hannounced]
    exact ⟨hprinted, hspawned, hended, hsilent⟩
  · cases (hm.of_start hstart).1
  · exact hs.aside n t' hthread

/-- A task that moves goes on with its log, or delivers to its cell. -/
theorem task_moves {p : ThreadId} {n : Nat} (hs : s.Logs scopedLet)
    (ht : s.thread (.child p n) = some t) (hm : t.Moves stack s.cell (.child p n) m) :
    ∃ c, (s.after (.child p n) m).cell (.task (.child p n)) = some c ∧
      m.thread.TaskLogged scopedLet (.child p n) c := by
  obtain ⟨c, hc, hlogged⟩ := hs.task p n t ht
  obtain ⟨c', hc', hstored⟩ := hs.outcome_after ht hm hc
  refine ⟨c', hc', ?_⟩
  cases hlogged with
  | running hdelivery hdelivered hempty hlogged =>
    cases hended : t.outcome? with
    | none =>
      have hkept : c'.outcome = c.outcome := by
        rcases hstored with ⟨hsame, -⟩ | ⟨o, hput, -⟩
        · exact hsame
        · rw [(hm.of_put hput).1] at hended
          cases hended
      exact .running (hm.delivery_eq.trans hdelivery) ((hm.delivered_eq hended).trans hdelivered)
        (hkept.trans hempty) (hm.logged hlogged hended)
    | some o =>
      obtain ⟨d, hdue, ⟨r, hthread⟩, hwrites⟩ := hm.of_ended hended
      cases (Thread.delivery_of_due? hdue).symm.trans hdelivery
      obtain ⟨hdelivered', hput⟩ := hwrites c hc hempty
      have hwritten : c'.outcome = some o := by
        rcases hstored with ⟨-, hno⟩ | ⟨o', hput', ho'⟩
        · exact absurd hput (hno o)
        · cases hput.symm.trans hput'
          exact ho'
      rw [hthread] at hdelivered' ⊢
      refine .finished ?_ hdelivered' ?_ hwritten rfl
        (hlogged.congr (Thread.announced_rest _ _ _) (Thread.announced_spawned _ _ _))
      · exact (Thread.announced_delivery _ _ _).trans hdelivery
      · rw [← hended]
        simp [Thread.outcome?]
  | finished hdelivery hdelivered hended hcell hprinted hlogged =>
    -- A task that has delivered does not move.
    obtain ⟨d, hdue, -⟩ := hm.of_ended hended
    rw [Thread.due?, hdelivered] at hdue
    cases hdue

theorem task_after (hs : s.Logs scopedLet) (ht : s.thread id = some t)
    (hm : t.Moves stack s.cell id m) (p : ThreadId) (n : Nat) (t' : Thread)
    (ht' : (s.after id m).thread (.child p n) = some t') :
    ∃ c, (s.after id m).cell (.task (.child p n)) = some c ∧
      t'.TaskLogged scopedLet (.child p n) c := by
  rcases after_thread_eq_some ht' with ⟨rfl, rfl⟩ | ⟨-, hstart⟩ | ⟨hne, hthread⟩
  · exact hs.task_moves ht hm
  · obtain ⟨hchild, -, hmake, work, rest, hrest, rfl⟩ := hm.of_start hstart
    obtain ⟨rfl, rfl⟩ := ThreadId.child.inj hchild
    have hlogged := hs.logged ht (by rw [Thread.outcome?, hrest])
    exact ⟨{ label := .text (ThreadId.child p (t.spawned + 1)).label },
      by simp [System.after, hmake, Change.on],
      Thread.taskLogged_task (hlogged.work_context hrest) stack _ rfl⟩
  · obtain ⟨c, hc, hlogged⟩ := hs.task p n t' hthread
    obtain ⟨c', hc', ⟨hsame, -⟩ | ⟨o, hput, -⟩⟩ := hs.outcome_after ht hm hc
    · refine ⟨c', hc', ?_⟩
      cases hlogged with
      | running hdelivery hdelivered hempty hlogged =>
        exact .running hdelivery hdelivered (hsame.trans hempty) hlogged
      | finished hdelivery hdelivered hended hcell hprinted hlogged =>
        exact .finished hdelivery hdelivered hended (hsame.trans hcell) hprinted hlogged
    · obtain ⟨-, d, hdue, hcell, -⟩ := hm.of_put hput
      exact absurd (hs.delivers_own ht (Thread.delivery_of_due? hdue) hcell) hne

theorem after (hs : s.Logs scopedLet) (ht : s.thread id = some t)
    (hm : t.Moves stack s.cell id m) : (s.after id m).Logs scopedLet where
  toCounted := hs.toCounted.after ht hm
  tasks := hs.tasks_after ht hm
  main := hs.main_after ht hm
  aside := hs.aside_after ht hm
  task := hs.task_after ht hm

/-- What a thread prints is its log, and what a task prints when it delivers. -/
theorem exists_log (hs : s.Logs scopedLet) (ht : s.thread id = some t) :
    ∃ last lines, t.printed = last ++ lines ∧ t.Logged scopedLet id lines ∧
      ∀ text ∈ last, (∃ p n, id = .child p n) ∧ id.IsFinal text := by
  cases id with
  | main => exact ⟨[], _, rfl, (hs.main t ht).2, fun _ h => absurd h List.not_mem_nil⟩
  | helper n =>
    obtain ⟨hprinted, hspawned, hended, -⟩ := hs.aside n t ht
    refine ⟨[], [], hprinted, .complete ?_ ?_, fun _ h => absurd h List.not_mem_nil⟩
    · unfold Thread.outcome? at hended
      cases hrest : t.rest with
      | done r => exact .done r
      | fail e => exact .fail e
      | emit | spawn | claim | await => simp [hrest] at hended
    · rw [hspawned]
      exact .nil
  | child p n =>
    obtain ⟨c, -, ⟨-, -, -, hlogged⟩ | ⟨-, -, -, -, hprinted, hlogged⟩⟩ := hs.task p n t ht
    · exact ⟨[], _, rfl, hlogged, fun _ h => absurd h List.not_mem_nil⟩
    · refine ⟨[_], _, hprinted, hlogged, fun text htext => ⟨⟨p, n, rfl⟩, ?_⟩⟩
      rw [List.mem_singleton.1 htext]
      exact ThreadId.isFinal_announcement _ _

end Logs

end System

end ForkJoin

import ForkJoin.Proofs.Session.Uses

/-!
# Threads in two runs

Two runs from one stage are compared thread by thread. A thread passes through the states that it
has when it has made some number of steps (`Passes`), and it agrees in the two runs if it passes
through the same states in both, as far as it comes (`Agree`). Then all that a thread brings about
is the same in both: what it ends with, the tasks that it spawns, and the cells that it takes.
-/

namespace ForkJoin

namespace Thread

variable {stack : Stack} {cell cell' : CellId → Option Cell} {id : ThreadId} {t : Thread}
  {m m' : Move}

theorem map_thread_finish (h : ∀ d, t.due? = some d → ∃ c, cell d.cell = some c ∧ c.outcome = none)
    (o : Outcome) : (t.finish cell o).map (·.thread) =
      t.due?.map fun d => { t.announced d o with delivered := some (.ok ()) } := by
  cases hdue : t.due? with
  | none =>
    cases hfinish : t.finish cell o with
    | none => rfl
    | some e =>
      obtain ⟨d, hd, -⟩ := finish_eq_some_iff.1 hfinish
      rw [hdue] at hd
      cases hd
  | some d =>
    obtain ⟨c, hc, hempty⟩ := h d hdue
    rw [finish_eq_some_iff.2 ⟨d, hdue, rfl⟩]
    simp [deliver, hc, Cell.write, hempty, announced]

/-- What becomes of a thread in its step depends only on what it finds in the cell that it asks
for. -/
theorem Moves.thread_eq (hm : t.Moves stack cell id m) (hm' : t.Moves stack cell' id m')
    (hclaim : ∀ x rest c c', t.rest = .claim x rest → cell x = some c → cell' x = some c' →
      c'.label = c.label ∧ c'.claimed = c.claimed)
    (hawait : ∀ x rest c c' o o', t.rest = .await x rest → cell x = some c → cell' x = some c' →
      c.outcome = some o → c'.outcome = some o' → o' = o)
    (hdue : ∀ d, t.due? = some d → ∃ c, cell d.cell = some c ∧ c.outcome = none)
    (hdue' : ∀ d, t.due? = some d → ∃ c, cell' d.cell = some c ∧ c.outcome = none) :
    m'.thread = m.thread := by
  have hact : (t.act stack cell id).map (·.thread) = some m.thread := by
    rw [hm.act]
    rfl
  have hact' : (t.act stack cell' id).map (·.thread) = some m'.thread := by
    rw [hm'.act]
    rfl
  refine Option.some.inj (hact'.symm.trans (Eq.trans ?_ hact))
  cases hrest : t.rest with
  | done r | fail e =>
    simp only [Thread.act, hrest, map_thread_finish hdue, map_thread_finish hdue']
  | emit line rest | spawn work rest => simp only [Thread.act, hrest]
  | claim x rest =>
    cases hc : cell x with
    | none => simp [Thread.act, hrest, hc] at hact
    | some c =>
      cases hc' : cell' x with
      | none => simp [Thread.act, hrest, hc'] at hact'
      | some c' =>
        obtain ⟨hlabel, hclaimed⟩ := hclaim x rest c c' hrest hc hc'
        simp only [Thread.act, hrest, hc, hc', Cell.claim, hlabel, hclaimed]
        cases c.claimed <;> rfl
  | await x rest =>
    cases ho : (cell x).bind (·.outcome) with
    | none => simp [Thread.act, hrest, ho] at hact
    | some o =>
      cases ho' : (cell' x).bind (·.outcome) with
      | none => simp [Thread.act, hrest, ho'] at hact'
      | some o' =>
        obtain ⟨c, hc, hwritten⟩ := Option.bind_eq_some_iff.1 ho
        obtain ⟨c', hc', hwritten'⟩ := Option.bind_eq_some_iff.1 ho'
        cases hawait x rest c c' o o' hrest hc hc' hwritten hwritten'
        simp only [Thread.act, hrest, ho, ho']

theorem Moves.spawned_of_spawn {work : Work} {rest : ThreadId → Prog Work Result}
    (hm : t.Moves stack cell id m) (hrest : t.rest = .spawn work rest) :
    m.thread.spawned = t.spawned + 1 := by
  cases hm with
  | spawn => rfl
  | print hrest' | take hrest' | refuse hrest' | receive hrest' =>
    rw [hrest] at hrest'
    cases hrest'
  | deliver hended | late hended | lost hended =>
    rw [outcome?, hrest] at hended
    cases hended

end Thread

theorem System.Posted.of_cell {s : System} {p : ThreadId} {n : Nat} {c : Cell} (hs : s.Posted)
    (hc : s.cell (.task (.child p n)) = some c) : ∃ t, s.thread (.child p n) = some t ∧
      c.label = .text (ThreadId.child p n).label ∧ c.outcome = t.posted? := by
  obtain ⟨t, ht⟩ := Option.isSome_iff_exists.1 (hs.maker p n (by rw [hc]; rfl))
  obtain ⟨c', hc', hpost⟩ := hs.post p n t ht
  cases hc.symm.trans hc'
  exact ⟨t, ht, hpost⟩

theorem ThreadId.Under.exists_child {u q : ThreadId} {k : Nat} (h : u.Under (.child q k)) :
    ∃ p n, u = .child p n := by
  cases u with
  | child p n => exact ⟨p, n, rfl⟩
  | main | helper n =>
    rcases h with h | h
    · cases h
    · cases h

/-! ### The states that a thread passes through -/

namespace Stage

variable {stack : Stack} {tidy : Env → Env} {s s' mid mid' : Stage} {ev : Event}
  {evs evs' before more : List Event} {p u : ThreadId} {n j k k' : Nat} {t t' : Thread} {m : Move}

/-- A state that a thread has in a run when it has made a number of steps. -/
def Passes (stack : Stack) (tidy : Env → Env) (s : Stage) (evs : List Event) (u : ThreadId)
    (k : Nat) (t : Thread) : Prop :=
  ∃ before after mid, evs = before ++ after ∧ s.run stack tidy before = some mid ∧
    turns u before = k ∧ mid.system.thread u = some t

theorem passes_last (h : s.run stack tidy evs = some s') (ht : s'.system.thread u = some t) :
    s.Passes stack tidy evs u (turns u evs) t :=
  ⟨evs, [], s', (List.append_nil evs).symm, h, rfl, ht⟩

theorem Moment.passes (h : Moment stack tidy s evs u before mid t m) :
    s.Passes stack tidy evs u (turns u before) t := by
  obtain ⟨⟨after, rfl⟩, hrun, ht, -⟩ := h
  exact ⟨before, .step u :: after, mid, rfl, hrun, rfl, ht⟩

theorem Passes.append (h : s.Passes stack tidy evs u k t) (more : List Event) :
    s.Passes stack tidy (evs ++ more) u k t := by
  obtain ⟨before, after, mid, rfl, h⟩ := h
  exact ⟨before, after ++ more, mid, List.append_assoc _ _ _, h⟩

theorem Moment.append (h : Moment stack tidy s evs u before mid t m) (more : List Event) :
    Moment stack tidy s (evs ++ more) u before mid t m := by
  obtain ⟨⟨after, rfl⟩, hmid, ht, hm⟩ := h
  exact ⟨⟨after ++ more, List.append_assoc _ _ _⟩, hmid, ht, hm⟩

theorem Moment.turns_lt (h : Moment stack tidy s evs u before mid t m) :
    turns u before < turns u evs := by
  obtain ⟨⟨after, rfl⟩, -⟩ := h
  rw [turns_append, turns_cons_step]
  omega

theorem Moment.cell_later {x : CellId} {c : Cell} (h : Moment stack tidy s evs u before mid t m)
    (hs : s.system.Posted) (hrun : s.run stack tidy evs = some s')
    (hx : mid.system.cell x = some c) : ∃ c', s'.system.cell x = some c' ∧ c.Later c' := by
  obtain ⟨after, rfl⟩ := h.split
  obtain ⟨mid', hmid', hrest⟩ := run_append_eq_some_iff.1 hrun
  cases h.run.symm.trans hmid'
  exact Stage.cell_later (posted_run hs h.run) hrest hx

theorem Passes.of_concat (h : s.Passes stack tidy (evs ++ [ev]) u k t) :
    s.Passes stack tidy evs u k t ∨ k = turns u (evs ++ [ev]) ∧
      ∃ last, s.run stack tidy (evs ++ [ev]) = some last ∧ last.system.thread u = some t := by
  obtain ⟨before, after, mid, hsplit, hmid, hturns, ht⟩ := h
  rcases List.eq_nil_or_concat after with rfl | ⟨after, last, rfl⟩
  · rw [List.append_nil] at hsplit
    subst hsplit
    exact .inr ⟨hturns.symm, mid, hmid, ht⟩
  · rw [List.concat_eq_append, ← List.append_assoc] at hsplit
    obtain ⟨rfl, -⟩ := List.append_inj' hsplit rfl
    exact .inl ⟨before, after, mid, rfl, hmid, hturns, ht⟩

/-- In a state that is not its last one a thread makes a move, and its later states come from it. -/
theorem Passes.exists_moment (h : s.Passes stack tidy evs (.child p n) k t)
    (hs : s.system.Posted) (hj : j < k) : ∃ before mid t₀ m, turns (.child p n) before = j ∧
      Moment stack tidy s evs (.child p n) before mid t₀ m ∧ m.thread.Later t := by
  obtain ⟨whole, more, last, rfl, hlast, rfl, ht⟩ := h
  obtain ⟨before, mid, t₀, m, hturns, hmoment⟩ := Stage.exists_moment hlast hj
  obtain ⟨t', ht', hlater⟩ := hmoment.exists_later hs hlast
  cases ht.symm.trans ht'
  exact ⟨before, mid, t₀, m, hturns, hmoment.append more, hlater⟩

theorem Passes.exists_last (h : s.Passes stack tidy evs (.child p n) k t) (hs : s.system.Posted)
    (hrun : s.run stack tidy evs = some s') :
    ∃ t', s'.system.thread (.child p n) = some t' ∧ t.Later t' := by
  obtain ⟨before, after, mid, rfl, hmid, -, ht⟩ := h
  obtain ⟨mid', hmid', hrest⟩ := run_append_eq_some_iff.1 hrun
  cases hmid.symm.trans hmid'
  exact task_later (posted_run hs hmid) hrest ht

theorem Moment.passes_next (h : Moment stack tidy s evs u before mid t m)
    (hrun : s.run stack tidy evs = some s') :
    s.Passes stack tidy evs u (turns u before + 1) m.thread := by
  obtain ⟨after, next, rfl, hnext, hafter, -⟩ := h.exists_next hrun
  refine ⟨before ++ [.step u], after, next, by simp, run_concat_eq_some_iff.2 ⟨mid, h.run, hnext⟩,
    ?_, hafter ▸ System.after_thread_self⟩
  rw [turns_append, turns_cons_step]
  rfl

theorem Moment.passes_new {work : Work} {rest : ThreadId → Prog Work Result}
    (h : Moment stack tidy s evs u before mid t m) (hs : s.system.Posted)
    (hrun : s.run stack tidy evs = some s') (hrest : t.rest = .spawn work rest) :
    s.Passes stack tidy evs (.child u (t.spawned + 1)) 0
      (.task stack (.child u (t.spawned + 1)) work) := by
  obtain ⟨after, next, rfl, hnext, hafter, -⟩ := h.exists_next hrun
  refine ⟨before ++ [.step u], after, next, by simp, run_concat_eq_some_iff.2 ⟨mid, h.run, hnext⟩,
    turns_concat_parent hs h.run ((posted_run hs h.run).toCounted.thread_new h.thread), ?_⟩
  rw [hafter]
  exact System.thread_of_spawn? (System.spawn?_of_rest h.thread hrest)
    (System.step_of_moves h.thread h.moves)

theorem thread_none_of_run (hs : s.system.Posted) (h : s.run stack tidy evs = some s')
    (hnone : s'.system.thread (.child p n) = none) : s.system.thread (.child p n) = none := by
  cases ht : s.system.thread (.child p n) with
  | none => rfl
  | some t =>
    obtain ⟨t', ht', -⟩ := task_later hs h ht
    rw [hnone] at ht'
    cases ht'

/-- A task that is new below an older one was spawned by a thread that is below that, or by that
one itself, and has made no step. -/
theorem spawned_under {q : ThreadId} {l : Nat} (hs : s.system.Posted)
    (hrun : s.run stack tidy evs = some mid) (hnext : mid.next stack tidy ev = some s')
    (htask : (s.system.thread (.child q l)).isSome) (hu : (ThreadId.child p n).Under (.child q l))
    (hnone : mid.system.thread (.child p n) = none)
    (ht : s'.system.thread (.child p n) = some t) :
    ev = .step p ∧ p.Under (.child q l) ∧ turns (.child p n) (evs ++ [ev]) = 0 ∧
      ∃ w work rest, mid.system.thread p = some w ∧ w.rest = .spawn work rest ∧
        n = w.spawned + 1 ∧ t = .task stack (.child p n) work := by
  obtain ⟨rfl, hspawn⟩ := task_new hnext hnone ht
  refine ⟨rfl, ?_, turns_concat_parent hs hrun hnone, hspawn⟩
  rcases hu with heq | hbelow
  · rw [← heq, thread_none_of_run hs hrun hnone] at htask
    cases htask
  · exact ThreadId.child_below_iff.1 hbelow

/-! ### Threads that go through the same states -/

/-- A thread goes through the same states in two runs, as far as it comes in both. -/
def Agree (stack : Stack) (tidy : Env → Env) (s : Stage) (u : ThreadId) (evs evs' : List Event) :
    Prop :=
  ∀ k t t', s.Passes stack tidy evs u k t → s.Passes stack tidy evs' u k t' → t = t'

namespace Agree

theorem symm (h : s.Agree stack tidy u evs evs') : s.Agree stack tidy u evs' evs :=
  fun k t t' ht ht' => (h k t' t ht' ht).symm

theorem of_append_right (h : s.Agree stack tidy u evs (evs' ++ more)) :
    s.Agree stack tidy u evs evs' :=
  fun k t t' ht ht' => h k t t' ht (ht'.append more)

/-- Two states of such a thread are the same, or one comes from a move that is made in the other. -/
theorem compare (h : s.Agree stack tidy (.child p n) evs evs') (hs : s.system.Posted)
    (ht : s.Passes stack tidy evs (.child p n) k t)
    (ht' : s.Passes stack tidy evs' (.child p n) k' t') :
    (k = k' ∧ t = t') ∨
      (∃ cell m, t.Moves stack cell (.child p n) m ∧ m.thread.Later t') ∨
      ∃ cell m, t'.Moves stack cell (.child p n) m ∧ m.thread.Later t := by
  rcases Nat.lt_trichotomy k k' with hlt | rfl | hlt
  · obtain ⟨before, mid, t₀, m, rfl, hmoment, hlater⟩ := ht'.exists_moment hs hlt
    cases h _ t t₀ ht hmoment.passes
    exact .inr (.inl ⟨_, m, hmoment.moves, hlater⟩)
  · exact .inl ⟨rfl, h k t t' ht ht'⟩
  · obtain ⟨before, mid, t₀, m, rfl, hmoment, hlater⟩ := ht.exists_moment hs hlt
    cases h _ t₀ t' hmoment.passes ht'
    exact .inr (.inr ⟨_, m, hmoment.moves, hlater⟩)

theorem later (h : s.Agree stack tidy (.child p n) evs evs') (hs : s.system.Posted)
    (ht : s.Passes stack tidy evs (.child p n) k t)
    (ht' : s.Passes stack tidy evs' (.child p n) k' t') : t.Later t' ∨ t'.Later t := by
  rcases h.compare hs ht ht' with ⟨-, rfl⟩ | ⟨cell, m, hm, hlater⟩ | ⟨cell, m, hm, hlater⟩
  · exact .inl (.refl t)
  · exact .inl ((Thread.Later.of_moves hm).trans hlater)
  · exact .inr ((Thread.Later.of_moves hm).trans hlater)

theorem eq_of_spawn {work work' : Work} {rest rest' : ThreadId → Prog Work Result}
    (h : s.Agree stack tidy (.child p n) evs evs') (hs : s.system.Posted)
    (ht : s.Passes stack tidy evs (.child p n) k t)
    (ht' : s.Passes stack tidy evs' (.child p n) k' t') (hrest : t.rest = .spawn work rest)
    (hrest' : t'.rest = .spawn work' rest') (hspawned : t.spawned = t'.spawned) : t = t' := by
  rcases h.compare hs ht ht' with ⟨-, rfl⟩ | ⟨cell, m, hm, hlater⟩ | ⟨cell, m, hm, hlater⟩
  · rfl
  · have hle := hlater.spawned
    rw [hm.spawned_of_spawn hrest] at hle
    omega
  · have hle := hlater.spawned
    rw [hm.spawned_of_spawn hrest'] at hle
    omega

/-- A cell that a thread takes in the second run is claimed in the first one, once the thread has
made as many steps there. -/
theorem claimed {x : CellId} (h : s.Agree stack tidy u evs evs') (hs : s.system.Posted)
    (hrun : s.run stack tidy evs = some mid) (hrun' : s.run stack tidy evs' = some mid')
    (hturns : turns u evs' ≤ turns u evs) (htake : ⟨u, x, .take⟩ ∈ s.uses stack tidy evs') :
    ∃ c, mid.system.cell x = some c ∧ c.claimed = true := by
  obtain ⟨before', first', t', m', hmoment', huse⟩ := exists_moment_of_mem hrun' htake
  obtain ⟨rest, hrest⟩ := System.claim_of_take hmoment'.thread huse
  obtain ⟨before, first, t, m, heq, hmoment⟩ :=
    exists_moment hrun (Nat.lt_of_lt_of_le hmoment'.turns_lt hturns)
  cases h _ t t' (heq ▸ hmoment.passes) hmoment'.passes
  exact hmoment.claimed hs hrun hrest

/-- A cell that is claimed in the second run is claimed in the first one, if no other thread has
taken it. -/
theorem claimed_of_claimed {x : CellId} {c c' : Cell} (h : s.Agree stack tidy u evs evs')
    (hs : s.system.Posted) (hrun : s.run stack tidy evs = some mid)
    (hrun' : s.run stack tidy evs' = some mid') (hturns : turns u evs' ≤ turns u evs)
    (hx : mid.system.cell x = some c) (hx' : mid'.system.cell x = some c')
    (hclaimed : c'.claimed = true) (halone : ∀ v, ⟨v, x, .take⟩ ∈ s.uses stack tidy evs' → v = u) :
    c.claimed = true := by
  rcases claimed_run hrun' hx' hclaimed with ⟨c₀, hx₀, hclaimed₀⟩ | ⟨v, htake⟩
  · obtain ⟨c₁, hx₁, hlater⟩ := cell_later hs hrun hx₀
    cases hx.symm.trans hx₁
    exact hlater.claimed hclaimed₀
  · obtain rfl := halone v htake
    obtain ⟨c₁, hx₁, hclaimed₁⟩ := h.claimed hs hrun hrun' hturns htake
    cases hx.symm.trans hx₁
    exact hclaimed₁

end Agree

end Stage

end ForkJoin

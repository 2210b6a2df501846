import ForkJoin.Proofs.Session.Agreement

/-!
# Tasks keep to themselves

What a task does depends on what it was given at its spawn, on what it finds in cells and on whether
its claims are granted, and on nothing else. Here two ways in which a session may go on are compared
for a task and the tasks below it, its family. If the cells that the family asks for hold the same
in both, if nobody else takes them, and if no cell goes to different ones of the family, then every
thread of the family goes through the same states in both, as far as it comes.

That the states agree (`Uncontested.agree`) is shown by induction over the first of the two runs:
what a step finds in a cell of the family was put there before it. That the second run gets as far
as the first one is a second induction of the same kind (`Uncontested.catches_up`).

Without the last condition the outcome of a task may depend on the order in which the outside writes
to cells, even if it writes the same: two tasks of a family may wait for different cells before they
claim a third one, and only the first to claim it gets it.
-/

namespace ForkJoin

theorem Thread.Waits.outcome?_eq_none {cell : CellId → Option Cell} {t : Thread}
    (h : t.Waits cell) : t.outcome? = none := by
  unfold Waits at h
  split at h
  case h_1 hrest | h_2 hrest => rw [outcome?, hrest]
  case h_3 => exact h.elim

namespace Stage

variable {stack : Stack} {tidy : Env → Env} {s s' mid mid' : Stage} {ev : Event}
  {evs evs' before more : List Event} {p u : ThreadId} {n j k k' : Nat} {t t' : Thread} {m : Move}

/-- Two ways in which a session may go on after a task was spawned: the cells that the family of the
task asks for in the first way end with the same outcomes in the second way, and nobody else takes
them. -/
structure Continued (stack : Stack) (tidy : Env → Env) (task : ThreadId) (s : Stage)
    (evs evs' : List Event) (a b : Stage) : Prop where
  run : s.run stack tidy evs = some a
  run' : s.run stack tidy evs' = some b
  cells : ∀ use ∈ s.uses stack tidy evs, use.thread.Under task →
    (∀ u, u.Under task → use.cell ≠ .task u) → ∀ c, a.system.cell use.cell = some c →
      ∃ c', b.system.cell use.cell = some c' ∧ c'.label = c.label ∧
        ∀ o, c.outcome = some o → c'.outcome = some o
  alone : ∀ use ∈ s.uses stack tidy evs, use.thread.Under task →
    ∀ other ∈ s.uses stack tidy evs ++ s.uses stack tidy evs', other.cell = use.cell →
      other.deed = .take → other.thread.Under task

/-- Two such ways in which no cell goes to different ones of the family. -/
structure Uncontested (stack : Stack) (tidy : Env → Env) (task : ThreadId) (s : Stage)
    (evs evs' : List Event) (a b : Stage) : Prop
    extends s.Continued stack tidy task evs evs' a b where
  taker : ∀ x u v, u.Under task → v.Under task → ⟨u, x, .take⟩ ∈ s.uses stack tidy evs →
    ⟨v, x, .take⟩ ∈ s.uses stack tidy evs' → u = v

namespace Continued

variable {a b : Stage} {q v : ThreadId} {l : Nat} {before' after : List Event} {x : CellId}
  {c c' : Cell} {m' : Move}

/-- Runs that leave alike the cells that the family asks for, and in which nobody else asks for
anything. -/
theorem of_cell_eq {task : ThreadId} (hrun : s.run stack tidy evs = some a)
    (hrun' : s.run stack tidy evs' = some b)
    (h : ∀ use ∈ s.uses stack tidy evs ++ s.uses stack tidy evs',
      use.thread.Under task ∧ b.system.cell use.cell = a.system.cell use.cell) :
    s.Continued stack tidy task evs evs' a b where
  run := hrun
  run' := hrun'
  cells use huse _ _ c hc :=
    ⟨c, ((h use (List.mem_append_left _ huse)).2).trans hc, rfl, fun _ ho => ho⟩
  alone _ _ _ other hother _ _ := (h other hother).1

theorem outside (hc : s.Continued stack tidy (.child q l) evs evs' a b) (hs : s.system.Posted)
    (hmoment : Moment stack tidy s evs u before mid t m) (hu : u.Under (.child q l))
    (hwants : t.wanted? = some x) (hx : mid.system.cell x = some c)
    (hout : ∀ v, v.Under (.child q l) → x ≠ .task v) :
    ∃ c', b.system.cell x = some c' ∧ c'.label = c.label ∧
      ∀ o, c.outcome = some o → c'.outcome = some o := by
  obtain ⟨use, huse, hthread, rfl⟩ : ∃ use, mid.system.use? u = some use ∧ use.thread = u ∧
      use.cell = x := by
    unfold Thread.wanted? at hwants
    split at hwants
    case h_1 rest hrest =>
      cases hwants
      exact ⟨_, System.use?_of_claim hmoment.thread hrest hx, rfl, rfl⟩
    case h_2 rest hrest =>
      cases hwants
      exact ⟨_, System.use?_of_await hmoment.thread hrest, rfl, rfl⟩
    case h_3 => cases hwants
  obtain ⟨c₁, hx₁, hlater⟩ := hmoment.cell_later hs hc.run hx
  obtain ⟨c₂, hx₂, hlabel, houtcome⟩ :=
    hc.cells use (hmoment.use_mem huse) (hthread ▸ hu) hout c₁ hx₁
  exact ⟨c₂, hx₂, hlabel.trans hlater.label, fun o ho => houtcome o (hlater.outcome o ho)⟩

theorem label_eq (hc : s.Continued stack tidy (.child q l) evs evs' a b) (hs : s.system.Posted)
    (hmoment : Moment stack tidy s evs u before mid t m)
    (hmoment' : Moment stack tidy s evs' u before' mid' t m') (hu : u.Under (.child q l))
    (hwants : t.wanted? = some x) (hx : mid.system.cell x = some c)
    (hx' : mid'.system.cell x = some c') : c'.label = c.label := by
  by_cases hin : ∃ v, v.Under (.child q l) ∧ x = .task v
  · obtain ⟨v, hv, rfl⟩ := hin
    obtain ⟨p, n, rfl⟩ := hv.exists_child
    obtain ⟨tv, -, hlabel, -⟩ := (posted_run hs hmoment.run).of_cell hx
    obtain ⟨tv', -, hlabel', -⟩ := (posted_run hs hmoment'.run).of_cell hx'
    rw [hlabel, hlabel']
  · have hout : ∀ v, v.Under (.child q l) → x ≠ .task v := fun v hv heq => hin ⟨v, hv, heq⟩
    obtain ⟨c₁, hx₁, hlabel, -⟩ := hc.outside hs hmoment hu hwants hx hout
    obtain ⟨c₂, hx₂, hlater⟩ := hmoment'.cell_later hs hc.run' hx'
    cases hx₁.symm.trans hx₂
    rw [← hlabel, hlater.label]

theorem outcome_eq {o o' : Outcome} (hc : s.Continued stack tidy (.child q l) evs evs' a b)
    (hs : s.system.Posted) (hmoment : Moment stack tidy s evs u before mid t m)
    (hmoment' : Moment stack tidy s evs' u before' mid' t m') (hu : u.Under (.child q l))
    (hagree : ∀ v, v.Under (.child q l) → s.Agree stack tidy v before evs')
    (hwants : t.wanted? = some x) (hx : mid.system.cell x = some c)
    (hx' : mid'.system.cell x = some c') (ho : c.outcome = some o) (ho' : c'.outcome = some o') :
    o' = o := by
  by_cases hin : ∃ v, v.Under (.child q l) ∧ x = .task v
  · obtain ⟨v, hv, rfl⟩ := hin
    obtain ⟨p, n, rfl⟩ := hv.exists_child
    obtain ⟨tv, htv, -, hpost⟩ := (posted_run hs hmoment.run).of_cell hx
    obtain ⟨tv', htv', -, hpost'⟩ := (posted_run hs hmoment'.run).of_cell hx'
    obtain ⟨after, rfl⟩ := hmoment'.split
    rw [hpost] at ho
    rw [hpost'] at ho'
    rcases (hagree _ hv).later hs (passes_last hmoment.run htv)
        ((passes_last hmoment'.run htv').append _) with hlater | hlater
    · exact Option.some.inj (ho'.symm.trans (hlater.posted o ho))
    · exact Option.some.inj ((hlater.posted o' ho').symm.trans ho)
  · have hout : ∀ v, v.Under (.child q l) → x ≠ .task v := fun v hv heq => hin ⟨v, hv, heq⟩
    obtain ⟨c₁, hx₁, -, houtcome⟩ := hc.outside hs hmoment hu hwants hx hout
    obtain ⟨c₂, hx₂, hlater⟩ := hmoment'.cell_later hs hc.run' hx'
    cases hx₁.symm.trans hx₂
    exact Option.some.inj ((hlater.outcome o' ho').symm.trans (houtcome o ho))

end Continued

namespace Uncontested

variable {a b : Stage} {q v : ThreadId} {l : Nat} {before' after : List Event} {x : CellId}
  {c c' : Cell} {m' : Move}

theorem claimed_eq {rest : Prog Work Result}
    (hc : s.Uncontested stack tidy (.child q l) evs evs' a b) (hs : s.system.Posted)
    (hmoment : Moment stack tidy s evs u before mid t m)
    (hmoment' : Moment stack tidy s evs' u before' mid' t m') (hu : u.Under (.child q l))
    (hturns : turns u before = turns u before') (hagree : s.Agree stack tidy u before evs')
    (hrest : t.rest = .claim x rest) (hx : mid.system.cell x = some c)
    (hx' : mid'.system.cell x = some c') : c'.claimed = c.claimed := by
  have huse := hmoment.use_mem (System.use?_of_claim hmoment.thread hrest hx)
  have huse' := hmoment'.use_mem (System.use?_of_claim hmoment'.thread hrest hx')
  obtain ⟨after, rfl⟩ := hmoment.split
  obtain ⟨after', rfl⟩ := hmoment'.split
  have hagree := hagree.of_append_right
  refine Bool.eq_iff_iff.2 ⟨fun hclaimed => ?_, fun hclaimed => ?_⟩
  · by_contra hfree
    rw [Bool.not_eq_true] at hfree
    rw [hfree] at huse
    refine absurd (hagree.claimed_of_claimed hs hmoment.run hmoment'.run hturns.ge hx hx' hclaimed
      fun v htake => ?_) (by simp [hfree])
    have htake := mem_uses_append hmoment'.run htake (.step u :: after')
    have hv := hc.alone _ huse hu _ (List.mem_append_right _ htake) rfl rfl
    exact (hc.taker x u v hu hv huse htake).symm
  · by_contra hfree
    rw [Bool.not_eq_true] at hfree
    rw [hfree] at huse'
    refine absurd (hagree.symm.claimed_of_claimed hs hmoment'.run hmoment.run hturns.le hx' hx
      hclaimed fun v htake => ?_) (by simp [hfree])
    have htake := mem_uses_append hmoment.run htake (.step u :: after)
    have hv := hc.alone _ huse hu _ (List.mem_append_left _ htake) rfl rfl
    exact hc.taker x v u hv hu htake huse'

/-- A thread of the family that is in the same state in both ways makes the same of it. -/
theorem move_eq (hc : s.Uncontested stack tidy (.child q l) evs evs' a b) (hs : s.system.Posted)
    (hmoment : Moment stack tidy s evs u before mid t m)
    (hmoment' : Moment stack tidy s evs' u before' mid' t m') (hu : u.Under (.child q l))
    (hturns : turns u before = turns u before')
    (hagree : ∀ v, v.Under (.child q l) → s.Agree stack tidy v before evs') :
    m.thread = m'.thread := by
  obtain ⟨p, n, rfl⟩ := hu.exists_child
  refine (hmoment.moves.thread_eq hmoment'.moves ?_ ?_ ?_ ?_).symm
  · intro x rest c c' hrest hx hx'
    have hwants : t.wanted? = some x := by rw [Thread.wanted?, hrest]
    exact ⟨hc.label_eq hs hmoment hmoment' hu hwants hx hx',
      hc.claimed_eq hs hmoment hmoment' hu hturns (hagree _ hu) hrest hx hx'⟩
  · intro x rest c c' o o' hrest hx hx' ho ho'
    have hwants : t.wanted? = some x := by rw [Thread.wanted?, hrest]
    exact hc.outcome_eq hs hmoment hmoment' hu hagree hwants hx hx' ho ho'
  · exact fun d hdue => (posted_run hs hmoment.run).cell_of_due hmoment.thread hdue
  · exact fun d hdue => (posted_run hs hmoment'.run).cell_of_due hmoment'.thread hdue

theorem new_eq {last : Stage} (hs : s.system.Posted) (htask : (s.system.thread (.child q l)).isSome)
    (hmid : s.run stack tidy before = some mid) (hnext : mid.next stack tidy ev = some last)
    (hagree : ∀ v, v.Under (.child q l) → s.Agree stack tidy v before evs')
    (hu : (ThreadId.child p n).Under (.child q l)) (hnone : mid.system.thread (.child p n) = none)
    (ht : last.system.thread (.child p n) = some t)
    (ht' : s.Passes stack tidy evs' (.child p n) (turns (.child p n) (before ++ [ev])) t') :
    t = t' := by
  obtain ⟨rfl, hp, hturns, w, work, rest, hw, hrest, hn, rfl⟩ :=
    spawned_under hs hmid hnext htask hu hnone ht
  obtain ⟨before', after', mid', rfl, hmid', hturns', ht'⟩ := ht'
  obtain ⟨before₀, mid₀, w', m', work', rest', hmoment', hrest', hn', rfl⟩ :=
    exists_spawn_moment hs hmid' (thread_none_of_run hs hmid hnone) ht' (hturns'.trans hturns)
  obtain ⟨p₀, n₀, rfl⟩ := hp.exists_child
  obtain rfl := (hagree _ hp).eq_of_spawn hs (passes_last hmid hw)
    (hmoment'.append after').passes hrest hrest' (by omega)
  cases hrest.symm.trans hrest'
  rfl

/-- Every thread of the family goes through the same states in both ways, as far as it comes. -/
theorem agree (hc : s.Uncontested stack tidy (.child q l) evs evs' a b) (hs : s.system.Posted)
    (htask : (s.system.thread (.child q l)).isSome) (before after : List Event)
    (hsplit : evs = before ++ after) (hu : u.Under (.child q l)) :
    s.Agree stack tidy u before evs' := by
  -- The first way is followed event by event; the second is searched for the same state.
  induction before using List.reverseRecOn generalizing after u with
  | nil =>
    rintro k t t' ⟨before, more, mid, hnil, hmid, rfl, ht⟩
      ⟨before', more', mid', rfl, hmid', h, ht'⟩
    obtain ⟨rfl, rfl⟩ := List.append_eq_nil_iff.1 hnil.symm
    cases hmid
    obtain ⟨p, n, rfl⟩ := hu.exists_child
    exact Option.some.inj ((task_of_no_turn hs hmid' ht h).symm.trans ht')
  | append_singleton before ev ih =>
    have hagree : ∀ {v}, v.Under (.child q l) → s.Agree stack tidy v before evs' :=
      fun hv => ih (ev :: after) (by rw [hsplit, List.append_assoc]; rfl) hv
    intro k t t' ht ht'
    rcases ht.of_concat with hold | ⟨rfl, last, hlast, hlate⟩
    · exact hagree hu k t t' hold ht'
    obtain ⟨mid, hmid, hnext⟩ := run_concat_eq_some_iff.1 hlast
    obtain ⟨p, n, rfl⟩ := hu.exists_child
    cases hthere : mid.system.thread (.child p n) with
    | none =>
      exact new_eq hs htask hmid hnext (fun v hv => hagree hv) hu hthere hlate ht'
    | some t₀ =>
      rcases task_next (posted_run hs hmid) hnext hthere with
        ⟨rfl, m, hm, -, hself⟩ | ⟨hne, hsame⟩
      · cases hlate.symm.trans hself
        have hmoment : Moment stack tidy s evs (.child p n) before mid t₀ m :=
          ⟨⟨after, by rw [hsplit, List.append_assoc]; rfl⟩, hmid, hthere, hm⟩
        obtain ⟨before', after', mid', rfl, hmid', hturns, ht'⟩ := ht'
        rw [turns_append, turns_cons_step] at hturns
        obtain ⟨before₀, mid₀, t₀', m', hturns', hmoment', rfl⟩ :=
          exists_last_moment hs hmid' ht' hturns
        have hmoment' := hmoment'.append after'
        have hstates := hagree hu (turns (.child p n) before) t₀ t₀' (passes_last hmid hthere)
          (hturns' ▸ hmoment'.passes)
        subst hstates
        exact hc.move_eq hs hmoment hmoment' hu hturns'.symm fun v hv => hagree hv
      · cases hlate.symm.trans hsame
        rw [turns_append, turns_cons_of_ne hne] at ht'
        exact hagree hu _ t t' (passes_last hmid hthere) ht'

/-- What the family finds in a cell holds at the end of the second way, if that comes as far. -/
theorem found (hc : s.Uncontested stack tidy (.child q l) evs evs' a b) (hs : s.system.Posted)
    (hmoment : Moment stack tidy s evs u before mid t m) (hu : u.Under (.child q l))
    (hagree : ∀ v, v.Under (.child q l) → s.Agree stack tidy v before evs')
    (hreach : ∀ v k t, v.Under (.child q l) → s.Passes stack tidy before v k t →
      ∃ t', s.Passes stack tidy evs' v k t')
    (hwants : t.wanted? = some x) (hx : mid.system.cell x = some c) :
    ∃ c', b.system.cell x = some c' ∧ ∀ o, c.outcome = some o → c'.outcome = some o := by
  by_cases hin : ∃ v, v.Under (.child q l) ∧ x = .task v
  · obtain ⟨v, hv, rfl⟩ := hin
    obtain ⟨p, n, rfl⟩ := hv.exists_child
    obtain ⟨tv, htv, -, hpost⟩ := (posted_run hs hmoment.run).of_cell hx
    have hpasses := passes_last hmoment.run htv
    obtain ⟨tv', hpasses'⟩ := hreach _ _ tv hv hpasses
    cases hagree _ hv _ tv tv' hpasses hpasses'
    obtain ⟨last, hlast, hlater⟩ := hpasses'.exists_last hs hc.run'
    obtain ⟨c', hc', -, hpost'⟩ := (posted_run hs hc.run').post _ _ last hlast
    exact ⟨c', hc', fun o ho => hpost'.trans (hlater.posted o (hpost.symm.trans ho))⟩
  · have hout : ∀ v, v.Under (.child q l) → x ≠ .task v := fun v hv heq => hin ⟨v, hv, heq⟩
    obtain ⟨c', hc', -, houtcome⟩ := hc.outside hs hmoment hu hwants hx hout
    exact ⟨c', hc', houtcome⟩

/-- Where a thread of the family goes on in the first way, it does not stop in the second one. -/
theorem goes_on (hc : s.Uncontested stack tidy (.child q l) evs evs' a b) (hs : s.system.Posted)
    (hdone : ∀ u, u.Under (.child q l) → b.system.step stack u = none)
    (hmoment : Moment stack tidy s evs u before mid t m) (hu : u.Under (.child q l))
    (hagree : ∀ v, v.Under (.child q l) → s.Agree stack tidy v before evs')
    (hreach : ∀ v k t, v.Under (.child q l) → s.Passes stack tidy before v k t →
      ∃ t', s.Passes stack tidy evs' v k t') : turns u before < turns u evs' := by
  obtain ⟨p, n, rfl⟩ := hu.exists_child
  have hpasses := passes_last hmoment.run hmoment.thread
  obtain ⟨t', hpasses'⟩ := hreach _ _ t hu hpasses
  cases hagree _ hu _ t t' hpasses hpasses'
  obtain ⟨before', after', mid', rfl, hmid', hturns, ht⟩ := hpasses'
  by_contra hstops
  obtain ⟨first, hfirst, hrest⟩ := run_append_eq_some_iff.1 hc.run'
  cases hmid'.symm.trans hfirst
  have hlast : b.system.thread (.child p n) = some t := by
    refine task_of_no_turn (posted_run hs hmid') hrest ht ?_
    rw [turns_append] at hstops
    omega
  have hmoves : ¬ (t.isOver ∨ t.Waits mid.system.cell) := by
    rw [← Thread.act_eq_none_iff, hmoment.moves.act]
    exact nofun
  refine hmoves ((System.step_eq_none_iff.1 (hdone _ hu) t hlast).imp_right fun hwaits => ?_)
  cases hwants : t.rest with
  | claim x rest =>
    have hwanted : t.wanted? = some x := by rw [Thread.wanted?, hwants]
    simp only [Thread.Waits, hwants] at hwaits ⊢
    by_contra hsome
    obtain ⟨c, hx⟩ := Option.ne_none_iff_exists'.1 hsome
    obtain ⟨c', hx', -⟩ := hc.found hs hmoment hu hagree hreach hwanted hx
    rw [hwaits] at hx'
    cases hx'
  | await x rest =>
    have hwanted : t.wanted? = some x := by rw [Thread.wanted?, hwants]
    simp only [Thread.Waits, hwants] at hwaits ⊢
    by_contra hsome
    obtain ⟨o, ho⟩ := Option.ne_none_iff_exists'.1 hsome
    obtain ⟨c, hx, ho⟩ := Option.bind_eq_some_iff.1 ho
    obtain ⟨c', hx', houtcome⟩ := hc.found hs hmoment hu hagree hreach hwanted hx
    rw [hx', Option.bind_some, houtcome o ho] at hwaits
    cases hwaits
  | done | fail | emit | spawn =>
    simp only [Thread.Waits, hwants] at hwaits

/-- If nothing is left to do for the family after the second way, it has come as far there as after
the first one. -/
theorem catches_up (hc : s.Uncontested stack tidy (.child q l) evs evs' a b) (hs : s.system.Posted)
    (htask : (s.system.thread (.child q l)).isSome)
    (hdone : ∀ u, u.Under (.child q l) → b.system.step stack u = none) (before after : List Event)
    (hsplit : evs = before ++ after) (hu : u.Under (.child q l))
    (h : s.Passes stack tidy before u k t) : ∃ t', s.Passes stack tidy evs' u k t' := by
  induction before using List.reverseRecOn generalizing after u k t with
  | nil =>
    obtain ⟨before, more, mid, hnil, hmid, rfl, ht⟩ := h
    obtain ⟨rfl, rfl⟩ := List.append_eq_nil_iff.1 hnil.symm
    cases hmid
    exact ⟨t, [], evs', s, rfl, rfl, rfl, ht⟩
  | append_singleton before ev ih =>
    have hsplit' : evs = before ++ ev :: after := by rw [hsplit, List.append_assoc]; rfl
    have hreach : ∀ v k t, v.Under (.child q l) → s.Passes stack tidy before v k t →
        ∃ t', s.Passes stack tidy evs' v k t' := fun v k t hv h => ih (ev :: after) hsplit' hv h
    have hagree : ∀ v, v.Under (.child q l) → s.Agree stack tidy v before evs' :=
      fun v hv => hc.agree hs htask before (ev :: after) hsplit' hv
    -- A thread that makes the last event of the first way is there in the second way and moves on.
    have hmoves : ∀ {v mid t m}, v.Under (.child q l) →
        Moment stack tidy s evs v before mid t m → ∃ before' mid' m',
          turns v before' = turns v before ∧ Moment stack tidy s evs' v before' mid' t m' := by
      intro v mid t m hv hmoment
      obtain ⟨before', mid', t', m', hturns, hmoment'⟩ :=
        exists_moment hc.run' (hc.goes_on hs hdone hmoment hv hagree hreach)
      cases hagree v hv _ t t' (passes_last hmoment.run hmoment.thread)
        (hturns ▸ hmoment'.passes)
      exact ⟨before', mid', m', hturns, hmoment'⟩
    rcases h.of_concat with hold | ⟨rfl, last, hlast, ht⟩
    · exact hreach u k t hu hold
    obtain ⟨mid, hmid, hnext⟩ := run_concat_eq_some_iff.1 hlast
    obtain ⟨p, n, rfl⟩ := hu.exists_child
    cases hthere : mid.system.thread (.child p n) with
    | none =>
      obtain ⟨rfl, hp, hturns, w, work, rest, hw, hrest, rfl, rfl⟩ :=
        spawned_under hs hmid hnext htask hu hthere ht
      obtain ⟨before', mid', m', -, hmoment'⟩ :=
        hmoves hp ⟨⟨after, hsplit'⟩, hmid, hw, .spawn hrest⟩
      exact ⟨_, hturns ▸ hmoment'.passes_new hs hc.run' hrest⟩
    | some t₀ =>
      rcases task_next (posted_run hs hmid) hnext hthere with
        ⟨rfl, m, hm, -, -⟩ | ⟨hne, hsame⟩
      · obtain ⟨before', mid', m', hturns, hmoment'⟩ :=
          hmoves hu ⟨⟨after, hsplit'⟩, hmid, hthere, hm⟩
        refine ⟨m'.thread, ?_⟩
        rw [turns_append, turns_cons_step, turns_nil, ← hturns]
        exact hmoment'.passes_next hc.run'
      · rw [turns_append, turns_cons_of_ne hne]
        exact hreach _ _ t₀ hu (passes_last hmid hthere)

end Uncontested

/-- A step of a task, or of one below it, leaves all interpreters as they are, and all threads that
are neither. -/
theorem family_step {task : ThreadId} (hu : u.Under task)
    (hnext : mid.next stack tidy (.step u) = some s') :
    s'.interpreter = mid.interpreter ∧
      ∀ v, ¬ v.Under task → s'.system.thread v = mid.system.thread v := by
  obtain ⟨system, hstep, rfl⟩ := Option.map_eq_some_iff.1 hnext
  refine ⟨rfl, fun v hv => ?_⟩
  obtain ⟨t, m, -, hm, rfl⟩ := System.step_eq_some_iff.1 hstep
  have hself : v ≠ u := fun heq => hv (heq ▸ hu)
  have hnew : v ≠ .child u (t.spawned + 1) := fun heq =>
    hv (heq ▸ ((ThreadId.child_below u _).under.trans hu))
  simp [System.after, hself, hm.started?_eq_none hnew]

/-- Tasks keep to themselves. Let a session go on in two ways after a task was spawned, so that the
cells that the task and those below it claim or wait for get the same outcomes, nobody else takes
them, and none of them goes to different ones of these. Then the task ends with the same value or
failure in both, whatever else happens; and it does end in the second way, if it ends in the first
way and if neither it nor one below it has a step left. Meanwhile they change no interpreter, and no
thread but themselves. -/
theorem task_isolated {ctx : Context} {a b : Stage} {q : ThreadId} {l : Nat} {o : Outcome}
    (hreached : (fresh ctx).Reaches stack tidy s)
    (htask : (s.system.thread (.child q l)).isSome)
    (hc : s.Uncontested stack tidy (.child q l) evs evs' a b)
    (ho : a.system.outcome? (.child q l) = some o) :
    (∀ o', b.system.outcome? (.child q l) = some o' → o' = o) ∧
      ((∀ u, u.Under (.child q l) → b.system.step stack u = none) →
        b.system.outcome? (.child q l) = some o ∧
          ∃ c, b.system.cell (.task (.child q l)) = some c ∧ c.outcome = some o) ∧
      ∀ (u : ThreadId) (mid next : Stage), u.Under (.child q l) →
        mid.next stack tidy (.step u) = some next →
        next.interpreter = mid.interpreter ∧
          ∀ v, ¬ v.Under (.child q l) → next.system.thread v = mid.system.thread v := by
  obtain ⟨first, hfirst⟩ := hreached
  have hs : s.system.Posted := posted_run .initial hfirst
  have hagree : s.Agree stack tidy (.child q l) evs evs' :=
    hc.agree hs htask evs [] (List.append_nil evs).symm (.inl rfl)
  obtain ⟨t, ht, hended⟩ := Option.bind_eq_some_iff.1 ho
  have hpasses := passes_last hc.run ht
  refine ⟨fun o' ho' => ?_, fun hdone => ?_, fun u mid next hu => family_step hu⟩
  · obtain ⟨t', ht', hended'⟩ := Option.bind_eq_some_iff.1 ho'
    rcases hagree.later hs hpasses (passes_last hc.run' ht') with hlater | hlater
    · exact Option.some.inj (hended'.symm.trans (hlater.outcome o hended))
    · exact Option.some.inj ((hlater.outcome o' hended').symm.trans hended)
  · obtain ⟨t', hpasses'⟩ :=
      hc.catches_up hs htask hdone evs [] (List.append_nil evs).symm (.inl rfl) hpasses
    cases hagree _ t t' hpasses hpasses'
    obtain ⟨last, hlast, hlater⟩ := hpasses'.exists_last hs hc.run'
    have hended' := hlater.outcome o hended
    refine ⟨by rw [System.outcome?, hlast]; exact hended', ?_⟩
    have hb := posted_run hs hc.run'
    obtain ⟨c, hcell, -, hpost⟩ := hb.post q l last hlast
    have hover : last.isOver := by
      have hstuck := System.step_eq_none_iff.1 (hdone _ (.inl rfl)) last hlast
      refine hstuck.resolve_right fun hwaits => ?_
      rw [hwaits.outcome?_eq_none] at hended'
      cases hended'
    exact ⟨c, hcell, (hpost.trans (hb.posted?_of_isOver hlast hover)).trans hended'⟩

/-- A task that is blocked keeps the bindings that it was spawned with. -/
theorem task_isolated_redefined : ∃ s evs evs' a b,
    let task : ThreadId := .child .main 1
    let redefine : Event := .define "i" "y" (.int 2)
    ((fresh {}).Reaches ⟨9, none⟩ Env.compact s ∧ (s.system.thread task).isSome ∧
      s.Uncontested ⟨9, none⟩ Env.compact task evs evs' a b ∧
      a.system.outcome? task = some (.ok (.int 1)) ∧
      ∀ u, u.Under task → b.system.step ⟨9, none⟩ u = none) ∧
    redefine ∉ evs ∧ redefine ∈ evs' ∧ b.system.outcome? task = some (.ok (.int 1)) := by
  let task : ThreadId := .child .main 1
  let first : List Event := [.define "i" "g" (.future (.external "g" 0)), .define "i" "y" (.int 1),
    .evaluate "i" (.spawn (.letIn "x" (.sync (.var "g")) (.var "y"))), .step .main]
  let more : List Event := [.write "g" 0 (.ok (.int 0)), .step task, .step task]
  let evs : List Event := .step task :: more
  let evs' : List Event := .step task :: .define "i" "y" (.int 2) :: more
  obtain ⟨s, hs, htask, a, ha, hended, b, hb, hdone, hothers, huses, hcell⟩ :
      ∃ s, (fresh {}).run ⟨9, none⟩ Env.compact first = some s ∧ (s.system.thread task).isSome ∧
        ∃ a, s.run ⟨9, none⟩ Env.compact evs = some a ∧
          a.system.outcome? task = some (.ok (.int 1)) ∧
        ∃ b, s.run ⟨9, none⟩ Env.compact evs' = some b ∧ b.system.step ⟨9, none⟩ task = none ∧
        (∀ u, u ≠ .main → u ≠ task → b.system.thread u = none) ∧
        (∀ use ∈ s.uses ⟨9, none⟩ Env.compact evs ++ s.uses ⟨9, none⟩ Env.compact evs',
          use.thread = task ∧ use.cell = .external "g" 0) ∧
        b.system.cell (.external "g" 0) = a.system.cell (.external "g" 0) := by
    refine ⟨_, rfl, rfl, _, rfl, rfl, _, rfl, rfl, fun u hmain hu => ?_, by decide, rfl⟩
    exact (if_neg hu).trans <| (if_neg hu).trans <| (if_neg hu).trans <| (if_neg hmain).trans <|
      (if_neg hu).trans <| (if_neg hmain).trans (if_neg hmain)
  have hc : s.Continued ⟨9, none⟩ Env.compact task evs evs' a b := by
    refine .of_cell_eq ha hb fun use huse => ?_
    obtain ⟨hthread, hused⟩ := huses use huse
    rw [hused]
    exact ⟨.inl hthread, hcell⟩
  have hc : s.Uncontested ⟨9, none⟩ Env.compact task evs evs' a b := by
    refine ⟨hc, fun x u v _ _ htake htake' => ?_⟩
    have hu := (huses _ (List.mem_append_left _ htake)).1
    have hv := (huses _ (List.mem_append_right _ htake')).1
    exact hu.trans hv.symm
  have hrest : ∀ u, u.Under task → b.system.step ⟨9, none⟩ u = none := by
    rintro u (rfl | hbelow)
    · exact hdone
    · refine System.step_eq_none_iff.2 fun t ht => ?_
      have hmain : u ≠ .main := by
        rintro rfl
        cases hbelow
      rw [hothers u hmain fun heq => ThreadId.not_below_self task (heq ▸ hbelow)] at ht
      cases ht
  obtain ⟨-, hends, -⟩ := task_isolated ⟨first, hs⟩ htask hc hended
  refine ⟨s, evs, evs', a, b, ⟨⟨first, hs⟩, htask, hc, hended, hrest⟩, ?_, ?_, (hends hrest).1⟩
  · simp [evs, more]
  · simp [evs']

/-- Which of a family gets a cell may depend on the order in which the outside writes. A task waits
for one cell and a task that it spawned for another one, and then both claim a third one. -/
theorem task_contested : ∃ s evs evs' a b,
    let task : ThreadId := .child .main 1
    (fresh {}).Reaches ⟨9, none⟩ Env.compact s ∧ (s.system.thread task).isSome ∧
      s.Continued ⟨9, none⟩ Env.compact task evs evs' a b ∧
      s.Continued ⟨9, none⟩ Env.compact task evs' evs b a ∧
      a.system.outcome? task = some (.ok (.int 7)) ∧
      b.system.outcome? task = some (.error (.language (.alreadyConsumed (.text "c")))) := by
  let task : ThreadId := .child .main 1
  let other : ThreadId := .child task 1
  let wait (x : String) : Expr := .letIn "x" (.sync (.var x)) (.sync (.var "c"))
  let define (x : String) : Event := .define "i" x (.future (.external x 0))
  let write (x : String) (n : Int) : Event := .write x 0 (.ok (.int n))
  let first : List Event := [define "g", define "h", define "c",
    .evaluate "i" (.spawn (.letIn "a" (.spawn (wait "g")) (wait "h"))), .step .main]
  let evs : List Event := [.step task, .step task, .step other, write "h" 0, .step task, .step task,
    write "c" 7, .step task, .step task, write "g" 0, .step other, .step other, .step other]
  let evs' : List Event := [.step task, .step task, .step other, write "g" 0, .step other,
    .step other, write "h" 0, .step task, .step task, .step task, write "c" 7, .step other,
    .step other]
  obtain ⟨s, hs, htask, a, ha, hended, b, hb, hended', huses, hcells⟩ :
      ∃ s, (fresh {}).run ⟨9, none⟩ Env.compact first = some s ∧ (s.system.thread task).isSome ∧
        ∃ a, s.run ⟨9, none⟩ Env.compact evs = some a ∧
          a.system.outcome? task = some (.ok (.int 7)) ∧
        ∃ b, s.run ⟨9, none⟩ Env.compact evs' = some b ∧
          b.system.outcome? task = some (.error (.language (.alreadyConsumed (.text "c")))) ∧
        (∀ use ∈ s.uses ⟨9, none⟩ Env.compact evs ++ s.uses ⟨9, none⟩ Env.compact evs',
          (use.thread = task ∨ use.thread = other) ∧
            use.cell ∈ [CellId.external "g" 0, .external "h" 0, .external "c" 0]) ∧
        ∀ x ∈ [CellId.external "g" 0, .external "h" 0, .external "c" 0],
          b.system.cell x = a.system.cell x := by
    refine ⟨_, rfl, rfl, _, rfl, rfl, _, rfl, rfl, by decide, ?_⟩
    simp only [List.forall_mem_cons]
    exact ⟨rfl, rfl, rfl, nofun⟩
  have hall : ∀ use ∈ s.uses ⟨9, none⟩ Env.compact evs ++ s.uses ⟨9, none⟩ Env.compact evs',
      use.thread.Under task ∧ b.system.cell use.cell = a.system.cell use.cell := by
    intro use huse
    obtain ⟨hthread, hcell⟩ := huses use huse
    refine ⟨?_, hcells _ hcell⟩
    rcases hthread with hthread | hthread
    · exact .inl hthread
    · exact hthread ▸ (ThreadId.child_below task 1).under
  have hall' : ∀ use ∈ s.uses ⟨9, none⟩ Env.compact evs' ++ s.uses ⟨9, none⟩ Env.compact evs,
      use.thread.Under task ∧ a.system.cell use.cell = b.system.cell use.cell := fun use huse =>
    (hall use (List.mem_append.2 (List.mem_append.1 huse).symm)).imp_right Eq.symm
  exact ⟨s, evs, evs', a, b, ⟨first, hs⟩, htask, .of_cell_eq ha hb hall, .of_cell_eq hb ha hall',
    hended, hended'⟩

end Stage

end ForkJoin

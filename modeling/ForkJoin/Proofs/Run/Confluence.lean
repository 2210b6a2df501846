import ForkJoin.Proofs.Run.Invariant

/-!
# The order of steps does not matter

Two threads that can both make a step can make them in either order, unless both claim the same
cell: the step of one leaves the other thread as it is, and of the cells it changes nothing that the
other looks at. What a thread looks at is whether a cell is claimed, if it is about to claim it, and
what was written to it, if it waits for it; a cell is written to by one thread only.

A claim is never held up. So in a run that goes on until no thread has a step, two threads that are
about to claim the same cell both get to do it, and if no cell is claimed twice in such a run there
are no two such threads. From there on the argument is the one for the diamond property: every other
run can be continued until it meets the first one.
-/

namespace ForkJoin

namespace Change

variable {cell cell' : CellId → Option Cell} {a b : Change}

theorem on_congr (a : Change) {x : CellId} (h : cell x = cell' x) : a.on cell x = a.on cell' x := by
  cases a with
  | keep => exact h
  | take y | put y o =>
    by_cases hx : x = y
    · subst hx
      simp [on, h]
    · simp [on, hx, h]
  | make y label => by_cases hx : x = y <;> simp [on, hx, h]

theorem on_comm_of_ne (h : ∀ x, a.cell? = some x → b.cell? ≠ some x) :
    a.on (b.on cell) = b.on (a.on cell) := by
  funext x
  by_cases ha : a.cell? = some x
  · rw [on_of_ne (h x ha)]
    exact on_congr a (on_of_ne (h x ha))
  · rw [on_of_ne ha]
    exact (on_congr b (on_of_ne ha)).symm

theorem on_comm (hfa : a.Fits cell) (hfb : b.Fits cell)
    (hput : ∀ x o o', a = .put x o → b ≠ .put x o')
    (hmake : ∀ x label label', a = .make x label → b ≠ .make x label') :
    a.on (b.on cell) = b.on (a.on cell) := by
  by_cases h : ∃ x, a.cell? = some x ∧ b.cell? = some x
  case neg => exact on_comm_of_ne fun x ha hb => h ⟨x, ha, hb⟩
  case pos =>
    obtain ⟨x, ha, hb⟩ := h
    cases a <;> cases b <;> cases ha <;> cases hb
    case take.take => rfl
    case take.put | put.take =>
      funext y
      by_cases hy : y = x <;> simp [on, hy, Option.map_map, Function.comp_def]
    case put.put o o' => exact absurd rfl (hput x o o' rfl)
    case make.make label label' => exact absurd rfl (hmake x label label' rfl)
    case take.make | put.make =>
      obtain ⟨c, hx, -⟩ := hfa
      exact absurd (hx.symm.trans hfb) (by simp)
    case make.take | make.put =>
      obtain ⟨c, hx, -⟩ := hfb
      exact absurd (hx.symm.trans hfa) (by simp)

end Change

namespace Thread.Moves

variable {stack : Stack} {cell : CellId → Option Cell} {id : ThreadId} {t : Thread} {m : Move}

theorem request?_of_take {x : CellId} (hm : t.Moves stack cell id m) (h : m.change = .take x) :
    t.request? = some (x, .claim) := by
  cases hm with
  | take hrest =>
    cases h
    simp [request?, hrest]
  | print | spawn | refuse | receive | deliver | late | lost => cases h

/-- What a thread can do it can still do after a change, unless the change claims the cell that the
thread is about to claim, or does more than claim the cell that it delivers to. -/
theorem on {change : Change} (hm : t.Moves stack cell id m) (hfits : change.Fits cell)
    (hclaim : ∀ x, change = .take x → t.request? ≠ some (x, .claim))
    (hdue : ∀ d, t.due? = some d → change.cell? = some d.cell → change = .take d.cell) :
    t.Moves stack (change.on cell) id m := by
  cases hm with
  | print hrest => exact .print hrest
  | spawn hrest => exact .spawn hrest
  | @take wanted rest c hrest hcell hfree =>
    have hrequest : t.request? = some (wanted, .claim) := by simp [request?, hrest]
    rcases hfits.on_cases hcell with ⟨htake, -⟩ | ⟨o, -, -, hon⟩ | ⟨-, hon⟩
    · exact absurd hrequest (hclaim wanted htake)
    · exact .take hrest hon hfree
    · exact .take hrest hon hfree
  | @refuse wanted rest c hrest hcell htaken =>
    rcases hfits.on_cases hcell with ⟨-, hfree, -⟩ | ⟨o, -, -, hon⟩ | ⟨-, hon⟩
    · simp [htaken] at hfree
    · exact .refuse (c := { c with outcome := some o }) hrest hon htaken
    · exact .refuse hrest hon htaken
  | receive hrest hcell hwritten =>
    obtain ⟨c', hon, hlater⟩ := hfits.later hcell
    exact .receive hrest hon (hlater.outcome _ hwritten)
  | @deliver d o c hended hd hcell hempty =>
    rcases hfits.on_cases hcell with ⟨-, -, hon⟩ | ⟨o', hput, -⟩ | ⟨-, hon⟩
    · exact .deliver hended hd hon hempty
    · have htake := hdue d hd (by rw [hput]; rfl)
      rw [hput] at htake
      cases htake
    · exact .deliver hended hd hon hempty
  | @late d o o' c hended hd hcell hwritten =>
    obtain ⟨c', hon, hlater⟩ := hfits.later hcell
    rw [← hlater.label]
    exact .late hended hd hon (hlater.outcome _ hwritten)
  | @lost d o hended hd hcell =>
    refine .lost hended hd ?_
    by_cases h : change.cell? = some d.cell
    · simp [hdue d hd h, Change.on, hcell]
    · rw [Change.on_of_ne h, hcell]

end Thread.Moves

/-! ### Sound systems -/

namespace System

variable {stack : Stack} {s s' last : System} {id : ThreadId} {t : Thread} {m : Move}

/-- Every cell is delivered to by one thread at most, and the cell of a task by the task. -/
structure Sound (s : System) : Prop extends s.Counted where
  own : ∀ id t d u, s.thread id = some t → t.delivery = some d → d.cell = .task u → u = id
  single : ∀ a b t t' d d', s.thread a = some t → s.thread b = some t' → t.delivery = some d →
    t'.delivery = some d' → d.cell = d'.cell → a = b

theorem Sound.after (hs : s.Sound) (ht : s.thread id = some t) (hm : t.Moves stack s.cell id m) :
    (s.after id m).Sound := by
  have hown : ∀ other t' d u, (s.after id m).thread other = some t' → t'.delivery = some d →
      d.cell = .task u → u = other := by
    intro other t' d u ht' hd hu
    rcases delivery_after ht hm ht' hd with ⟨t₀, ht₀, hd₀⟩ | hnew
    · exact hs.own other t₀ d u ht₀ hd₀ hu
    · cases hu.symm.trans hnew
      rfl
  refine ⟨hs.toCounted.after ht hm, hown, fun a b t₁ t₂ d₁ d₂ h₁ h₂ hd₁ hd₂ heq => ?_⟩
  rcases delivery_after ht hm h₁ hd₁ with ⟨ta, hta, hda⟩ | hnew₁
  · rcases delivery_after ht hm h₂ hd₂ with ⟨tb, htb, hdb⟩ | hnew₂
    · exact hs.single a b ta tb d₁ d₂ hta htb hda hdb heq
    · exact (hown a t₁ d₁ b h₁ hd₁ (heq.trans hnew₂)).symm
  · exact hown b t₂ d₂ a h₂ hd₂ (heq.symm.trans hnew₁)

theorem Sound.step (hs : s.Sound) (hstep : s.step stack id = some s') : s'.Sound := by
  obtain ⟨t, m, ht, hm, rfl⟩ := step_eq_some_iff.1 hstep
  exact hs.after ht hm

variable {a b : ThreadId} {sa sb : System} {ta tb : Thread} {ma mb : Move}

theorem Sound.moves_after (hs : s.Sound) (hne : b ≠ a) (hta : s.thread a = some ta)
    (hma : ta.Moves stack s.cell a ma) (htb : s.thread b = some tb)
    (hmb : tb.Moves stack s.cell b mb)
    (hclaim : ∀ x, ¬ (ta.request? = some (x, .claim) ∧ tb.request? = some (x, .claim))) :
    tb.Moves stack (s.after a ma).cell b mb := by
  refine hmb.on (hs.fits hta hma) ?_ ?_
  · intro x htake hrequest
    exact hclaim x ⟨hma.request?_of_take htake, hrequest⟩
  · intro d hdue hcell
    cases hchange : ma.change with
    | keep => simp [hchange, Change.cell?] at hcell
    | take x =>
      simp only [hchange, Change.cell?, Option.some.injEq] at hcell
      rw [hcell]
    | put x o =>
      simp only [hchange, Change.cell?, Option.some.injEq] at hcell
      obtain ⟨-, d', hdue', hx, -⟩ := hma.of_put hchange
      have hsame := hs.single a b ta tb d' d hta htb (Thread.delivery_of_due? hdue')
        (Thread.delivery_of_due? hdue) (hx.trans hcell)
      exact absurd hsame.symm hne
    | make x label =>
      simp only [hchange, Change.cell?, Option.some.injEq] at hcell
      obtain ⟨hx, -⟩ := hma.of_make hchange
      have hnew := hs.own b tb d _ htb (Thread.delivery_of_due? hdue) (hcell.symm.trans hx)
      rw [← hnew, hs.thread_new hta] at htb
      cases htb

theorem Sound.after_comm (hs : s.Sound) (hne : b ≠ a) (hta : s.thread a = some ta)
    (hma : ta.Moves stack s.cell a ma) (htb : s.thread b = some tb)
    (hmb : tb.Moves stack s.cell b mb) :
    (s.after a ma).after b mb = (s.after b mb).after a ma := by
  have hcell : mb.change.on (ma.change.on s.cell) = ma.change.on (mb.change.on s.cell) := by
    refine Change.on_comm (hs.fits htb hmb) (hs.fits hta hma) ?_ ?_
    · intro x o o' hputb hputa
      obtain ⟨-, da, hda, hxa, -⟩ := hma.of_put hputa
      obtain ⟨-, db, hdb, hxb, -⟩ := hmb.of_put hputb
      exact hne (hs.single b a tb ta db da htb hta (Thread.delivery_of_due? hdb)
        (Thread.delivery_of_due? hda) (hxb.trans hxa.symm))
    · intro x label label' hmakeb hmakea
      have hsame := (hmb.of_make hmakeb).1.symm.trans (hma.of_make hmakea).1
      exact hne (ThreadId.child.inj (CellId.task.inj hsame)).1
  have hthread : ∀ other, ((s.after a ma).after b mb).thread other =
      ((s.after b mb).after a ma).thread other := by
    intro other
    have hnew : ∀ {c : ThreadId} {t : Thread} {p : ThreadId} {t' : Thread},
        s.thread p = some t → s.thread c = some t' → c ≠ .child p (t.spawned + 1) := by
      intro c t p t' hp hc h
      rw [h, hs.thread_new hp] at hc
      cases hc
    by_cases ha : other = a
    · subst ha
      simp [System.after, Ne.symm hne, hmb.started?_eq_none (hnew htb hta)]
    · by_cases hb : other = b
      · subst hb
        simp [System.after, ha, hma.started?_eq_none (hnew hta htb)]
      · simp only [System.after, ha, hb, if_false]
        by_cases hchild : other = .child a (ta.spawned + 1)
        · have hother : other ≠ .child b (tb.spawned + 1) := by
            rw [hchild]
            exact fun h => hne (ThreadId.child.inj h).1.symm
          simp [hmb.started?_eq_none hother]
        · simp [hma.started?_eq_none hchild]
  exact (System.mk.injEq ..).mpr ⟨funext hthread, hcell⟩

/-- Steps of two threads can be made in either order, if they do not both claim the same cell. -/
theorem Sound.step_comm (hs : s.Sound) (hne : b ≠ a) (ha : s.step stack a = some sa)
    (hb : s.step stack b = some sb)
    (hclaim : ∀ x, ¬ (s.request? a x = some .claim ∧ s.request? b x = some .claim)) :
    ∃ s', sa.step stack b = some s' ∧ sb.step stack a = some s' := by
  obtain ⟨ta, ma, hta, hma, rfl⟩ := step_eq_some_iff.1 ha
  obtain ⟨tb, mb, htb, hmb, rfl⟩ := step_eq_some_iff.1 hb
  have hclaim' : ∀ x, ¬ (ta.request? = some (x, .claim) ∧ tb.request? = some (x, .claim)) := by
    rintro x ⟨h₁, h₂⟩
    exact hclaim x ⟨by simp [request?, hta, h₁], by simp [request?, htb, h₂]⟩
  refine ⟨(s.after a ma).after b mb, ?_, ?_⟩
  · exact step_eq_some_iff.2 ⟨tb, mb, after_thread_of_ne hs.toCounted hta hma hne htb,
      hs.moves_after hne hta hma htb hmb hclaim', rfl⟩
  · refine step_eq_some_iff.2 ⟨ta, ma, after_thread_of_ne hs.toCounted htb hmb hne.symm hta,
      hs.moves_after hne.symm htb hmb hta hma ?_, hs.after_comm hne hta hma htb hmb⟩
    exact fun x h => hclaim' x h.symm

/-! ### Runs that meet -/

theorem Counted.request?_step (hs : s.Counted) (hne : b ≠ a) (hstep : s.step stack a = some sa)
    (htb : s.thread b = some tb) (x : CellId) : sa.request? b x = s.request? b x := by
  obtain ⟨ta, ma, hta, hma, rfl⟩ := step_eq_some_iff.1 hstep
  simp [request?, htb, after_thread_of_ne hs hta hma hne htb]

theorem exists_thread_of_request? {x : CellId} {request : Request}
    (h : s.request? a x = some request) : ∃ t, s.thread a = some t ∧
      t.request? = some (x, request) := by
  obtain ⟨t, ht, h⟩ := Option.bind_eq_some_iff.1 h
  obtain ⟨⟨y, request'⟩, hrequest, h⟩ := Option.bind_eq_some_iff.1 h
  dsimp only at h
  split at h
  case isTrue hy =>
    cases h
    exact ⟨t, ht, by rw [hrequest, hy]⟩
  case isFalse => cases h

theorem Counted.one_le_claims {x : CellId} {c : Cell} {ids : List ThreadId} (hs : s.Counted)
    (hrequest : s.request? a x = some .claim) (hx : s.cell x = some c)
    (hrun : s.run stack ids = some last) (hdone : last.Complete) :
    1 ≤ s.claims stack x ids := by
  induction ids generalizing s c with
  | nil =>
    cases hrun
    obtain ⟨t, ht, hclaim⟩ := exists_thread_of_request? hrequest
    obtain ⟨rest, hrest⟩ := Thread.rest_of_claim hclaim
    rcases hdone a t ht with hover | hwaits
    · simp [Thread.isOver, hrest, Prog.ended?] at hover
    · simp [Thread.Waits, hrest, hx] at hwaits
  | cons id ids ih =>
    obtain ⟨next, hstep, hrest⟩ := run_cons_eq_some_iff.1 hrun
    rw [claims_cons hstep]
    by_cases hne : a = id
    · subst hne
      simp [hrequest, Request.isClaim]
    · obtain ⟨t, ht, -⟩ := exists_thread_of_request? hrequest
      obtain ⟨c', hx', -⟩ := hs.later_of_step hstep hx
      have hrequest' : next.request? a x = some .claim := by
        rw [hs.request?_step hne hstep ht, hrequest]
      have hlater := ih (hs.step hstep) hrequest' hx' hrest
      omega

theorem cell_of_request? {x : CellId} (hstep : s.step stack a = some sa)
    (hrequest : s.request? a x = some .claim) : ∃ c, s.cell x = some c := by
  obtain ⟨t, m, ht, hm, -⟩ := step_eq_some_iff.1 hstep
  obtain ⟨t', ht', hclaim⟩ := exists_thread_of_request? hrequest
  cases ht.symm.trans ht'
  obtain ⟨rest, hrest⟩ := Thread.rest_of_claim hclaim
  cases hm <;> simp_all [Thread.outcome?]

/-- In a complete run that claims no cell twice, no two threads are ever about to claim the same
cell. -/
theorem Sound.not_both_claim {ids : List ThreadId} (hs : s.Sound) (hne : b ≠ a)
    (ha : s.step stack a = some sa) (hb : s.step stack b = some sb)
    (hrun : sb.run stack ids = some last) (hdone : last.Complete)
    (honce : ∀ x, s.claims stack x (b :: ids) ≤ 1) (x : CellId) :
    ¬ (s.request? a x = some .claim ∧ s.request? b x = some .claim) := by
  rintro ⟨hra, hrb⟩
  obtain ⟨c, hx⟩ := cell_of_request? ha hra
  obtain ⟨c', hx', -⟩ := hs.later_of_step hb hx
  obtain ⟨t, ht, -⟩ := exists_thread_of_request? hra
  have hra' : sb.request? a x = some .claim := by
    rw [hs.request?_step hne.symm hb ht, hra]
  have hlater := (hs.toCounted.step hb).one_le_claims hra' hx' hrun hdone
  have htwice := honce x
  rw [claims_cons hb, hrb] at htwice
  simp only [Option.toList_some, List.countP_singleton, Request.isClaim, if_true] at htwice
  omega

/-- A step that could have been made first leads to the end of a complete run in which no cell is
claimed twice, and what is left of the run then has its other steps. -/
theorem Sound.strip {ids : List ThreadId} (hs : s.Sound) (hrun : s.run stack ids = some last)
    (hdone : last.Complete) (honce : ∀ x, s.claims stack x ids ≤ 1)
    (hstep : s.step stack a = some sa) :
    ∃ rest, sa.run stack rest = some last ∧ ids.length = rest.length + 1 ∧
      ∀ x, s.claims stack x ids =
        (s.request? a x).toList.countP Request.isClaim + sa.claims stack x rest := by
  induction ids generalizing s sa with
  | nil =>
    cases hrun
    rw [(complete_iff stack).1 hdone a] at hstep
    cases hstep
  | cons b ids ih =>
    obtain ⟨sb, hb, hrest⟩ := run_cons_eq_some_iff.1 hrun
    by_cases hne : b = a
    · subst hne
      cases hb.symm.trans hstep
      exact ⟨ids, hrest, rfl, fun x => claims_cons hstep ids⟩
    · obtain ⟨joined, hba, hab⟩ := hs.step_comm hne hstep hb
        (hs.not_both_claim hne hstep hb hrest hdone honce)
      have honce' : ∀ x, sb.claims stack x ids ≤ 1 := by
        intro x
        have htwice := honce x
        rw [claims_cons hb] at htwice
        omega
      obtain ⟨rest, hjoined, hlength, hclaims⟩ := ih (hs.step hb) hrest honce' hab
      refine ⟨b :: rest, run_cons_eq_some_iff.2 ⟨joined, hba, hjoined⟩, by simp [hlength], ?_⟩
      intro x
      obtain ⟨ta, _, hta, -⟩ := step_eq_some_iff.1 hstep
      obtain ⟨tb, _, htb, -⟩ := step_eq_some_iff.1 hb
      have hrequesta := hs.request?_step (Ne.symm hne) hb hta x
      have hrequestb := hs.request?_step hne hstep htb x
      rw [claims_cons hb, claims_cons hba, hclaims x, hrequesta, hrequestb]
      omega

/-- Every run can be continued until it meets the end of a complete run in which no cell is claimed
twice, and the steps and the claims of the two are then as many. -/
theorem Sound.joins {ids others : List ThreadId} {s' : System} (hs : s.Sound)
    (hrun : s.run stack ids = some last) (hdone : last.Complete)
    (honce : ∀ x, s.claims stack x ids ≤ 1) (hother : s.run stack others = some s') :
    ∃ rest, s'.run stack rest = some last ∧ ids.length = others.length + rest.length ∧
      ∀ x, s.claims stack x ids = s.claims stack x others + s'.claims stack x rest := by
  induction others generalizing s ids with
  | nil =>
    cases hother
    exact ⟨ids, hrun, by simp, fun x => by simp [claims, requests]⟩
  | cons a others ih =>
    obtain ⟨sa, hstep, hother'⟩ := run_cons_eq_some_iff.1 hother
    obtain ⟨ids', hrun', hlength, hclaims⟩ := hs.strip hrun hdone honce hstep
    have honce' : ∀ x, sa.claims stack x ids' ≤ 1 := by
      intro x
      have htwice := honce x
      rw [hclaims x] at htwice
      omega
    obtain ⟨rest, hrest, hlength', hclaims'⟩ := ih (hs.step hstep) hrun' honce' hother'
    refine ⟨rest, hrest, ?_, fun x => ?_⟩
    · rw [hlength, hlength', List.length_cons]
      omega
    · rw [hclaims x, hclaims' x, claims_cons hstep]
      omega

theorem Complete.run_eq {ids : List ThreadId} (hdone : s.Complete)
    (hrun : s.run stack ids = some last) : ids = [] ∧ last = s := by
  cases ids with
  | nil =>
    cases hrun
    exact ⟨rfl, rfl⟩
  | cons id ids =>
    obtain ⟨next, hstep, -⟩ := run_cons_eq_some_iff.1 hrun
    rw [(complete_iff stack).1 hdone id] at hstep
    cases hstep

/-- Two complete runs end in the same system, if in one of them no cell is claimed twice, and then
the other claims every cell as often. -/
theorem Sound.complete_unique {ids others : List ThreadId} {s' : System} (hs : s.Sound)
    (hrun : s.run stack ids = some last) (hdone : last.Complete)
    (honce : ∀ x, s.claims stack x ids ≤ 1) (hother : s.run stack others = some s')
    (hdone' : s'.Complete) :
    s' = last ∧ ∀ x, s.claims stack x others = s.claims stack x ids := by
  obtain ⟨rest, hrest, -, hclaims⟩ := hs.joins hrun hdone honce hother
  obtain ⟨rfl, rfl⟩ := hdone'.run_eq hrest
  refine ⟨rfl, fun x => ?_⟩
  rw [hclaims x]
  simp [claims, requests]

end System

/-! ### An evaluation among cells from outside -/

/-- Cells that are provided from outside: how they are at the start, and what is written to them
later on, each by a thread of its own. -/
structure Provided where
  cell : Name → Nat → Option Cell
  writer : Nat → Option (Name × Nat × Outcome)
  writer_unique : ∀ m n name generation o o', writer m = some (name, generation, o) →
    writer n = some (name, generation, o') → m = n

def Provided.none : Provided where
  cell _ _ := .none
  writer _ := .none
  writer_unique m n name generation o o' h := by cases h

namespace System

/-- A system in which a program of the main thread is about to run, among cells from outside. -/
def launch (out : Provided) (p : Prog Work Result) : System where
  thread
    | .main => some { rest := p }
    | .helper n => (out.writer n).map fun (name, generation, o) =>
      { rest := .ofExcept (o.map .ofValue),
        delivery := some ⟨.external name generation, .null, false⟩ }
    | .child _ _ => none
  cell
    | .external name generation => out.cell name generation
    | .task _ => none

theorem sound_launch (out : Provided) (p : Prog Work Result) : (launch out p).Sound where
  thread p n h := by simp [launch] at h
  cell p n h := by simp [launch] at h
  own id t d u ht hd hu := by
    cases id with
    | main =>
      cases ht
      cases hd
    | helper n =>
      obtain ⟨⟨name, generation, o⟩, -, rfl⟩ := Option.map_eq_some_iff.1 ht
      cases hd
      cases hu
    | child p n => cases ht
  single a b t t' d d' ht ht' hd hd' heq := by
    cases a with
    | main =>
      cases ht
      cases hd
    | child p n => cases ht
    | helper m =>
      cases b with
      | main =>
        cases ht'
        cases hd'
      | child p n => cases ht'
      | helper n =>
        obtain ⟨⟨name, generation, o⟩, hm, rfl⟩ := Option.map_eq_some_iff.1 ht
        obtain ⟨⟨name', generation', o'⟩, hn, rfl⟩ := Option.map_eq_some_iff.1 ht'
        cases hd
        cases hd'
        cases heq
        rw [out.writer_unique m n name generation o o' hm hn]

def outcome? (s : System) (id : ThreadId) : Option Outcome :=
  (s.thread id).bind Thread.outcome?

def Blocked (s : System) (id : ThreadId) : Prop :=
  ∃ t, s.thread id = some t ∧ t.Waits s.cell

/-- The order of steps does not matter. If in one complete run of an evaluation no cell is claimed
more than once, that is so in every complete run, and all of them end with the same outcome of the
main thread, the same tasks, the same threads that wait, and for every cell the same stored outcome
and the same state. -/
theorem complete_runs_agree (stack : Stack) (out : Provided) (ctx : Context) (env : Env) (e : Expr)
    {ids others : List ThreadId} {last last' : System}
    (hrun : (launch out (stack.eval ctx env e)).run stack ids = some last)
    (hdone : last.Complete)
    (honce : ∀ x, (launch out (stack.eval ctx env e)).claims stack x ids ≤ 1)
    (hother : (launch out (stack.eval ctx env e)).run stack others = some last')
    (hdone' : last'.Complete) :
    (∀ x, (launch out (stack.eval ctx env e)).claims stack x others ≤ 1) ∧
      last'.outcome? .main = last.outcome? .main ∧
      (∀ id, (last'.thread id).isSome = (last.thread id).isSome) ∧
      (∀ id, last'.Blocked id ↔ last.Blocked id) ∧
      (∀ x, (last'.cell x).bind (·.outcome) = (last.cell x).bind (·.outcome) ∧
        last'.view x = last.view x) ∧
      last' = last := by
  obtain ⟨rfl, hclaims⟩ :=
    (sound_launch out _).complete_unique hrun hdone honce hother hdone'
  refine ⟨fun x => ?_, rfl, fun _ => rfl, fun _ => Iff.rfl, fun _ => ⟨rfl, rfl⟩, rfl⟩
  rw [hclaims x]
  exact honce x

/-- A task that is spawned and waited for. Whether its result is delivered before its cell is
claimed or afterwards, the main thread ends with it. -/
theorem complete_runs_agree_sync_spawn :
    ∃ last, (launch .none (Stack.eval ⟨3, none⟩ {} ⟨[]⟩ (.sync (.spawn (.lit (.int 1)))))).run
        ⟨3, none⟩ [.main, .main, .child .main 1, .main] = some last ∧
      last.outcome? .main = some (.ok (.int 1)) := by
  let stack : Stack := ⟨3, none⟩
  let e : Expr := .sync (.spawn (.lit (.int 1)))
  let task : ThreadId := .child .main 1
  have hcomplete : ∀ {s : System} {t t' : Thread}, s.thread .main = some t → t.isOver →
      s.thread task = some t' → t'.isOver → (∀ u, u ≠ .main → u ≠ task → s.thread u = none) →
      s.Complete := by
    intro s t t' ht hover ht' hover' hothers u tu hu
    by_cases hmain : u = .main
    · cases (hmain ▸ ht).symm.trans hu
      exact .inl hover
    · by_cases htask : u = task
      · cases (htask ▸ ht').symm.trans hu
        exact .inl hover'
      · cases (hothers u hmain htask).symm.trans hu
  have hfirst : ∃ last, (launch .none (stack.eval {} ⟨[]⟩ e)).run stack
      [.main, task, .main, .main] = some last ∧ last.outcome? .main = some (.ok (.int 1)) ∧
        last.Complete := by
    refine ⟨_, rfl, rfl, hcomplete rfl rfl rfl rfl ?_⟩
    rintro (_ | n | ⟨p, n⟩) hmain htask
    · exact absurd rfl hmain
    · rfl
    · exact (if_neg htask).trans (if_neg htask)
  have hsecond : ∃ last, (launch .none (stack.eval {} ⟨[]⟩ e)).run stack
      [.main, .main, task, .main] = some last ∧ last.Complete := by
    refine ⟨_, rfl, hcomplete rfl rfl rfl rfl ?_⟩
    rintro (_ | n | ⟨p, n⟩) hmain htask
    · exact absurd rfl hmain
    · rfl
    · exact (if_neg htask).trans (if_neg htask)
  have honce : ∀ x, (launch .none (stack.eval {} ⟨[]⟩ e)).claims stack x
      [.main, task, .main, .main] ≤ 1 := by
    intro x
    have hrequests : (launch .none (stack.eval {} ⟨[]⟩ e)).requests stack x
        [.main, task, .main, .main] =
          (if CellId.task task = x then some (.write (.ok (.int 1))) else none).toList ++
            ((if CellId.task task = x then some .claim else none).toList ++ []) := rfl
    rw [claims, hrequests]
    by_cases hx : CellId.task task = x <;> simp [hx, Request.isClaim]
  obtain ⟨last, hrun, hended, hdone⟩ := hfirst
  obtain ⟨last', hother, hdone'⟩ := hsecond
  obtain ⟨-, houtcome, -⟩ :=
    complete_runs_agree stack .none {} ⟨[]⟩ e hrun hdone honce hother hdone'
  exact ⟨last', hother, houtcome.trans hended⟩

end System

end ForkJoin

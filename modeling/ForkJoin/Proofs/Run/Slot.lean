import ForkJoin.Proofs.Run.Invariant

/-!
# What a cell has been through

Many threads can write to one cell and claim it, in any order. Everything about the cell is decided
by the list of these requests: it holds what the first write brought, and it is claimed as soon as
anyone tried to. The two do not depend on each other, so a cell can be claimed before it is written
to, and whoever waits for it then receives what the first write brings.
-/

namespace ForkJoin

namespace Request

def firstWrite? (requests : List Request) : Option Outcome :=
  requests.findSome? outcome?

def anyClaim (requests : List Request) : Bool :=
  requests.any isClaim

@[simp] theorem firstWrite?_nil : firstWrite? [] = none := rfl

@[simp] theorem firstWrite?_write (o : Outcome) (requests : List Request) :
    firstWrite? (.write o :: requests) = some o := rfl

@[simp] theorem firstWrite?_claim (requests : List Request) :
    firstWrite? (.claim :: requests) = firstWrite? requests := rfl

@[simp] theorem anyClaim_nil : anyClaim [] = false := rfl

@[simp] theorem anyClaim_write (o : Outcome) (requests : List Request) :
    anyClaim (.write o :: requests) = anyClaim requests := rfl

@[simp] theorem anyClaim_claim (requests : List Request) :
    anyClaim (.claim :: requests) = true := rfl

end Request

theorem Cell.after_write_of_written {c : Cell} {o : Outcome} (h : c.outcome = some o)
    (o' : Outcome) : c.after (.write o') = c := by
  obtain ⟨label, outcome, claimed⟩ := c
  cases h
  rfl

theorem Cell.after_claim_of_claimed {c : Cell} (h : c.claimed = true) : c.after .claim = c := by
  obtain ⟨label, outcome, claimed⟩ := c
  cases h
  rfl

theorem Cell.foldl_after (c : Cell) (requests : List Request) :
    requests.foldl Cell.after c =
      { c with
        outcome := c.outcome.or (Request.firstWrite? requests),
        claimed := c.claimed || Request.anyClaim requests } := by
  induction requests generalizing c with
  | nil => simp
  | cons request requests ih =>
    rw [List.foldl_cons, ih]
    cases request with
    | write o => cases hwritten : c.outcome <;> simp [after, hwritten]
    | claim => simp [after]

/-- How far a cell is in the order in which its states are observed. -/
def CellState.rank : CellState → Nat
  | .empty => 0
  | .populated => 1
  | .consumed => 2

theorem Cell.Later.rank_le {c c' : Cell} (h : c.Later c') : c.state.rank ≤ c'.state.rank := by
  by_cases hclaimed : c.claimed = true
  · simp [state, hclaimed, h.claimed hclaimed]
  · cases hwritten : c.outcome with
    | none => simp [state, hclaimed, hwritten, CellState.rank]
    | some o =>
      simp only [state, hclaimed, hwritten, h.outcome o hwritten, Option.isSome_some,
        Bool.false_eq_true, if_false, if_true]
      split <;> decide

namespace Thread

variable {stack : Stack} {cell : CellId → Option Cell} {id : ThreadId} {t : Thread} {m : Move}

theorem Moves.on_eq (hm : t.Moves stack cell id m)
    (hnew : cell (.task (.child id (t.spawned + 1))) = none) {x : CellId} {c : Cell}
    (hx : cell x = some c) :
    m.change.on cell x = some (match t.request? with
      | some (y, request) => if y = x then c.after request else c
      | none => c) := by
  cases hm with
  | print hrest => simp [Change.on, request?, outcome?, hrest, hx]
  | spawn hrest =>
    have hne : x ≠ .task (.child id (t.spawned + 1)) := by
      intro h
      rw [h, hnew] at hx
      cases hx
    simp [Change.on, request?, outcome?, hrest, hx, hne]
  | @take wanted rest c' hrest hcell hfree =>
    by_cases h : x = wanted
    · subst h
      simp [Change.on, request?, hrest, hx, Cell.after]
    · simp [Change.on, request?, hrest, hx, h, Ne.symm h]
  | @refuse wanted rest c' hrest hcell htaken =>
    by_cases h : wanted = x
    · subst h
      cases hcell.symm.trans hx
      simp [Change.on, request?, hrest, hx, Cell.after_claim_of_claimed htaken]
    · simp [Change.on, request?, hrest, hx, h]
  | receive hrest => simp [Change.on, request?, outcome?, hrest, hx]
  | @deliver d o c' hended hdue hcell hempty =>
    rw [request?_of_due hended hdue]
    by_cases h : x = d.cell
    · subst h
      cases hcell.symm.trans hx
      simp [Change.on, hx, Cell.after, hempty]
    · simp [Change.on, hx, h, Ne.symm h]
  | @late d o o' c' hended hdue hcell hwritten =>
    rw [request?_of_due hended hdue]
    by_cases h : d.cell = x
    · subst h
      cases hcell.symm.trans hx
      simp [Change.on, hx, Cell.after_write_of_written hwritten]
    · simp [Change.on, hx, h]
  | @lost d o hended hdue hcell =>
    rw [request?_of_due hended hdue]
    by_cases h : d.cell = x
    · rw [h, hx] at hcell
      cases hcell
    · simp [Change.on, hx, h]

end Thread

/-! ### Runs -/

namespace System

variable {stack : Stack} {s s' : System} {id : ThreadId} {x : CellId} {c : Cell}

theorem Counted.cell_of_step (hs : s.Counted) (hx : s.cell x = some c)
    (hstep : s.step stack id = some s') :
    s'.cell x = some ((s.request? id x).toList.foldl Cell.after c) := by
  obtain ⟨t, m, ht, hm, rfl⟩ := step_eq_some_iff.1 hstep
  refine (hm.on_eq (hs.cell_new ht) hx).trans ?_
  cases hrequest : t.request? with
  | none => simp [request?, ht, hrequest]
  | some request =>
    obtain ⟨y, request⟩ := request
    by_cases h : y = x <;> simp [request?, ht, hrequest, h]

/-- A cell after a run is what the requests of the run have made of it. -/
theorem Counted.cell_of_run {ids : List ThreadId} (hs : s.Counted) (hx : s.cell x = some c)
    (hrun : s.run stack ids = some s') :
    s'.cell x = some ((s.requests stack x ids).foldl Cell.after c) := by
  induction ids generalizing s c with
  | nil =>
    cases hrun
    exact hx
  | cons id ids ih =>
    obtain ⟨next, hstep, hrest⟩ := run_cons_eq_some_iff.1 hrun
    rw [requests_cons hstep, List.foldl_append]
    exact ih (hs.step hstep) (hs.cell_of_step hx hstep) hrest

theorem Counted.run {ids : List ThreadId} (hs : s.Counted) (hrun : s.run stack ids = some s') :
    s'.Counted :=
  run_induction (fun _ _ _ h hstep => h.step hstep) hs hrun

theorem Counted.rank_le_of_run {ids : List ThreadId} (hs : s.Counted) (hx : s.cell x = some c)
    (hrun : s.run stack ids = some s') : (s.view x).rank ≤ (s'.view x).rank := by
  induction ids generalizing s c with
  | nil =>
    cases hrun
    exact Nat.le_refl _
  | cons id ids ih =>
    obtain ⟨next, hstep, hrest⟩ := run_cons_eq_some_iff.1 hrun
    obtain ⟨c', hx', hlater⟩ := hs.later_of_step hstep hx
    have hrank : (s.view x).rank ≤ (next.view x).rank := by
      simpa only [view, hx, hx'] using hlater.rank_le
    exact Nat.le_trans hrank (ih (hs.step hstep) hx' hrest)

theorem Counted.thread_of_run {ids : List ThreadId} {t : Thread} (hs : s.Counted)
    (ht : s.thread id = some t) (hrun : s.run stack ids = some s') (hid : id ∉ ids) :
    s'.thread id = some t := by
  induction ids generalizing s with
  | nil =>
    cases hrun
    exact ht
  | cons first ids ih =>
    obtain ⟨next, hstep, hrest⟩ := run_cons_eq_some_iff.1 hrun
    obtain ⟨hne, hid⟩ := List.ne_and_not_mem_of_not_mem_cons hid
    have hnext := hs.step hstep
    obtain ⟨tf, m, htf, hm, rfl⟩ := step_eq_some_iff.1 hstep
    exact ih hnext (after_thread_of_ne hs htf hm hne ht) hrest hid

end System

/-- A thread that makes one request and ends with what it is answered. -/
def Request.caller (x : CellId) : Request → Thread
  | .write o => { rest := .ofExcept (o.map .ofValue), delivery := some ⟨x, .null, false⟩ }
  | .claim => { rest := .claim x (.await x fun v => .done (.ofValue v)) }

theorem Request.request?_caller (x : CellId) (request : Request) :
    (request.caller x).request? = some (x, request) := by
  cases request with
  | write o => cases o <;> rfl
  | claim => rfl

namespace System

variable {stack : Stack} {s s' : System} {id : ThreadId} {x : CellId} {c : Cell}

def callers (name : Name) (generation : Nat) (label : Datum) (history : List Request) : System where
  thread
    | .helper n => history[n]?.map (Request.caller (.external name generation))
    | _ => none
  cell x := if x = .external name generation then some { label } else none

theorem counted_callers (name : Name) (generation : Nat) (label : Datum)
    (history : List Request) : (callers name generation label history).Counted where
  thread p n h := by simp [callers] at h
  cell p n h := by simp [callers] at h

theorem exists_step_of_request? {t : Thread} {request : Request} (ht : s.thread id = some t)
    (hrequest : t.request? = some (x, request)) (hx : s.cell x = some c) :
    ∃ s', s.step stack id = some s' := by
  cases request with
  | write o =>
    obtain ⟨hended, d, hdue, rfl⟩ := Thread.due_of_write hrequest
    cases hwritten : c.outcome with
    | none => exact ⟨_, step_of_moves ht (.deliver hended hdue hx hwritten)⟩
    | some o' => exact ⟨_, step_of_moves ht (.late hended hdue hx hwritten)⟩
  | claim =>
    obtain ⟨rest, hrest⟩ := Thread.rest_of_claim hrequest
    cases hclaimed : c.claimed with
    | false => exact ⟨_, step_of_moves ht (.take hrest hx hclaimed)⟩
    | true => exact ⟨_, step_of_moves ht (.refuse hrest hx hclaimed)⟩

theorem requests_of_callers {first : Nat} {history : List Request} (hs : s.Counted)
    (hx : s.cell x = some c)
    (hthread : ∀ n, s.thread (.helper (first + n)) = history[n]?.map (Request.caller x)) :
    ∃ s', s.run stack ((List.range' first history.length).map .helper) = some s' ∧
      s.requests stack x ((List.range' first history.length).map .helper) = history := by
  induction history generalizing s c first with
  | nil => exact ⟨s, rfl, rfl⟩
  | cons request history ih =>
    have ht : s.thread (.helper first) = some (request.caller x) := hthread 0
    have hrequest := request.request?_caller x
    obtain ⟨next, hstep⟩ : ∃ next, s.step stack (.helper first) = some next :=
      exists_step_of_request? ht hrequest hx
    obtain ⟨c', hx', -⟩ := hs.later_of_step hstep hx
    have hnext : ∀ n, next.thread (.helper (first + 1 + n)) =
        history[n]?.map (Request.caller x) := by
      intro n
      obtain ⟨t, m, -, hm, rfl⟩ := step_eq_some_iff.1 hstep
      have hstarted : m.started? (.helper (first + 1 + n)) = none :=
        hm.started?_eq_none (by simp)
      have hne : ThreadId.helper (first + 1 + n) ≠ .helper first := by
        intro h
        have hindex := ThreadId.helper.inj h
        omega
      have hold := hthread (n + 1)
      rw [show first + (n + 1) = first + 1 + n by omega, List.getElem?_cons_succ] at hold
      simp [after, hne, hstarted, hold]
    obtain ⟨last, hrun, hrequests⟩ := ih (hs.step hstep) hx' hnext
    rw [List.length_cons, List.range'_succ, List.map_cons]
    refine ⟨last, run_cons_eq_some_iff.2 ⟨next, hstep, hrun⟩, ?_⟩
    rw [requests_cons hstep, hrequests]
    simp [request?, ht, hrequest]

/-- Every list of requests is what a cell is asked in some run. -/
theorem exists_run_of_requests (stack : Stack) (name : Name) (generation : Nat) (label : Datum)
    (history : List Request) :
    ∃ ids s', (callers name generation label history).run stack ids = some s' ∧
      (callers name generation label history).requests stack (.external name generation) ids =
        history := by
  have hx : (callers name generation label history).cell (.external name generation) =
      some { label } := by simp [callers]
  have hthread : ∀ n, (callers name generation label history).thread (.helper (0 + n)) =
      history[n]?.map (Request.caller (.external name generation)) := by
    intro n
    rw [Nat.zero_add]
    rfl
  obtain ⟨s', hrun, hrequests⟩ :=
    requests_of_callers (counted_callers name generation label history) hx hthread
  exact ⟨_, s', hrun, hrequests⟩

/-! ### The slot -/

/-- What a cell answers after a history of requests: to whoever is about to write to it, to whoever
is about to claim it, and to whoever waits for it. -/
structure Slot (stack : Stack) (s : System) (x : CellId) (label : Datum)
    (history : List Request) : Prop where
  cell : s.cell x = some
    { label,
      outcome := Request.firstWrite? history,
      claimed := Request.anyClaim history }
  write_first : ∀ id t o, s.thread id = some t → t.request? = some (x, .write o) →
    Request.firstWrite? history = none → ∃ s' t', s.step stack id = some s' ∧
      s'.thread id = some t' ∧ t'.delivered = some (.ok ()) ∧
      s'.cell x = some { label, outcome := some o, claimed := Request.anyClaim history }
  write_again : ∀ id t o, s.thread id = some t → t.request? = some (x, .write o) →
    Request.firstWrite? history ≠ none → ∃ s' t', s.step stack id = some s' ∧
      s'.thread id = some t' ∧ t'.delivered = some (.error (.alreadyPopulated label)) ∧
      s'.cell x = s.cell x
  claim_first : ∀ id t rest, s.thread id = some t → t.rest = .claim x rest →
    Request.anyClaim history = false → ∃ s' t', s.step stack id = some s' ∧
      s'.thread id = some t' ∧ t'.rest = rest ∧
      s'.cell x = some { label, outcome := Request.firstWrite? history, claimed := true }
  claim_again : ∀ id t rest, s.thread id = some t → t.rest = .claim x rest →
    Request.anyClaim history = true → ∃ s' t', s.step stack id = some s' ∧
      s'.thread id = some t' ∧ t'.rest = .raise (.alreadyConsumed label) ∧
      s'.cell x = s.cell x
  await_empty : ∀ id t rest, s.thread id = some t → t.rest = .await x rest →
    Request.firstWrite? history = none → s.step stack id = none
  await_written : ∀ id t rest o, s.thread id = some t → t.rest = .await x rest →
    Request.firstWrite? history = some o → ∃ s' t', s.step stack id = some s' ∧
      s'.thread id = some t' ∧ t'.rest = .resume rest o ∧ s'.cell x = s.cell x

theorem slot_of_cell {label : Datum} {history : List Request}
    (hx : s.cell x = some
      { label,
        outcome := Request.firstWrite? history,
        claimed := Request.anyClaim history }) : s.Slot stack x label history where
  cell := hx
  write_first id t o ht hrequest hfirst := by
    obtain ⟨hended, d, hdue, rfl⟩ := Thread.due_of_write hrequest
    refine ⟨_, _, step_of_moves ht (.deliver hended hdue hx hfirst), after_thread_self, rfl, ?_⟩
    simp [System.after, Change.on, hx]
  write_again id t o ht hrequest hagain := by
    obtain ⟨hended, d, hdue, rfl⟩ := Thread.due_of_write hrequest
    obtain ⟨o', hwritten⟩ := Option.ne_none_iff_exists'.1 hagain
    exact ⟨_, _, step_of_moves ht (.late hended hdue hx hwritten), after_thread_self, rfl, rfl⟩
  claim_first id t rest ht hrest hfree := by
    refine ⟨_, _, step_of_moves ht (.take hrest hx hfree), after_thread_self, rfl, ?_⟩
    simp [System.after, Change.on, hx]
  claim_again id t rest ht hrest htaken :=
    ⟨_, _, step_of_moves ht (.refuse hrest hx htaken), after_thread_self, rfl, rfl⟩
  await_empty id t rest ht hrest hempty := by
    rw [step_eq_none_iff]
    intro t' ht'
    cases ht.symm.trans ht'
    exact .inr (by simp [Thread.Waits, hrest, hx, hempty])
  await_written id t rest o ht hrest hwritten :=
    ⟨_, _, step_of_moves ht (.receive hrest hx hwritten), after_thread_self, rfl, rfl⟩

/-- A cell is written once and claimed once, in every run. At any time of a run it answers to the
requests that it has had; whoever claims it first and waits for it receives what the first write
brings, be that before the claim or after it; and the state that is observed only moves on. -/
theorem slot_of_run (stack : Stack) {s s' : System} {x : CellId} {label : Datum}
    {ids : List ThreadId} (hs : s.Counted) (hx : s.cell x = some { label })
    (hrun : s.run stack ids = some s') :
    s'.Slot stack x label (s.requests stack x ids) ∧
      (∀ id t rest more last, s'.thread id = some t → t.rest = .claim x (.await x rest) →
        Request.anyClaim (s.requests stack x ids) = false → id ∉ more →
        s'.run stack (id :: more) = some last →
        match Request.firstWrite? (s.requests stack x (ids ++ id :: more)) with
        | none => last.step stack id = none
        | some o => ∃ final t', last.step stack id = some final ∧
          final.thread id = some t' ∧ t'.rest = .resume rest o) ∧
      ∀ more last, s'.run stack more = some last → (s'.view x).rank ≤ (last.view x).rank := by
  have hslot : ∀ {ids s'}, s.run stack ids = some s' →
      s'.Slot stack x label (s.requests stack x ids) := by
    intro ids s' hrun
    refine slot_of_cell ((hs.cell_of_run hx hrun).trans ?_)
    rw [Cell.foldl_after]
    simp
  refine ⟨hslot hrun, ?_, ?_⟩
  · intro id t rest more last ht hrest hfree hid hmore
    obtain ⟨next, hstep, hlast⟩ := run_cons_eq_some_iff.1 hmore
    obtain ⟨_, t', hstep', ht', hrest', -⟩ := (hslot hrun).claim_first id t _ ht hrest hfree
    cases hstep.symm.trans hstep'
    have hkept := ((hs.run hrun).step hstep).thread_of_run ht' hlast hid
    have hend := hslot (run_append hrun hmore)
    split
    case h_1 hempty => exact hend.await_empty id t' rest hkept hrest' hempty
    case h_2 o hwritten =>
      obtain ⟨final, t'', hfinal, ht'', hrest'', -⟩ :=
        hend.await_written id t' rest o hkept hrest' hwritten
      exact ⟨final, t'', hfinal, ht'', hrest''⟩
  · intro more last hmore
    exact (hs.run hrun).rank_le_of_run (hslot hrun).cell hmore

/-- A claim that comes before the write receives what is written. -/
theorem slot_of_run_claim_before_write :
    ∃ last final t, (callers (.text "x") 0 .null [.claim, .write (.ok (.int 1))]).run ⟨0, none⟩
        [.helper 0, .helper 1] = some last ∧
      last.step ⟨0, none⟩ (.helper 0) = some final ∧ final.thread (.helper 0) = some t ∧
      t.rest = .done (.ofValue (.int 1)) := by
  let s := callers (.text "x") 0 .null [.claim, .write (.ok (.int 1))]
  have hcounted : s.Counted := counted_callers _ _ _ _
  obtain ⟨last, hlast⟩ : ∃ last, s.run ⟨0, none⟩ [.helper 0, .helper 1] = some last := ⟨_, rfl⟩
  have hfirst : Request.firstWrite? (s.requests ⟨0, none⟩ (.external (.text "x") 0)
      ([] ++ [.helper 0, .helper 1])) = some (.ok (.int 1)) := rfl
  obtain ⟨-, hreturns, -⟩ := slot_of_run ⟨0, none⟩ hcounted
    (show s.cell (.external (.text "x") 0) = some { label := .null } from rfl) (run_nil s)
  have hreturned := hreturns (.helper 0) _ _ [.helper 1] last rfl rfl rfl (by simp) hlast
  rw [hfirst] at hreturned
  obtain ⟨final, t, hfinal, ht, hrest⟩ := hreturned
  exact ⟨last, final, t, hlast, hfinal, ht, hrest⟩

end System

end ForkJoin

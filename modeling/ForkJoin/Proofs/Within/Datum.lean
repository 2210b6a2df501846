import ForkJoin.Datum.Arithmetic
import ForkJoin.Datum.Parts

/-!
# The cells that data mention

A datum mentions a cell if it is the cell or has a part that mentions it. `Within` says that
everything that is mentioned belongs to some collection of cells. The parts of a datum mention
nothing that the datum does not, and arithmetic on data mentions nothing that the operands do not.
-/

namespace ForkJoin

theorem ok_of_bind {ε α β : Type} {x : Except ε α} {f : α → Except ε β} {b : β}
    (h : x >>= f = .ok b) : ∃ a, x = .ok a ∧ f a = .ok b := by
  cases x with
  | error e => cases h
  | ok a => exact ⟨a, rfl, h⟩

namespace Datum

/-- A datum is a cell, or has a part that mentions it. -/
inductive Mentions (x : CellId) : Datum → Prop
  | cell : Mentions x (.cell x)
  | list {items : List Datum} {d : Datum} (hd : d ∈ items) (h : Mentions x d) :
      Mentions x (.list items)
  | tuple {items : List Datum} {d : Datum} (hd : d ∈ items) (h : Mentions x d) :
      Mentions x (.tuple items)
  | record {fields : List (String × Datum)} {key : String} {d : Datum} (hd : (key, d) ∈ fields)
      (h : Mentions x d) : Mentions x (.record fields)

def Within (d : Datum) (cells : CellId → Prop) : Prop :=
  ∀ x, d.Mentions x → cells x

variable {cells cells' : CellId → Prop} {d : Datum}

theorem Within.mono (h : d.Within cells) (hle : ∀ x, cells x → cells' x) : d.Within cells' :=
  fun x hx => hle x (h x hx)

@[simp] theorem within_null : null.Within cells := by
  intro x hx
  cases hx

@[simp] theorem within_bool (b : Bool) : (bool b).Within cells := by
  intro x hx
  cases hx

@[simp] theorem within_int (n : Int) : (int n).Within cells := by
  intro x hx
  cases hx

@[simp] theorem within_float (x : Float) : (float x).Within cells := by
  intro x hx
  cases hx

@[simp] theorem within_text (s : String) : (text s).Within cells := by
  intro x hx
  cases hx

@[simp] theorem within_cell (x : CellId) : (cell x).Within cells ↔ cells x := by
  refine ⟨fun h => h x .cell, fun h y hy => ?_⟩
  cases hy
  exact h

@[simp] theorem within_list (items : List Datum) :
    (list items).Within cells ↔ ∀ d ∈ items, d.Within cells := by
  refine ⟨fun h d hd x hx => h x (.list hd hx), fun h x hx => ?_⟩
  cases hx with
  | list hd hx => exact h _ hd x hx

@[simp] theorem within_tuple (items : List Datum) :
    (tuple items).Within cells ↔ ∀ d ∈ items, d.Within cells := by
  refine ⟨fun h d hd x hx => h x (.tuple hd hx), fun h x hx => ?_⟩
  cases hx with
  | tuple hd hx => exact h _ hd x hx

@[simp] theorem within_record (fields : List (String × Datum)) :
    (record fields).Within cells ↔ ∀ field ∈ fields, field.2.Within cells := by
  refine ⟨fun h field hfield x hx => h x (.record hfield hx), fun h x hx => ?_⟩
  cases hx with
  | record hd hx => exact h _ hd x hx

@[simp] theorem within_ofText? (s : Option String) : (ofText? s).Within cells := by
  cases s <;> simp [ofText?]

@[simp] theorem within_valueRecord (type payload : Datum) :
    (valueRecord type payload).Within cells ↔ payload.Within cells ∧ type.Within cells := by
  simp [valueRecord]

@[simp] theorem within_nodeRecord (type payload : Datum) :
    (nodeRecord type payload).Within cells ↔ type.Within cells ∧ payload.Within cells := by
  simp [nodeRecord]

theorem within_of_mem_characters {s : String} (h : d ∈ characters s) : d.Within cells := by
  obtain ⟨c, -, rfl⟩ := List.mem_map.1 h
  exact within_text _

theorem Within.lookup {fields : List (String × Datum)} {key : String}
    (h : (record fields).Within cells) (hpart : fields.lookup key = some d) : d.Within cells := by
  obtain ⟨front, back, rfl, -⟩ := List.lookup_eq_some_iff.1 hpart
  exact (within_record _).1 h (key, d) (by simp)

theorem Within.part {whole : Datum} {key : String} (h : whole.Within cells)
    (hpart : whole.part key = .ok d) : d.Within cells := by
  unfold Datum.part at hpart
  split at hpart
  case h_1 fields =>
    split at hpart
    · cases hpart
      exact h.lookup (by assumption)
    · cases hpart
  all_goals cases hpart

theorem Within.positions {wanted : Datum → Fault} {ds : List Datum} (h : d.Within cells)
    (hitems : d.positions wanted = .ok ds) : ∀ d ∈ ds, d.Within cells := by
  unfold Datum.positions at hitems
  split at hitems
  case h_1 s =>
    cases hitems
    exact fun d hd => within_of_mem_characters hd
  case h_2 =>
    cases hitems
    exact (within_list _).1 h
  case h_3 =>
    cases hitems
    exact (within_tuple _).1 h
  case h_4 | h_5 => cases hitems

/-! ### Arithmetic -/

theorem mem_of_mem_repeated {α : Type} {items repetition : List α} {times : Int} {a : α}
    (h : repeated items times = .ok repetition) (ha : a ∈ repetition) : a ∈ items := by
  unfold repeated at h
  split at h
  · cases h
    cases ha
  · split at h
    · cases h
    · cases h
      obtain ⟨copy, hcopy, ha⟩ := List.mem_flatten.1 ha
      rwa [List.eq_of_mem_replicate hcopy] at ha

theorem Within.repetition {times : Int} {result : Datum} (h : d.Within cells)
    (hresult : d.repetition times = .ok result) : result.Within cells := by
  unfold Datum.repetition at hresult
  split at hresult
  · cases hresult
  · split at hresult
    case h_1 s =>
      split at hresult
      · cases hresult
      · obtain ⟨chars, -, hresult⟩ := ok_of_bind hresult
        cases hresult
        exact within_text _
    case h_2 items =>
      obtain ⟨copies, hcopies, hresult⟩ := ok_of_bind hresult
      cases hresult
      rw [within_list] at h ⊢
      exact fun d hd => h d (mem_of_mem_repeated hcopies hd)
    case h_3 items =>
      obtain ⟨copies, hcopies, hresult⟩ := ok_of_bind hresult
      cases hresult
      rw [within_tuple] at h ⊢
      exact fun d hd => h d (mem_of_mem_repeated hcopies hd)
    case h_4 =>
      cases hresult
      exact h

theorem Within.combineSequences {op : Operation} {x y result : Datum} (hx : x.Within cells)
    (hy : y.Within cells) (hresult : Datum.combineSequences op x y = .ok result) :
    result.Within cells := by
  unfold Datum.combineSequences at hresult
  split at hresult
  case h_1 =>
    split at hresult
    case h_1 =>
      cases hresult
      exact within_text _
    case h_2 =>
      cases hresult
      rw [within_list] at hx hy ⊢
      exact fun d hd => (List.mem_append.1 hd).elim (hx d) (hy d)
    case h_3 =>
      cases hresult
      rw [within_tuple] at hx hy ⊢
      exact fun d hd => (List.mem_append.1 hd).elim (hx d) (hy d)
    case h_4 => split at hresult <;> cases hresult
  case h_2 =>
    split at hresult
    · split at hresult
      · exact hx.repetition hresult
      · cases hresult
    · split at hresult
      · split at hresult
        · exact hy.repetition hresult
        · cases hresult
      · cases hresult
  case h_3 => cases hresult

theorem Within.combine {op : Operation} {x y result : Datum} (hx : x.Within cells)
    (hy : y.Within cells) (hresult : Datum.combine op x y = .ok result) :
    result.Within cells := by
  unfold Datum.combine at hresult
  split at hresult
  · cases hresult
    exact within_int _
  · split at hresult
    · obtain ⟨a, -, hresult⟩ := ok_of_bind hresult
      obtain ⟨b, -, hresult⟩ := ok_of_bind hresult
      cases hresult
      exact within_float _
    · exact hx.combineSequences hy hresult

end Datum

end ForkJoin

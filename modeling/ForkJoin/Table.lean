/-!
# Tables

Finitely many entries by key. An entry that is set is put in front, so the entries that are used
most are found first.
-/

namespace ForkJoin

/-- A table; of two entries under one key the first counts. -/
structure Table (κ ν : Type) where
  entries : List (κ × ν) := []
  deriving Inhabited

namespace Table

variable {κ ν : Type} [DecidableEq κ]

def get? (t : Table κ ν) (key : κ) : Option ν :=
  t.entries.lookup key

/-- Entries without the first of those under a key. -/
def without (key : κ) : List (κ × ν) → List (κ × ν)
  | [] => []
  | entry :: rest => if entry.1 = key then rest else entry :: without key rest

def set (t : Table κ ν) (key : κ) (value : ν) : Table κ ν :=
  ⟨(key, value) :: without key t.entries⟩

@[simp] theorem get?_empty (key : κ) : ({} : Table κ ν).get? key = none := rfl

/-- Taking out an entry leaves those under other keys. -/
theorem lookup_without (entries : List (κ × ν)) {key other : κ} (h : other ≠ key) :
    (without key entries).lookup other = entries.lookup other := by
  induction entries with
  | nil => rfl
  | cons entry rest ih =>
    obtain ⟨k, v⟩ := entry
    by_cases hk : k = key
    · subst hk
      simp [without, List.lookup_cons, beq_false_of_ne h]
    · simp [without, hk, List.lookup_cons, ih]

theorem get?_set (t : Table κ ν) (key other : κ) (value : ν) :
    (t.set key value).get? other = if other = key then some value else t.get? other := by
  by_cases h : other = key
  · subst h
    simp [set, get?]
  · simp [set, get?, List.lookup_cons, beq_false_of_ne h, h, lookup_without]

end Table

end ForkJoin

import ForkJoin.Identifier
import Mathlib.Data.List.Basic

/-!
# Labels of threads

A label tells which thread it belongs to (`ThreadId.label_injective`), and so does a line that is
marked with it: no label has a bracket in it, so the mark ends where the label does
(`ThreadId.eq_of_startsWith_mark`).
-/

namespace ForkJoin

theorem eq_of_append_cons {α : Type} {c : α} {x x' z z' : List α} (hx : c ∉ x) (hx' : c ∉ x')
    (h : x ++ c :: z = x' ++ c :: z') : x = x' ∧ z = z' := by
  induction x generalizing x' with
  | nil =>
    cases x' with
    | nil => exact ⟨rfl, (List.cons.inj h).2⟩
    | cons a x' => exact absurd (List.cons.inj h).1 (List.ne_of_not_mem_cons hx')
  | cons a x ih =>
    cases x' with
    | nil => exact absurd (List.cons.inj h).1.symm (List.ne_of_not_mem_cons hx)
    | cons b x' =>
      obtain ⟨rfl, hrest⟩ := List.cons.inj h
      obtain ⟨rfl, rfl⟩ := ih (List.not_mem_of_not_mem_cons hx)
        (List.not_mem_of_not_mem_cons hx') hrest
      exact ⟨rfl, rfl⟩

theorem eq_of_append_cons_last {α : Type} {c : α} {x x' z z' : List α} (hz : c ∉ z) (hz' : c ∉ z')
    (h : x ++ c :: z = x' ++ c :: z') : x = x' ∧ z = z' := by
  have hreverse : z.reverse ++ c :: x.reverse = z'.reverse ++ c :: x'.reverse := by
    simpa using congrArg List.reverse h
  obtain ⟨hz, hx⟩ := eq_of_append_cons (by simpa using hz) (by simpa using hz') hreverse
  exact ⟨List.reverse_injective hx, List.reverse_injective hz⟩

theorem toDigits_injective : Function.Injective (Nat.toDigits 10) := by
  intro m n h
  have hvalue := congrArg (Nat.ofDigitChars 10 · 0) h
  simpa only [Nat.ofDigitChars_ten_toDigits] using hvalue

theorem not_mem_toDigits {n : Nat} {c : Char} (hc : c.isDigit = false) :
    c ∉ Nat.toDigits 10 n := by
  intro h
  rw [Nat.isDigit_of_mem_toDigits (by decide) (by decide) h] at hc
  cases hc

namespace ThreadId

/-! ### Labels -/

theorem toList_main : main.label.toList = ['m', 'a', 'i', 'n'] := rfl

theorem toList_helper (n : Nat) :
    (helper n).label.toList = ['h', 'e', 'l', 'p', 'e', 'r'] ++ Nat.toDigits 10 n := by
  change ("helper" ++ n.repr).toList = _
  simp

theorem toList_child_main (index : Nat) :
    (child main index).label.toList = 't' :: Nat.toDigits 10 index := by
  change ("t" ++ index.repr).toList = _
  simp

theorem toList_child {parent : ThreadId} (h : parent ≠ main) (index : Nat) :
    (child parent index).label.toList = parent.label.toList ++ '.' :: Nat.toDigits 10 index := by
  have hlabel : (child parent index).label = parent.label ++ "." ++ index.repr := by
    cases parent with
    | main => exact absurd rfl h
    | helper n => rfl
    | child p n => rfl
  simp [hlabel]

theorem label_ne_empty (id : ThreadId) : id.label ≠ "" := by
  intro h
  have hlist := congrArg String.toList h
  cases id with
  | main => simp [toList_main] at hlist
  | helper n => simp [toList_helper] at hlist
  | child parent index =>
    by_cases hparent : parent = main
    · simp [hparent, toList_child_main] at hlist
    · simp [toList_child hparent] at hlist

theorem bracket_not_mem_label (id : ThreadId) : ']' ∉ id.label.toList := by
  have hdigits : ∀ n : Nat, ']' ∉ Nat.toDigits 10 n := fun n => not_mem_toDigits rfl
  induction id with
  | main => simp [toList_main]
  | helper n => simp [toList_helper, hdigits n]
  | child parent index ih =>
    by_cases h : parent = main
    · simp [h, toList_child_main, hdigits index]
    · simp [toList_child h, ih, hdigits index]

theorem dot_mem_label_iff (id : ThreadId) :
    '.' ∈ id.label.toList ↔ ∃ parent index, id = child parent index ∧ parent ≠ main := by
  have hdigits : ∀ n : Nat, '.' ∉ Nat.toDigits 10 n := fun n => not_mem_toDigits rfl
  cases id with
  | main => simp [toList_main]
  | helper n => simp [toList_helper, hdigits n]
  | child parent index =>
    by_cases h : parent = main
    · simp [h, toList_child_main, hdigits index]
    · simp [toList_child h, h]

/-- Labels without a dot begin with different letters unless they are of the same kind. -/
theorem eq_of_label_eq {id id' : ThreadId} (hflat : '.' ∉ id.label.toList)
    (h : id.label = id'.label) : id = id' := by
  have hcases : ∀ u : ThreadId, '.' ∉ u.label.toList →
      u = main ∨ (∃ n, u = helper n) ∨ ∃ n, u = child main n := by
    intro u hu
    rw [dot_mem_label_iff] at hu
    cases u with
    | main => exact .inl rfl
    | helper n => exact .inr (.inl ⟨n, rfl⟩)
    | child parent index =>
      by_cases hparent : parent = main
      · exact .inr (.inr ⟨index, by rw [hparent]⟩)
      · exact absurd ⟨parent, index, rfl, hparent⟩ hu
  have hlist := congrArg String.toList h
  rcases hcases id hflat with rfl | ⟨n, rfl⟩ | ⟨n, rfl⟩ <;>
    rcases hcases id' (h ▸ hflat) with rfl | ⟨n', rfl⟩ | ⟨n', rfl⟩
  case inl.inl => rfl
  all_goals
    simp only [toList_main, toList_helper, toList_child_main, List.cons_append, List.nil_append,
      List.cons.injEq, true_and, Char.reduceEq, false_and, reduceCtorEq] at hlist
  all_goals rw [toDigits_injective hlist]

theorem label_injective : Function.Injective label := by
  intro id
  induction id with
  | main | helper n =>
    intro id' h
    exact eq_of_label_eq (by simp [dot_mem_label_iff]) h
  | child parent index ih =>
    intro id' h
    by_cases hparent : parent = main
    · exact eq_of_label_eq (by simp [dot_mem_label_iff, hparent]) h
    · have hdot : '.' ∈ id'.label.toList :=
        h ▸ (dot_mem_label_iff _).2 ⟨parent, index, rfl, hparent⟩
      obtain ⟨parent', index', rfl, hparent'⟩ := (dot_mem_label_iff id').1 hdot
      have hlist := congrArg String.toList h
      rw [toList_child hparent, toList_child hparent'] at hlist
      obtain ⟨hlabel, hindex⟩ :=
        eq_of_append_cons_last (not_mem_toDigits rfl) (not_mem_toDigits rfl) hlist
      rw [ih (String.toList_injective hlabel), toDigits_injective hindex]

/-! ### Lines -/

/-- What stands in front of the lines of a task. -/
def mark (id : ThreadId) : String :=
  s!"[task {id.label}] "

/-- A message as a thread prints it: a task puts its mark in front. -/
def line (id : ThreadId) (message : String) : String :=
  match id with
  | main => message
  | id => id.mark ++ message

def spawnLine (id : ThreadId) : String :=
  "Spawned task " ++ id.label

def commitLine (id : ThreadId) : String :=
  id.mark ++ "committed"

def failLine (id : ThreadId) (text : String) : String :=
  id.mark ++ ("failed: " ++ text)

/-- Whether a line announces the end of a task. -/
def IsFinal (id : ThreadId) (text : String) : Prop :=
  text = id.commitLine ∨ ∃ reason, text = id.failLine reason

variable {id id' : ThreadId} {text : String}

theorem toList_mark (id : ThreadId) :
    id.mark.toList = "[task ".toList ++ (id.label.toList ++ [']', ' ']) := by
  simp [mark, toString]

theorem startsWith_append (pre text : String) : (pre ++ text).startsWith pre := by
  rw [String.startsWith_string_iff, String.toList_append]
  exact List.prefix_append _ _

theorem startsWith_task_of_mark (h : text.startsWith id.mark) : text.startsWith "[task " := by
  rw [String.startsWith_string_iff, toList_mark] at h
  exact String.startsWith_string_iff.2 ((List.prefix_append _ _).trans h)

theorem eq_of_startsWith_mark (h : text.startsWith id.mark) (h' : text.startsWith id'.mark) :
    id = id' := by
  obtain ⟨rest, hrest⟩ := String.startsWith_string_iff.1 h
  obtain ⟨rest', hrest'⟩ := String.startsWith_string_iff.1 h'
  have hlines := hrest.trans hrest'.symm
  simp only [toList_mark, List.append_assoc] at hlines
  obtain ⟨hlabel, -⟩ := eq_of_append_cons id.bracket_not_mem_label id'.bracket_not_mem_label
    (List.append_cancel_left hlines)
  exact label_injective (String.toList_injective hlabel)

theorem spawnLine_injective : Function.Injective spawnLine := fun _ _ h =>
  label_injective ((String.append_right_inj _).1 h)

theorem not_startsWith_task_spawnLine (id : ThreadId) : ¬id.spawnLine.startsWith "[task " := by
  rw [String.startsWith_string_iff, spawnLine, String.toList_append]
  simp

theorem not_startsWith_spawned_mark (id : ThreadId) (message : String) :
    ¬(id.mark ++ message).startsWith "Spawned task " := by
  rw [String.startsWith_string_iff, String.toList_append, toList_mark]
  simp

theorem IsFinal.exists_eq (h : id.IsFinal text) : ∃ message, text = id.mark ++ message := by
  rcases h with h | ⟨reason, h⟩
  · exact ⟨_, h⟩
  · exact ⟨_, h⟩

theorem IsFinal.startsWith_mark (h : id.IsFinal text) : text.startsWith id.mark := by
  obtain ⟨message, rfl⟩ := h.exists_eq
  exact startsWith_append _ _

theorem failLine_injective (id : ThreadId) : Function.Injective id.failLine := fun _ _ h =>
  (String.append_right_inj _).1 ((String.append_right_inj _).1 h)

theorem commitLine_ne_failLine (id : ThreadId) (reason : String) :
    id.commitLine ≠ id.failLine reason := by
  intro h
  have hlist := congrArg String.toList ((String.append_right_inj _).1 h)
  simp at hlist

end ThreadId

end ForkJoin

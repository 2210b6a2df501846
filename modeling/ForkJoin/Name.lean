import ForkJoin.Decimal

/-!
# Names

What variables, parameters and the bindings of an environment are called. A name is a text, as a
rule; a tree from outside may also use null, a truth value or a number. Names have a form in which
they are written and a key by which they are told apart: two numbers are the same name when they
are worth the same, and truth values are the numbers that they count as.
-/

namespace ForkJoin

inductive Name where
  | text (s : String)
  | null
  | truth (b : Bool)
  | whole (n : Int)
  /-- A fractional number, by its bits. -/
  | fraction (bits : UInt64)
  deriving DecidableEq, Inhabited, Repr

instance : Coe String Name := ⟨.text⟩

namespace Name

/-- The whole number that a fractional number is worth. -/
def wholeWorth? (x : Float) : Option Int :=
  match fractionWorth? x with
  | some (n, d) => if n % d = 0 then some (n / d) else none
  | none => none

/-- The form that stands for all names that mean the same: numbers are whole if they can be. -/
def key : Name → Name
  | .truth b => .whole (if b then 1 else 0)
  | .fraction bits =>
    match wholeWorth? (Float.ofBits bits) with
    | some n => .whole n
    | none => .fraction bits
  | name => name

@[simp] theorem key_text (s : String) : (text s).key = text s := rfl

@[simp] theorem key_null : null.key = null := rfl

@[simp] theorem key_whole (n : Int) : (whole n).key = whole n := rfl

@[simp] theorem key_truth (b : Bool) : (truth b).key = whole (if b then 1 else 0) := rfl

/-- A key is its own key. -/
@[simp] theorem key_key (name : Name) : name.key.key = name.key := by
  cases name with
  | fraction bits =>
    cases h : wholeWorth? (Float.ofBits bits) <;> simp [key, h]
  | _ => rfl

end Name

end ForkJoin

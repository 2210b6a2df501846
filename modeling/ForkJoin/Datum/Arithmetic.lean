import ForkJoin.Failure

/-!
# Arithmetic on data

Sums, differences and products. Whole numbers give whole numbers of any size; where one operand is
fractional both are taken as fractional numbers. Truth values count as one and zero. A sum also
joins two texts or two lists, and a product also repeats one, within the bounds of what can be
counted and held.
-/

namespace ForkJoin

inductive Operation where
  | add
  | sub
  | mul
  deriving DecidableEq, Inhabited, Repr

namespace Operation

def symbol : Operation → String
  | .add => "+"
  | .sub => "-"
  | .mul => "*"

def onInts : Operation → Int → Int → Int
  | .add => (· + ·)
  | .sub => (· - ·)
  | .mul => (· * ·)

def onFractions : Operation → Float → Float → Float
  | .add => (· + ·)
  | .sub => (· - ·)
  | .mul => (· * ·)

end Operation

namespace Datum

/-- The whole number that a datum counts as. -/
def whole? : Datum → Option Int
  | .bool b => some (if b then 1 else 0)
  | .int n => some n
  | _ => none

/-- The fractional number that a datum counts as; an integer may lie beyond them all. -/
def fraction? (d : Datum) : Option (Except Fault Float) :=
  match d, d.whole? with
  | .float x, _ => some (.ok x)
  | _, some n =>
    match nearestFraction? n with
    | some x => some (.ok x)
    | none => some (.error .beyondFractions)
  | _, none => none

/-- The greatest number that counts items. -/
def maxCount : Nat := Nat.pow 2 63 - 1

/-- How many items there is room for. -/
def capacity : Nat := Nat.pow 2 28

/-- A list some number of times, one after another, if there is room for that. A number below one
leaves nothing of it. -/
def repeated {α : Type} (items : List α) (times : Int) : Except Fault (List α) :=
  if items.isEmpty then .ok []
  else if capacity < items.length * times.toNat then .error .noRoom
  else .ok (List.replicate times.toNat items).flatten

/-- A datum some number of times; one that is no sequence stays as it is. -/
def repetition (d : Datum) (times : Int) : Except Fault Datum :=
  if maxCount < times ∨ times < -maxCount - 1 then .error .uncountable
  else
    match d with
    | .text s =>
      if maxCount < s.length * times.toNat then .error .textTooLong
      else return .text (String.ofList (← repeated s.toList times))
    | .list items => return .list (← repeated items times)
    | .tuple items => return .tuple (← repeated items times)
    | d => return d

def isSequence : Datum → Bool
  | .text _ | .list _ | .tuple _ => true
  | _ => false

/-- An operation on two data that are not both numbers. -/
def combineSequences (op : Operation) (x y : Datum) : Except Fault Datum :=
  match op with
  | .add =>
    match x, y with
    | .text s, .text t => .ok (.text (s ++ t))
    | .list xs, .list ys => .ok (.list (xs ++ ys))
    | .tuple xs, .tuple ys => .ok (.tuple (xs ++ ys))
    | x, y =>
      if x.isSequence then .error (.notJoinable x.kindName y.kindName)
      else .error (.noOperation op.symbol x.kindName y.kindName)
  | .mul =>
    if x.isSequence then
      match y.whole? with
      | some n => x.repetition n
      | none => .error (.notRepeatable y.kindName)
    else if y.isSequence then
      match x.whole? with
      | some n => y.repetition n
      | none => .error (.notRepeatable x.kindName)
    else .error (.noOperation op.symbol x.kindName y.kindName)
  | .sub => .error (.noOperation op.symbol x.kindName y.kindName)

def combine (op : Operation) (x y : Datum) : Except Fault Datum :=
  match x.whole?, y.whole? with
  | some m, some n => .ok (.int (op.onInts m n))
  | _, _ =>
    match x.fraction?, y.fraction? with
    | some a, some b => return .float (op.onFractions (← a) (← b))
    | _, _ => combineSequences op x y

@[simp] theorem combine_int (op : Operation) (m n : Int) :
    combine op (.int m) (.int n) = .ok (.int (op.onInts m n)) := rfl

end Datum

end ForkJoin

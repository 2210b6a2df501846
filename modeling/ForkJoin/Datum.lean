import ForkJoin.Decimal
import ForkJoin.Identifier
import ForkJoin.Text.Numeral
import ForkJoin.Text.Quoted

/-!
# Plain data

What programs are handed from outside, and what every value and every expression can be taken apart
into: data with their kinds, their equality and their text. Equality is by content. The two truth
values count as the numbers one and zero, and a fractional number equals the whole number that it
is worth, so equality runs across three of the kinds.
-/

namespace ForkJoin

inductive Datum where
  | null
  | bool (b : Bool)
  | int (n : Int)
  | float (x : Float)
  | text (s : String)
  | list (items : List Datum)
  /-- A list that stands for one thing made of several parts. -/
  | tuple (items : List Datum)
  /-- Named fields, in the order in which they were given. -/
  | record (fields : List (String × Datum))
  /-- The cell of a future. -/
  | cell (id : CellId)
  deriving Inhabited, Repr

namespace Datum

instance : Coe String Datum := ⟨.text⟩

def ofText? : Option String → Datum
  | some s => .text s
  | none => .null

/-! ### Kinds and fields -/

def kindName : Datum → String
  | .null => "NoneType"
  | .bool _ => "bool"
  | .int _ => "int"
  | .float _ => "float"
  | .text _ => "str"
  | .list _ => "list"
  | .tuple _ => "tuple"
  | .record _ => "dict"
  | .cell _ => "FutureCell"

def field? (key : String) : Datum → Option Datum
  | .record fields => fields.lookup key
  | _ => none

/-- Whether a datum counts as something rather than nothing. -/
def isTruthy : Datum → Bool
  | .null => false
  | .bool b => b
  | .int n => n != 0
  | .float x => x != 0
  | .text s => !s.isEmpty
  | .list items => !items.isEmpty
  | .tuple items => !items.isEmpty
  | .record fields => !fields.isEmpty
  | .cell _ => true

/-! ### Equality -/

/-- What a number is worth, as a quotient. -/
def worth? : Datum → Option (Int × Nat)
  | .bool b => some (if b then 1 else 0, 1)
  | .int n => some (n, 1)
  | .float x => fractionWorth? x
  | _ => none

/-- Equality of the data that have no parts. -/
def sameLeaf (x y : Datum) : Bool :=
  match x.worth?, y.worth? with
  | some (m, p), some (n, q) => m * q == n * p
  | _, _ =>
    match x, y with
    | .null, .null => true
    | .float a, .float b => a == b
    | .text s, .text t => s == t
    | .cell c, .cell d => c == d
    | _, _ => false

mutual

def same : Datum → Datum → Bool
  | .list xs, y =>
    match y with
    | .list ys => sameAll xs ys
    | _ => false
  | .tuple xs, y =>
    match y with
    | .tuple ys => sameAll xs ys
    | _ => false
  | .record xs, y =>
    match y with
    | .record ys => xs.length == ys.length && sameFields xs ys
    | _ => false
  | x, y => sameLeaf x y

def sameAll : List Datum → List Datum → Bool
  | [], ys => ys.isEmpty
  | x :: xs, ys =>
    match ys with
    | [] => false
    | y :: ys => same x y && sameAll xs ys

/-- Every field of the first record is a field of the second, with equal content. -/
def sameFields : List (String × Datum) → List (String × Datum) → Bool
  | [], _ => true
  | (key, x) :: xs, ys =>
    (match ys.lookup key with
      | some y => same x y
      | none => false) && sameFields xs ys

end

@[simp] theorem same_text (s t : String) : (text s).same t = (s == t) := rfl

@[simp] theorem same_int (m n : Int) : (int m).same (int n) = (m == n) := by
  simp [same, sameLeaf, worth?]

/-! ### Text -/

mutual

/-- A datum as it is written inside another datum: texts stand between quotes. -/
def literal : Datum → String
  | .null => "None"
  | .bool b => if b then "True" else "False"
  | .int n => toString n
  | .float x => fractionText x
  | .text s => Text.quoted s
  | .list items => "[" ++ ", ".intercalate (literals items) ++ "]"
  | .tuple items =>
    match items with
    | [item] => "(" ++ literal item ++ ",)"
    | items => "(" ++ ", ".intercalate (literals items) ++ ")"
  | .record fields => "\x7b" ++ ", ".intercalate (fieldLiterals fields) ++ "\x7d"
  | .cell _ => "<cell>"

def literals : List Datum → List String
  | [] => []
  | d :: ds => literal d :: literals ds

def fieldLiterals : List (String × Datum) → List String
  | [] => []
  | (key, d) :: rest => (Text.quoted key ++ ": " ++ literal d) :: fieldLiterals rest

end

/-- A datum as it is shown by itself: a text is shown without quotes. -/
def display : Datum → String
  | .text s => s
  | d => d.literal

@[simp] theorem display_text (s : String) : (text s).display = s := rfl

mutual

/-- Whether an integer in a datum is too long to be written. -/
def holdsLongNumeral : Datum → Bool
  | .int n => (Text.Numeral.write? n).isNone
  | .list items => anyLongNumeral items
  | .tuple items => anyLongNumeral items
  | .record fields => fieldsLongNumeral fields
  | _ => false

def anyLongNumeral : List Datum → Bool
  | [] => false
  | d :: ds => holdsLongNumeral d || anyLongNumeral ds

def fieldsLongNumeral : List (String × Datum) → Bool
  | [] => false
  | (_, d) :: rest => holdsLongNumeral d || fieldsLongNumeral rest

end

/-! ### Height -/

mutual

def height : Datum → Nat
  | .list items => heightAll items + 1
  | .tuple items => heightAll items + 1
  | .record fields => heightFields fields + 1
  | _ => 0

def heightAll : List Datum → Nat
  | [] => 0
  | d :: ds => max (height d) (heightAll ds)

def heightFields : List (String × Datum) → Nat
  | [] => 0
  | (_, d) :: rest => max (height d) (heightFields rest)

end

end Datum

end ForkJoin

import ForkJoin.Text.Blank
import ForkJoin.Text.Digit

/-!
# Decimal numerals

Integers as decimal text, in both directions. A numeral has at most `maxDigits` digits: a longer
one is neither written nor read, while arithmetic on such integers is not limited. A numeral is
read in any script, with a sign, blanks around it and single underscores between its digits.
-/

namespace ForkJoin.Text.Numeral

/-- The most digits that a numeral may have. -/
def maxDigits : Nat := 4300

/-- The least natural number that needs more than `maxDigits` digits. -/
def bound : Nat := Nat.pow 10 maxDigits

/-! ### Writing -/

/-- The numeral of an integer, and nothing when it would be too long. -/
def write? (n : Int) : Option String :=
  if n.natAbs < bound then some (toString n) else none

/-! ### Reading -/

/-- The digits of an unsigned numeral; underscores stand one at a time and between digits only. -/
def digits? : List Char → Option (List Nat)
  | [] => none
  | [c] => (digitValue? c).map ([·])
  | c :: '_' :: rest => do
    let d ← digitValue? c
    let ds ← digits? rest
    return d :: ds
  | c :: rest => do
    let d ← digitValue? c
    let ds ← digits? rest
    return d :: ds

/-- The number that some digits denote, the most significant first. -/
def ofDigits (ds : List Nat) : Nat :=
  ds.foldl (fun n d => 10 * n + d) 0

/-- Blank around a numeral: any blank but the information separators. -/
def isMargin (c : Char) : Bool :=
  isBlank c && !(28 ≤ c.toNat && c.toNat ≤ 31)

/-- Takes the sign off a numeral, and says whether it is a minus. -/
def unsigned : List Char → Bool × List Char
  | '+' :: rest => (false, rest)
  | '-' :: rest => (true, rest)
  | cs => (false, cs)

/-- Whether a character can stand within a numeral. -/
def isInner (c : Char) : Bool :=
  c == '_' || (digitValue? c).isSome

/-- Why a text is not read. -/
inductive Misread where
  /-- It is no numeral. -/
  | malformed
  /-- It starts with a numeral of too many digits. -/
  | tooLong (digits : Nat)
  deriving DecidableEq, Inhabited, Repr

/-- Reads a numeral that is not too long; zeros in front count. That it is too long is told before
anything behind it is looked at. -/
def read (s : String) : Except Misread Int :=
  let (isNegative, cs) := unsigned (s.toList.dropWhile isMargin)
  match digits? (cs.takeWhile isInner) with
  | none => .error .malformed
  | some ds =>
    if maxDigits < ds.length then .error (.tooLong ds.length)
    else if !(cs.dropWhile isInner).all isMargin then .error .malformed
    else .ok (if isNegative then -Int.ofNat (ofDigits ds) else Int.ofNat (ofDigits ds))

def read? (s : String) : Option Int :=
  (read s).toOption

end ForkJoin.Text.Numeral

/-!
# Fractional numbers as decimals

A fractional number is held in binary and written in decimal. The digits written are the fewest
that read back as the same number, and of the decimals with so few digits the nearest to it; of two
that are equally near the even one. The search compares whole numbers only, so it is exact.

A decimal is written positionally while its point stays near its digits, else with an exponent.
-/

namespace ForkJoin

/-- A finite number without its sign, worth `mantissa * 2 ^ exponent`. -/
structure Binary where
  mantissa : Nat
  exponent : Int
  /-- Whether the next number below is only half as far away as the next one above. -/
  narrow : Bool
  deriving DecidableEq, Inhabited, Repr

/-- A number written in decimal, worth `digits * 10 ^ exponent`. -/
structure Decimal where
  digits : Nat
  exponent : Int
  deriving DecidableEq, Inhabited, Repr

/-- Compares `a * 10 ^ i` with `n * 2 ^ j`. -/
def Decimal.compareScaled (a : Nat) (i : Int) (n : Nat) (j : Int) : Ordering :=
  compare (a * Nat.pow 10 i.toNat * Nat.pow 2 (-j).toNat)
    (n * Nat.pow 2 j.toNat * Nat.pow 10 (-i).toNat)

namespace Binary

/-- The number that a pattern of bits stands for when it is finite. -/
def ofBits (bits : UInt64) : Binary :=
  let scale := ((bits >>> 52) &&& 0x7ff).toNat
  let fraction := (bits &&& 0xfffffffffffff).toNat
  if scale = 0 then ⟨fraction, -1074, false⟩
  else ⟨Nat.pow 2 52 + fraction, (scale : Int) - 1075, fraction == 0 && scale > 1⟩

/-- Whether a decimal reads back as the number: it lies between the two points halfway to the
neighbours, and such a point itself belongs to the number with the even mantissa. -/
def readsBack (x : Binary) (d : Decimal) : Bool :=
  let low := if x.narrow then 4 * x.mantissa - 1 else 4 * x.mantissa - 2
  let high := 4 * x.mantissa + 2
  let isEven := x.mantissa % 2 == 0
  let fromLow := Decimal.compareScaled d.digits d.exponent low (x.exponent - 2)
  let fromHigh := Decimal.compareScaled d.digits d.exponent high (x.exponent - 2)
  (fromLow == .gt || (isEven && fromLow == .eq)) && (fromHigh == .lt || (isEven && fromHigh == .eq))

/-- The least power of ten above a number that is not zero, found from its power of two. -/
def magnitude (x : Binary) : Int :=
  let guess := ((x.mantissa.log2 : Int) + x.exponent) * 30103 / 100000
  let isAbove (k : Int) := Decimal.compareScaled 1 k x.mantissa x.exponent == .gt
  ([guess - 1, guess, guess + 1, guess + 2].find? isAbove).getD (guess + 3)

/-- How often `10 ^ k` goes into a number. -/
def quotient (x : Binary) (k : Int) : Nat :=
  (x.mantissa * Nat.pow 2 x.exponent.toNat * Nat.pow 10 (-k).toNat) /
    (Nat.pow 10 k.toNat * Nat.pow 2 (-x.exponent).toNat)

/-- Of the multiples of `10 ^ k` next to a number, the nearest that reads back as it. -/
def onGrid (x : Binary) (k : Int) : Option Decimal :=
  let low : Decimal := ⟨x.quotient k, k⟩
  let high : Decimal := ⟨x.quotient k + 1, k⟩
  match x.readsBack low, x.readsBack high with
  | true, true =>
    match Decimal.compareScaled (2 * low.digits + 1) k (2 * x.mantissa) x.exponent with
    | .gt => some low
    | .lt => some high
    | .eq => some (if low.digits % 2 = 0 then low else high)
  | true, false => some low
  | false, true => some high
  | false, false => none

def toDecimal (x : Binary) : Decimal :=
  if 0 ≤ x.exponent then ⟨x.mantissa * Nat.pow 2 x.exponent.toNat, 0⟩
  else ⟨x.mantissa * Nat.pow 5 (-x.exponent).toNat, x.exponent⟩

/-- The decimal with the fewest digits that reads back as a number that is not zero. Seventeen
digits are enough. -/
def shortest (x : Binary) : Decimal :=
  let top := x.magnitude
  ((List.range 17).findSome? fun n => x.onGrid (top - (n + 1 : Nat))).getD x.toDecimal

/-- What a number is worth, as a quotient. -/
def worth (x : Binary) : Nat × Nat :=
  (x.mantissa * Nat.pow 2 x.exponent.toNat, Nat.pow 2 (-x.exponent).toNat)

end Binary

namespace Decimal

/-- A decimal as text, from its digits without zeros at their end and the power of ten of the last
of them. The point is written while it stands at most three zeros before the digits and at most
sixteen places behind the first; an exponent has a sign and at least two digits. -/
def layout (digits : List Char) (exponent : Int) : String :=
  let count : Int := digits.length
  let point := count + exponent
  let zeros (n : Int) := List.replicate n.toNat '0'
  if -4 < point ∧ point ≤ 16 then
    if point ≤ 0 then "0." ++ String.ofList (zeros (-point) ++ digits)
    else if count ≤ point then String.ofList (digits ++ zeros (point - count)) ++ ".0"
    else
      String.ofList (digits.take point.toNat) ++ "." ++ String.ofList (digits.drop point.toNat)
  else
    let scale := point - 1
    let magnitude := toString scale.natAbs
    let tail := if digits.length ≤ 1 then "" else "." ++ String.ofList (digits.drop 1)
    String.ofList (digits.take 1) ++ tail ++ (if scale < 0 then "e-" else "e+") ++
      (if magnitude.length < 2 then "0" ++ magnitude else magnitude)

def text (d : Decimal) : String :=
  if d.digits = 0 then "0.0"
  else
    let all := (toString d.digits).toList
    let kept := (all.reverse.dropWhile (· == '0')).reverse
    layout kept (d.exponent + (all.length - kept.length : Nat))

end Decimal

/-! ### Numbers with signs -/

/-- Whether a number has the negative sign, which zero may have too. -/
def isNegative (x : Float) : Bool :=
  x.toBits >>> 63 == 1

/-- What a fractional number is worth, as a quotient; the infinite ones and what is no number are
worth nothing. -/
def fractionWorth? (x : Float) : Option (Int × Nat) :=
  if x.isFinite then
    let (numerator, denominator) := (Binary.ofBits x.toBits).worth
    some (if isNegative x then -(numerator : Int) else numerator, denominator)
  else none

def fractionText (x : Float) : String :=
  if x.isNaN then "nan"
  else
    let magnitude :=
      if x.isInf then "inf"
      else
        let b := Binary.ofBits x.toBits
        if b.mantissa = 0 then "0.0" else b.shortest.text
    if isNegative x then "-" ++ magnitude else magnitude

/-- The fractional number nearest to an integer, unless the integer lies beyond them all. -/
def nearestFraction? (n : Int) : Option Float :=
  let x := Float.ofScientific n.natAbs false 0
  if x.isInf then none else some (if n < 0 then -x else x)

end ForkJoin

/-!
# Numbers as binary fractions

A finite number is a sign and a magnitude, a whole number times a power of two.
Rounding, the test for a whole number and the remainder of a division are
computed exactly on magnitudes.
-/
namespace Spreadsheet.Number

/-- The magnitude `mantissa * 2 ^ exponent`. -/
structure Magnitude where
  mantissa : Nat
  exponent : Int
  /-- The gap to the number below is half the gap to the number above. -/
  narrowBelow : Bool
deriving Repr

namespace Magnitude

def ofFloat (x : Float) : Magnitude :=
  let biased := ((x.toBits >>> 52) &&& 0x7FF).toNat
  let fraction := (x.toBits &&& 0xFFFFFFFFFFFFF).toNat
  if biased = 0 then ⟨fraction, -1074, false⟩
  else ⟨0x10000000000000 + fraction, (biased : Int) - 1075, fraction == 0 && biased != 1⟩

def ratio (a : Magnitude) : Nat × Nat :=
  (a.mantissa <<< a.exponent.toNat, 1 <<< (-a.exponent).toNat)

end Magnitude

def isNegative (x : Float) : Bool := x.toBits >>> 63 == 1

/-- A number with the given sign and the magnitude of another. -/
def withSign (negative : Bool) (x : Float) : Float := if negative then -x.abs else x.abs

/-- The number `mantissa * 2 ^ exponent`, exact if there is such a number. -/
def ofBinary (mantissa : Nat) (exponent : Int) : Float :=
  if exponent < 0 then
    Float.ofScientific (mantissa * Nat.pow 5 exponent.natAbs) true exponent.natAbs
  else Float.ofNat (mantissa <<< exponent.natAbs)

/-- Whether a finite number has no fractional part. -/
def isWhole (x : Float) : Bool :=
  let (num, den) := (Magnitude.ofFloat x).ratio
  num % den == 0

/-- The largest whole number that is not greater; what is not finite stays. -/
def floor (x : Float) : Float :=
  if !x.isFinite || isWhole x then x
  else
    let (num, den) := (Magnitude.ofFloat x).ratio
    if isNegative x then -Float.ofNat (num / den + 1) else Float.ofNat (num / den)

/-- The smallest whole number that is not less; what is not finite stays. -/
def ceiling (x : Float) : Float := -floor (-x)

/-- A number without its fractional part; what is not finite stays. -/
def truncate (x : Float) : Float := if isNegative x then ceiling x else floor x

/-- The fractional part of a number. -/
def fraction (x : Float) : Float := x - truncate x

/-- The nearest whole number, of two the one with the larger magnitude; what is not finite
stays. -/
def round (x : Float) : Float :=
  if !x.isFinite || isWhole x then x
  else
    let (num, den) := (Magnitude.ofFloat x).ratio
    withSign (isNegative x) (Float.ofNat ((2 * num + den) / (2 * den)))

/-- The remainder of a division whose quotient is rounded toward zero. -/
def remainder (x y : Float) : Float :=
  if !x.isFinite || y.isNaN || y == 0 then 0 / 0
  else if y.isInf then x
  else
    let a := Magnitude.ofFloat x
    let b := Magnitude.ofFloat y
    let low := min a.exponent b.exponent
    let rest :=
      (a.mantissa <<< (a.exponent - low).toNat) % (b.mantissa <<< (b.exponent - low).toNat)
    withSign (isNegative x) (ofBinary rest low)

end Spreadsheet.Number

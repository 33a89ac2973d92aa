import Spreadsheet.Number.Binary
import Spreadsheet.Text.Decimal

/-!
# The shortest decimal of a number

A positive number stands for the interval of reals that round to it, whose ends
belong to it exactly if its mantissa is even. Its shortest decimal is the one of
fewest digits in that interval, the nearest of those, and the larger of two
that are equally near. The digits are found by exact comparisons, one grid of
powers of ten after the other.
-/
namespace Spreadsheet.Number

/-- The decimal `digits * 10 ^ exponent`. -/
structure Scientific where
  digits : Nat
  exponent : Int
deriving DecidableEq, Repr

namespace Scientific

def ratio (d : Scientific) : Nat × Nat :=
  (d.digits * Nat.pow 10 d.exponent.toNat, Nat.pow 10 (-d.exponent).toNat)

/-- The exponent of the leading digit. -/
def leading (d : Scientific) : Int := d.exponent + Text.Decimal.size d.digits - 1

/-- Moves zeros at the end of the digits into the exponent. -/
def strip : Nat → Scientific → Scientific
  | 0, d => d
  | bound + 1, d =>
    if d.digits ≠ 0 ∧ d.digits % 10 = 0 then strip bound ⟨d.digits / 10, d.exponent + 1⟩ else d

end Scientific

/-- Whether a decimal lies in the interval of the reals that round to a magnitude. -/
def Magnitude.standsFor (a : Magnitude) (d : Scientific) : Bool :=
  let (num, den) := d.ratio
  let below : Magnitude := ⟨4 * a.mantissa - (if a.narrowBelow then 1 else 2), a.exponent - 2, false⟩
  let above : Magnitude := ⟨4 * a.mantissa + 2, a.exponent - 2, false⟩
  let (lowNum, lowDen) := below.ratio
  let (highNum, highDen) := above.ratio
  if a.mantissa % 2 = 0 then lowNum * den ≤ num * lowDen && num * highDen ≤ highNum * den
  else lowNum * den < num * lowDen && num * highDen < highNum * den

/-- The decimal on the grid of a power of ten that stands for a magnitude, the nearer of two. -/
def Magnitude.onGrid (a : Magnitude) (exponent : Int) : Option Scientific :=
  let (num, den) := a.ratio
  let num := num * Nat.pow 10 (-exponent).toNat
  let den := den * Nat.pow 10 exponent.toNat
  let lower : Scientific := ⟨num / den, exponent⟩
  let upper : Scientific := ⟨num / den + 1, exponent⟩
  match a.standsFor lower, a.standsFor upper with
  | true, true => some (if 2 * (num % den) < den then lower else upper)
  | true, false => some lower
  | false, true => some upper
  | false, false => none

/-- The least power of ten above a positive magnitude. -/
def Magnitude.scale (a : Magnitude) : Int :=
  let (num, den) := a.ratio
  let size := Text.Decimal.size (num / den)
  if den ≤ num then size
  else
    let inverse := (Text.Decimal.size (den / num) : Int)
    if den ≤ num * Nat.pow 10 (inverse.toNat - 1) then 2 - inverse else 1 - inverse

def Magnitude.shortest (a : Magnitude) : Scientific :=
  let found := (List.range 17).findSome? fun (i : Nat) => a.onGrid (a.scale - 1 - i)
  let exact : Scientific :=
    ⟨a.mantissa * Nat.pow 2 a.exponent.toNat * Nat.pow 5 (-a.exponent).toNat, min a.exponent 0⟩
  (found.getD exact).strip 400

end Spreadsheet.Number

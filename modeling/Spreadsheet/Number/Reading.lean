import Spreadsheet.Text.Blank
import Spreadsheet.Text.Decimal

/-!
# Numbers read from text

A number is written as an optional sign and either digits, with a point and an
exponent if wanted, or one of the words for infinity and for what is not a
number. At least one digit stands beside the point. The number read is the
nearest one to the decimal written.
-/
namespace Spreadsheet.Number
open Text

/-- The nearest number to `digits * 10 ^ exponent`, infinite if that is too large. -/
def nearest (digits : Nat) (exponent : Int) : Float :=
  let reach := exponent + Decimal.size digits
  if digits = 0 || reach < -330 then 0
  else if 310 < reach then 1 / 0
  else Float.ofScientific digits (decide (exponent < 0)) exponent.natAbs

/-- Reads an exponent, an optional sign and digits. -/
def exponent? (cs : List Char) : Option Int :=
  let (negative, digits) := match cs with
    | '-' :: rest => (true, rest)
    | '+' :: rest => (false, rest)
    | _ => (false, cs)
  if Decimal.isNatural digits then
    some (if negative then -(Decimal.value digits : Int) else Decimal.value digits)
  else none

/-- Reads digits with an optional point and an optional exponent. -/
def unsigned? (cs : List Char) : Option Float :=
  let whole := cs.takeWhile Char.isDigit
  let rest := cs.dropWhile Char.isDigit
  let (fraction, rest) := match rest with
    | '.' :: rest => (rest.takeWhile Char.isDigit, rest.dropWhile Char.isDigit)
    | _ => ([], rest)
  let shift : Option Int := match rest with
    | [] => some 0
    | 'e' :: rest | 'E' :: rest => exponent? rest
    | _ => none
  if whole.isEmpty && fraction.isEmpty then none
  else shift.map fun n => nearest (Decimal.value (whole ++ fraction)) (n - fraction.length)

/-- Reads an infinity or what is not a number, in letters of either case. -/
def special? (cs : List Char) : Option Float :=
  if ["inf".toList, "infinity".toList].any (sameIgnoringCase cs) then some (1 / 0)
  else if sameIgnoringCase cs "nan".toList then some (0 / 0)
  else none

/-- Reads a number; the text holds nothing else, also no blanks. -/
def read? (cs : List Char) : Option Float :=
  let (negative, body) := match cs with
    | '-' :: rest => (true, rest)
    | '+' :: rest => (false, rest)
    | _ => (false, cs)
  let magnitude := (special? body).or (unsigned? body)
  if negative then magnitude.map fun x => -x else magnitude

theorem read?_nil : read? [] = none := rfl

end Spreadsheet.Number

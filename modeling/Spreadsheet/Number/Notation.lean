import Spreadsheet.Number.Shortest

/-!
# Numbers written as text

Two written forms. A cell shows a number with a set number of decimal places,
its exact value rounded to the nearest and a tie to the even digit. A number
joined to a text, or in a list that is joined to one, is written with its
shortest decimal, with a point and a digit after it, and with an exponent if it
is very large or very small.
-/
namespace Spreadsheet.Number
open Text

/-- The nearest whole number to a quotient; a tie goes to the even one. -/
def roundQuotient (num den : Nat) : Nat :=
  let quotient := num / den
  let twice := 2 * (num % den)
  if twice < den || (twice = den && quotient % 2 = 0) then quotient else quotient + 1

/-- Digits with a point before the last few of them, padded with zeros in front. -/
def placePoint (digits : List Char) (places : Nat) : List Char :=
  if places = 0 then digits
  else
    let padded := List.replicate (places + 1 - digits.length) '0' ++ digits
    padded.take (padded.length - places) ++ '.' :: padded.drop (padded.length - places)

def minus (x : Float) : List Char := if isNegative x then ['-'] else []

/-- A finite number with a set number of decimal places. -/
def fixed (places : Nat) (x : Float) : List Char :=
  let (num, den) := (Magnitude.ofFloat x).ratio
  minus x ++ placePoint (Decimal.digits (roundQuotient (num * Nat.pow 10 places) den)) places

/-- Whole numbers of a smaller magnitude are shown without decimal places. -/
def wholeLimit : Float := 10000000000

/-- A number as a cell shows it. -/
def display (places : Nat) (x : Float) : List Char :=
  if x.isNaN then "#NAN!".toList
  else if x.isInf then "#INF!".toList
  else if isWhole x && x.abs < wholeLimit then fixed 0 x
  else fixed places x

/-- A decimal without exponent, with at least one digit after the point. -/
def positional (d : Scientific) : List Char :=
  if d.exponent < 0 then placePoint (Decimal.digits d.digits) d.exponent.natAbs
  else Decimal.digits d.digits ++ List.replicate d.exponent.natAbs '0' ++ ['.', '0']

/-- A decimal with one digit before the point and an exponent. -/
def exponential (d : Scientific) : List Char :=
  let digits := Decimal.digits d.digits
  let sign := if d.leading < 0 then ['-'] else []
  placePoint digits (digits.length - 1) ++ 'e' :: sign ++ Decimal.digits d.leading.natAbs

/-- The magnitudes of the numbers that are written without an exponent, and whether a zero shows
its sign. -/
structure Layout where
  least : Float
  greatest : Float
  hasSignedZero : Bool

def Layout.write (l : Layout) (x : Float) : List Char :=
  if x.isNaN then "NaN".toList
  else if x.isInf then minus x ++ "inf".toList
  else if x == 0 then (if l.hasSignedZero then minus x else []) ++ "0.0".toList
  else
    let d := (Magnitude.ofFloat x).shortest
    minus x ++ if l.greatest < x.abs || x.abs < l.least then exponential d else positional d

/-- How a number is written that is joined to a text. -/
def joinedLayout : Layout := ⟨Float.ofBits 0x3D3C25C260000000, 9999999827968, false⟩

/-- How a number is written inside a list. -/
def listedLayout : Layout := ⟨0.0001, 9999999999999998, true⟩

def joined (x : Float) : List Char := joinedLayout.write x

def listed (x : Float) : List Char := listedLayout.write x

/-- A number without a fractional part, or an infinity, as it is reported. -/
def plain (x : Float) : List Char :=
  if x.isInf then minus x ++ "inf".toList
  else
    let d := (Magnitude.ofFloat x).shortest
    minus x ++ Decimal.digits d.digits ++ List.replicate d.exponent.toNat '0'

end Spreadsheet.Number

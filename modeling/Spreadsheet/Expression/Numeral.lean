import Spreadsheet.Expression.Datum
import Spreadsheet.Number.Reading
import Spreadsheet.Text.Radix

/-!
# Numerals of an expression

A numeral begins with a digit. It is a whole number if it is one of sixty-four
binary digits, and else the nearest number. Underscores in it count for nothing.
After a first zero a letter may tell the base two, eight or sixteen; such
numerals give the binary digits of a whole number, also of a negative one.
-/
namespace Spreadsheet.Expression
open Text

/-- The characters of a numeral after its first digit, and what follows the numeral. It is told
whether a point and whether an exponent may still come. -/
def splitDigits (hasPoint hasExponent : Bool) : List Char → List Char × List Char
  | [] => ([], [])
  | c :: rest =>
    if c.isDigit then
      let (digits, rest) := splitDigits hasPoint hasExponent rest
      (c :: digits, rest)
    else if c = '_' then splitDigits hasPoint hasExponent rest
    else if c = '.' ∧ hasPoint = false then
      match rest with
      | [] => ([], [c])
      | d :: after =>
        if d.isDigit then
          let (digits, rest) := splitDigits true hasExponent (d :: after)
          ('.' :: digits, rest)
        else if d = '_' || d = '.' || d.isAlpha then ([], c :: d :: after)
        else
          let (digits, rest) := splitDigits true hasExponent (d :: after)
          ('.' :: '0' :: digits, rest)
    else if (c = 'e' ∨ c = 'E') ∧ hasExponent = false then
      match rest with
      | [] => ([], [c])
      | d :: after =>
        if d.isDigit || d = '+' || d = '-' then
          let (digits, rest) := splitDigits true true after
          ('e' :: d :: digits, rest)
        else ([], c :: d :: after)
    else ([], c :: rest)

theorem length_splitDigits_le (hasPoint hasExponent : Bool) (cs : List Char) :
    (splitDigits hasPoint hasExponent cs).2.length ≤ cs.length := by
  fun_induction splitDigits hasPoint hasExponent cs <;> simp_all <;> omega

def wholeLimit : Nat := 9223372036854775807

/-- The number that a run of digits, points and exponents stands for, with its sign. -/
def decimalNumeral? (isNegative : Bool) (digits : List Char) : Option Datum :=
  let limit := if isNegative then wholeLimit + 1 else wholeLimit
  if Decimal.isNatural digits && Decimal.value digits ≤ limit then
    let n : Int := Decimal.value digits
    some (.whole (if isNegative then -n else n))
  else (Number.read? digits).map fun x => .number (if isNegative then -x else x)

def base? : Char → Option Nat
  | 'x' | 'X' => some 16
  | 'o' | 'O' => some 8
  | 'b' | 'B' => some 2
  | _ => none

/-- The base that is told after a first zero, and what follows it. -/
def splitBase? (cs : List Char) : Option (Nat × List Char) :=
  match cs.dropWhile (· == '_') with
  | [] => none
  | c :: rest => (base? c).map (·, rest)

/-- Whether a character belongs to a numeral of a base. -/
def isNumeralChar (base : Nat) (c : Char) : Bool := c == '_' || Radix.isDigitOf base c

/-- The whole number with the given binary digits, at most sixty-four. -/
def binaryNumeral? (base : Nat) (cs : List Char) : Option Datum :=
  let digits := cs.filter (· != '_')
  let n := Radix.value base digits
  if digits.isEmpty || UInt64.size ≤ n then none else some (.whole (BitVec.ofNat 64 n).toInt)

/-- Reads a numeral whose first digit is given. A base is told after no sign. -/
def readNumeral (isNegative : Bool) (c : Char) (cs : List Char) : Option (Datum × List Char) :=
  match if c = '0' then splitBase? cs else none with
  | some (base, rest) =>
    if isNegative then none
    else (binaryNumeral? base (rest.takeWhile (isNumeralChar base))).map
      (·, rest.dropWhile (isNumeralChar base))
  | none =>
    (decimalNumeral? isNegative (c :: (splitDigits false false cs).1)).map
      (·, (splitDigits false false cs).2)

theorem length_splitBase_le {base : Nat} {cs rest : List Char}
    (h : splitBase? cs = some (base, rest)) : rest.length ≤ cs.length := by
  unfold splitBase? at h
  split at h
  · cases h
  · rename_i c after hafter
    obtain ⟨_, _, he⟩ := Option.map_eq_some_iff.1 h
    cases he
    have hle := length_dropWhile_le (· == '_') cs
    rw [hafter] at hle
    exact Nat.le_of_succ_le hle

theorem length_readNumeral_le {isNegative : Bool} {c : Char} {d : Datum} {cs rest : List Char}
    (h : readNumeral isNegative c cs = some (d, rest)) : rest.length ≤ cs.length := by
  unfold readNumeral at h
  split at h
  · rename_i base after hbase
    split at h
    · cases h
    · obtain ⟨_, _, he⟩ := Option.map_eq_some_iff.1 h
      cases he
      split at hbase
      · exact Nat.le_trans (length_dropWhile_le _ after) (length_splitBase_le hbase)
      · cases hbase
  · obtain ⟨_, _, he⟩ := Option.map_eq_some_iff.1 h
    cases he
    exact length_splitDigits_le false false cs

end Spreadsheet.Expression

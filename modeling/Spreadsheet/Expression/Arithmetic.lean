import Spreadsheet.Expression.Failure
import Spreadsheet.Number.Binary

/-!
# Operators on data

What the operators make of their operands. Numbers are compared up to a relative
tolerance of one unit in the last place; texts by the order of their characters.
Data of different types are unequal and never in order. A text takes up what is
added to it, and loses every occurrence of what is subtracted from it. Whole
numbers have sixty-four binary digits, and a result that needs more is a failure.
-/
namespace Spreadsheet
open Text

inductive Comparison where
  | equal | unequal | less | atMost | greater | atLeast
deriving DecidableEq, Repr

namespace Comparison

def ofOperator? : Operator → Option Comparison
  | .equal => some equal
  | .unequal => some unequal
  | .less => some less
  | .atMost => some atMost
  | .greater => some greater
  | .atLeast => some atLeast
  | _ => none

/-- Whether a comparison holds between two things in the given order. -/
def holds (before same : Bool) : Comparison → Bool
  | equal => same
  | unequal => !same
  | less => before
  | atMost => before || same
  | greater => !before && !same
  | atLeast => !before

/-- The answer for data that cannot be compared. -/
def unlike : Comparison → Bool
  | unequal => true
  | _ => false

end Comparison

namespace Number

/-- The distance between one and the next number. -/
def tolerance : Float := 2.220446049250313e-16

/-- The larger of two numbers, or the one that is a number. -/
def larger (x y : Float) : Float :=
  if x.isNaN then y else if x < y then y else x

/-- The smaller of two numbers, or the one that is a number. -/
def smaller (x y : Float) : Float :=
  if x.isNaN then y else if y < x then y else x

/-- What a difference is compared with: the larger magnitude, or one beside a zero. -/
def comparisonScale (x y : Float) : Float :=
  if x * y == 0 then 1 else larger x.abs y.abs

/-- Compares two numbers up to the tolerance. -/
def compare (x y : Float) : Comparison → Bool :=
  let scale := comparisonScale x y
  if scale == 0 then fun
    | .equal | .atLeast | .atMost => true
    | .unequal | .greater | .less => false
  else fun
    | .equal => (x - y).abs / scale ≤ tolerance
    | .unequal => tolerance < (x - y).abs / scale
    | .greater => tolerance < (x - y) / scale
    | .atLeast => -tolerance < (x - y) / scale
    | .less => tolerance < (y - x) / scale
    | .atMost => -tolerance < (y - x) / scale

def combine? (x y : Float) : Operator → Option Float
  | .plus => some (x + y)
  | .minus => some (x - y)
  | .times => some (x * y)
  | .dividedBy => some (x / y)
  | .modulo => some (remainder x y)
  | .power => some (x.pow y)
  | _ => none

end Number

namespace Whole

def least : Int := -9223372036854775808

def greatest : Int := 9223372036854775807

/-- A result, unless it is out of range. -/
def checked (operator : Operator) (a b result : Int) : Except Failure Datum :=
  if least ≤ result ∧ result ≤ greatest then .ok (.whole result)
  else .error (.overflow operator a b)

/-- A whole number shifted by a number of binary places, to the right if that is negative. -/
def shifted (a places : Int) : Int :=
  if 0 ≤ places then if 63 < places then 0 else (a * (1 <<< places.toNat)).bmod UInt64.size
  else if places < -63 then if a < 0 then -1 else 0
  else Int.fdiv a (1 <<< (-places).toNat)

def bitwise (f : BitVec 64 → BitVec 64 → BitVec 64) (a b : Int) : Datum :=
  .whole (f (BitVec.ofInt 64 a) (BitVec.ofInt 64 b)).toInt

def power (a : Int) : Nat → Int
  | 0 => 1
  | n + 1 => a * power a n

/-- The largest exponent. -/
def exponentLimit : Int := 4294967295

/-- A power of whole numbers. An exponent past sixty-four can be exchanged for a smaller one of
the same parity: only powers of one, zero and minus one are in range for either. -/
def raised (a b : Int) : Except Failure Datum :=
  if b < 0 then .error (.negativePower a b)
  else if exponentLimit < b then .error (.overflow .power a b)
  else checked .power a b (power a (if 64 < b then 64 + b % 2 else b).toNat)

/-- The remainder of whole numbers, which the least number does not have for minus one. -/
def remainder (a b : Int) : Except Failure Datum :=
  if b = 0 ∨ (a = least ∧ b = -1) then .error (.noRemainder a b) else .ok (.whole (a.tmod b))

def combine? (a b : Int) : Operator → Option (Except Failure Datum)
  | .plus => some (checked .plus a b (a + b))
  | .minus => some (checked .minus a b (a - b))
  | .times => some (checked .times a b (a * b))
  | .dividedBy =>
    some (if b = 0 then .error (.divisionByZero a b) else checked .dividedBy a b (a.tdiv b))
  | .modulo => some (remainder a b)
  | .power => some (raised a b)
  | .range => some (.ok (.range a b false))
  | .rangeThrough => some (.ok (.range a b true))
  | .shiftLeft => some (.ok (.whole (shifted a b)))
  | .shiftRight => some (.ok (.whole (shifted a (-b))))
  | .bitAnd => some (.ok (bitwise (· &&& ·) a b))
  | .bitOr => some (.ok (bitwise (· ||| ·) a b))
  | .bitXor => some (.ok (bitwise (· ^^^ ·) a b))
  | _ => none

end Whole

namespace Text

/-- A text without the occurrences of another; an occurrence is skipped for a number of steps. -/
def removeFrom (part : List Char) : Nat → List Char → List Char
  | _, [] => []
  | 0, c :: cs =>
    if (dropLead? part (c :: cs)).isSome then removeFrom part (part.length - 1) cs
    else c :: removeFrom part 0 cs
  | skip + 1, _ :: cs => removeFrom part skip cs

/-- A text without the occurrences of another. Nothing is removed from an empty text or for one;
from an empty text the other remains. -/
def remove (cs part : List Char) : List Char :=
  if part.isEmpty then cs else if cs.isEmpty then part else removeFrom part 0 cs

def occurs (part : List Char) : List Char → Bool
  | [] => part.isEmpty
  | c :: cs => (dropLead? part (c :: cs)).isSome || occurs part cs

def precedes : List Char → List Char → Bool
  | _, [] => false
  | [], _ :: _ => true
  | c :: cs, d :: ds => if c = d then precedes cs ds else c.toNat < d.toNat

def compare (a b : List Char) : Comparison → Bool := Comparison.holds (precedes a b) (a == b)

end Text

namespace Datum

def toNumber? : Datum → Option Float
  | whole n => some (Float.ofInt n)
  | number x => some x
  | _ => none

def toText? : Datum → Option (List Char)
  | text s => some s.toList
  | glyph c => some [c]
  | _ => none

/-- Whether two data, also inside lists and records, are the same. -/
def same : Datum → Datum → Bool
  | list as, list bs => sameItems as bs
  | record fs, record gs => sameFields fs gs
  | range a b p, range c d q => a == c && b == d && p == q
  | unit, unit => true
  | truth a, truth b => a == b
  | whole a, whole b => a == b
  | whole a, number y => Number.compare (Float.ofInt a) y .equal
  | number x, whole b => Number.compare x (Float.ofInt b) .equal
  | number x, number y => Number.compare x y .equal
  | text s, text t => s == t
  | glyph c, glyph d => c == d
  | glyph c, text t => [c] == t.toList
  | text s, glyph d => s.toList == [d]
  | _, _ => false
where
  sameItems : List Datum → List Datum → Bool
    | [], [] => true
    | a :: as, b :: bs => same a b && sameItems as bs
    | _, _ => false
  sameFields : List (String × Datum) → List (String × Datum) → Bool
    | [], [] => true
    | (m, a) :: fs, (n, b) :: gs => m == n && same a b && sameFields fs gs
    | _, _ => false

/-- Compares two data by whether they are the same. -/
def compareSame? (a b : Datum) : Comparison → Option Bool
  | .equal => some (same a b)
  | .unequal => some (!same a b)
  | _ => none

/-- Compares two data that are not both texts or both numbers. -/
def compareOther? (a b : Datum) (c : Comparison) : Option Bool :=
  match a, b with
  | unit, unit => some (c == .equal)
  | truth p, truth q => some (c.holds (!p && q) (p == q))
  | list _, list _ | record _, record _ => compareSame? a b c
  | _, _ =>
    if a.type ≠ b.type then some c.unlike
    else if a.type = .range ∨ a.type = .rangeThrough then compareSame? a b c
    else none

/-- Compares two data; nothing for types that have no such comparison. -/
def compare? (a b : Datum) (c : Comparison) : Option Bool :=
  match a, b with
  | whole m, whole n => some (c.holds (decide (m < n)) (m == n))
  | _, _ =>
    match a.toNumber?, b.toNumber? with
    | some x, some y => some (Number.compare x y c)
    | _, _ =>
      match a.toText?, b.toText? with
      | some s, some t => some (Text.compare s t c)
      | _, _ => compareOther? a b c

/-- Adds something to a text, a text to something, or two lists or records; of two fields of one
name the second is kept. -/
def join? : Datum → Datum → Option Datum
  | glyph c, glyph d => some (.text (String.ofList [c, d]))
  | text s, glyph d => some (.text (String.ofList (s.toList ++ [d])))
  | glyph c, text t => some (.text (String.ofList (c :: t.toList)))
  | text s, d => some (.text (String.ofList (s.toList ++ d.printed)))
  | d, text t => some (.text (String.ofList (d.printed ++ t.toList)))
  | list as, list bs => some (.list (as ++ bs))
  | record fs, record gs => some (ofFields (fs ++ gs))
  | _, _ => none

def takeOut? : Datum → Datum → Option Datum
  | text s, text t => some (.text (String.ofList (Text.remove s.toList t.toList)))
  | text s, glyph d => some (.text (String.ofList (Text.remove s.toList [d])))
  | _, _ => none

def logical? (a b : Bool) : Operator → Option Bool
  | .bitAnd => some (a && b)
  | .bitOr => some (a || b)
  | .bitXor => some (a != b)
  | _ => none

/-- Whether a container holds a datum: a text a part of it, a list an item, a record the name of a
field, a range a whole number. -/
def contains? (container item : Datum) : Option Bool :=
  match container, item with
  | text s, _ => item.toText?.map fun part => Text.occurs part s.toList
  | list items, _ => some (items.any fun d => same d item)
  | record fields, text name => some (fieldValue? fields name).isSome
  | range first last isThrough, whole n =>
    some (decide (first ≤ n) && (decide (n < last) || (isThrough && n == last)))
  | _, _ => none

def unsupported (operator : Operator) (a b : Datum) : Except Failure Datum :=
  .error (.unsupported operator.symbol [a.type, b.type])

def orUnsupported (operator : Operator) (a b : Datum) : Option Datum → Except Failure Datum
  | some d => .ok d
  | none => unsupported operator a b

/-- The arithmetic of an operator on two data that are not compared. -/
def combine (operator : Operator) (a b : Datum) : Except Failure Datum :=
  match a, b with
  | truth p, truth q => orUnsupported operator a b ((logical? p q operator).map truth)
  | whole m, whole n =>
    match Whole.combine? m n operator with
    | some result => result
    | none => unsupported operator a b
  | _, _ =>
    match a.toNumber?, b.toNumber? with
    | some x, some y => orUnsupported operator a b ((Number.combine? x y operator).map number)
    | _, _ =>
      match operator with
      | .plus => orUnsupported operator a b (join? a b)
      | .minus => orUnsupported operator a b (takeOut? a b)
      | _ => unsupported operator a b

def apply (operator : Operator) (a b : Datum) : Except Failure Datum :=
  match operator with
  | .within =>
    match contains? b a with
    | some p => .ok (.truth p)
    | none => unsupported .within b a
  | .notWithin =>
    match contains? b a with
    | some p => .ok (.truth (!p))
    | none => unsupported .notWithin b a
  | _ =>
    match Comparison.ofOperator? operator with
    | some c => orUnsupported operator a b ((compare? a b c).map truth)
    | none => combine operator a b

def applySign (sign : Sign) (d : Datum) : Except Failure Datum :=
  match sign, d with
  | .minus, number x => .ok (.number (-x))
  | .minus, whole n =>
    if n = Whole.least then .error .negationOverflow else .ok (.whole (-n))
  | .plus, number x => .ok (.number x)
  | .plus, whole n => .ok (.whole n)
  | .negation, truth p => .ok (.truth (!p))
  | _, _ => .error (.unsupported sign.symbol [d.type])

end Datum

end Spreadsheet

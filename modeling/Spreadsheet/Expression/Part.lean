import Spreadsheet.Expression.Failure
import Spreadsheet.Number.Binary

/-!
# Parts of data

What can be asked of a datum: its properties by name, and its elements at an
index. A place in a text, a list or the binary digits of a whole number is
counted from the end if it is negative. A record has its fields as properties
and as elements; a field that it does not have is nothing.
-/
namespace Spreadsheet.Datum

def numberProperty? (x : Float) : String → Option Datum
  | "floor" => some (number (Number.floor x))
  | "ceiling" => some (number (Number.ceiling x))
  | "round" => some (number (Number.round x))
  | "int" => some (number (Number.truncate x))
  | "fraction" => some (number (Number.fraction x))
  | "is_nan" => some (truth x.isNaN)
  | "is_finite" => some (truth x.isFinite)
  | "is_infinite" => some (truth x.isInf)
  | "is_zero" => some (truth (x == 0))
  | _ => none

def wholeProperty? (n : Int) : String → Option Datum
  | "is_zero" => some (truth (n == 0))
  | "is_odd" => some (truth (n % 2 == 1))
  | "is_even" => some (truth (n % 2 == 0))
  | "bits" => some bits
  | _ => none

def textProperty? (s : String) : String → Option Datum
  | "len" => some (whole s.length)
  | "bytes" => some (whole s.utf8ByteSize)
  | "is_empty" => some (truth s.isEmpty)
  | "chars" => some glyphs
  | _ => none

def listProperty? (items : List Datum) : String → Option Datum
  | "len" => some (whole items.length)
  | "is_empty" => some (truth items.isEmpty)
  | _ => none

def rangeProperty? (first last : Int) (isThrough : Bool) : String → Option Datum
  | "start" => some (whole first)
  | "end" => some (whole last)
  | "is_inclusive" => some (truth isThrough)
  | "is_exclusive" => some (truth !isThrough)
  | "is_empty" => some (truth (if isThrough then decide (last < first) else decide (last ≤ first)))
  | _ => none

/-- A property that data of one type have. -/
def ownProperty? (d : Datum) (name : String) : Option Datum :=
  match d with
  | number x => numberProperty? x name
  | whole n => wholeProperty? n name
  | text s => textProperty? s name
  | list items => listProperty? items name
  | range first last isThrough => rangeProperty? first last isThrough name
  | function => if name = "is_anonymous" then some (truth true) else none
  | _ => none

/-- A property of a datum. Every datum but a record has a tag, which is zero. -/
def property (name : String) (d : Datum) : Except Failure Datum :=
  match d with
  | record fields => .ok ((fieldValue? fields name).getD unit)
  | d =>
    match if name = "tag" then some (whole 0) else d.ownProperty? name with
    | some e => .ok e
    | none => .error (.unknownProperty name d.type)

/-- The place that an index means in a row of the given size, counted from the end if negative. -/
def place? (size : Nat) (index : Int) : Option Nat :=
  let place := if index < 0 then index + size else index
  if 0 ≤ place ∧ place < size then some place.toNat else none

/-- How many binary digits a whole number has. -/
def bitCount : Nat := 64

/-- The binary digit at a place of a whole number. -/
def digitAt (m n : Int) : Except Failure Datum :=
  match place? bitCount n with
  | some i => .ok (.truth ((BitVec.ofInt bitCount m).getLsbD i))
  | none => .error (.outsideBits n)

/-- Whether a number is the place of a binary digit, counted from the first. -/
def isBitPlace (n : Int) : Bool := decide (0 ≤ n) && decide (n < bitCount)

/-- The whole number that the binary digits at a range of places make; the last place of all has
the sign. -/
def digitsIn (m first last : Int) (isThrough : Bool) : Except Failure Datum :=
  if !isBitPlace first then .error (.outsideBits first)
  else if !isBitPlace last then .error (.outsideBits last)
  else
    let count := ((if isThrough then last + 1 else last) - first).toNat
    let mask := BitVec.ofNat bitCount (Nat.pow 2 count - 1) <<< first.toNat
    .ok (.whole ((BitVec.ofInt bitCount m &&& mask).sshiftRight first.toNat).toInt)

def element (base index : Datum) : Except Failure Datum :=
  match base, index with
  | text s, whole n =>
    match (place? s.length n).bind fun i => s.toList[i]? with
    | some c => .ok (.glyph c)
    | none => .error (.outsideText n s.length)
  | list items, whole n =>
    match (place? items.length n).bind fun i => items[i]? with
    | some d => .ok d
    | none => .error (.outsideList n items.length)
  | whole m, whole n => digitAt m n
  | whole m, range first last isThrough => digitsIn m first last isThrough
  | record fields, text name => .ok ((fieldValue? fields name).getD unit)
  | text _, d | list _, d | whole _, d => .error (.mismatch d.type .whole)
  | record _, d => .error (.mismatch d.type .text)
  | _, _ => .error (.notIndexable base.type index.type)

end Spreadsheet.Datum

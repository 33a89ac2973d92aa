import Spreadsheet.Expression.Arithmetic
import Spreadsheet.Expression.Library
import Spreadsheet.Expression.Part
import Spreadsheet.Formula.Builtin
import Spreadsheet.Number.Reading

/-!
# A library of functions

Common functions of numbers, texts, lists and records, as a library that
expressions can be given. Each is for arguments of set types; a property of a
number, text or list is also a function of it. A function that changes its
argument gives nothing, and since an argument is a copy, the change is lost.
None of them looks up a name or depends on the occasion. Numbers are drawn by
mixing a seed with the occasion.
-/
namespace Spreadsheet

namespace StandardLibrary
open Text

def ofNumber? (x : Float) : String → Option Datum
  | "sin" => some (.number x.sin)
  | "cos" => some (.number x.cos)
  | "tan" => some (.number x.tan)
  | "asin" => some (.number x.asin)
  | "acos" => some (.number x.acos)
  | "atan" => some (.number x.atan)
  | "sinh" => some (.number x.sinh)
  | "cosh" => some (.number x.cosh)
  | "tanh" => some (.number x.tanh)
  | "asinh" => some (.number x.asinh)
  | "acosh" => some (.number x.acosh)
  | "atanh" => some (.number x.atanh)
  | "sqrt" => some (.number x.sqrt)
  | "exp" => some (.number x.exp)
  | "ln" => some (.number x.log)
  | "log" => some (.number x.log10)
  | "abs" => some (.number x.abs)
  | "to_degrees" => some (.number (x * (180 / Constant.pi.value)))
  | "to_radians" => some (.number (x * (Constant.pi.value / 180)))
  | _ => none

/-- The binary digits of a whole number, written in a base. -/
def inBase (base : Nat) (n : Int) : Datum :=
  .text (String.ofList (Nat.toDigits base (BitVec.ofInt Datum.bitCount n).toNat))

def ofWhole? (n : Int) : String → Option Datum
  | "abs" => if n = Whole.least then none else some (.whole n.natAbs)
  | "sign" => some (.whole n.sign)
  | "to_float" => some (.number (Float.ofInt n))
  | "to_binary" => some (inBase 2 n)
  | "to_octal" => some (inBase 8 n)
  | "to_hex" => some (inBase 16 n)
  | _ => none

/-- A list of texts. -/
def texts (parts : List (List Char)) : Datum := .list (parts.map fun cs => .text (String.ofList cs))

/-- An item that may not be there. -/
def orUnit (d : Option Datum) : Datum := d.getD .unit

def ofText? (s : String) : String → Option Datum
  | "to_upper" => some (.text (s.map Char.toUpper))
  | "to_lower" => some (.text (s.map Char.toLower))
  | "to_chars" => some (.list (s.toList.map .glyph))
  | "split" => some (texts (words s.toList))
  | "pop" => some (orUnit (s.toList.getLast?.map .glyph))
  | "trim" | "clear" | "make_upper" | "make_lower" => some .unit
  | _ => none

def ofList? (items : List Datum) : String → Option Datum
  | "pop" => some (orUnit items.getLast?)
  | "shift" => some (orUnit items.head?)
  | "clear" | "reverse" | "dedup" => some .unit
  | _ => none

def ofRecord? (fields : List (String × Datum)) : String → Option Datum
  | "len" => some (.whole fields.length)
  | "is_empty" => some (.truth fields.isEmpty)
  | "keys" => some (.list (fields.map fun field => .text field.1))
  | "values" => some (.list (fields.map fun field => field.2))
  | "clear" => some .unit
  | _ => none

def ofNumbers? (x y : Float) : String → Option Datum
  | "min" => some (.number (Number.smaller x y))
  | "max" => some (.number (Number.larger x y))
  | "atan" => some (.number (Float.atan2 x y))
  | "log" => some (.number (x.log / y.log))
  | "hypot" => some (.number (x * x + y * y).sqrt)
  | _ => none

def ofWholes? (m n : Int) : String → Option Datum
  | "min" => some (.whole (min m n))
  | "max" => some (.whole (max m n))
  | _ => none

/-- The place of a text in another one. -/
def placeOf? (part : List Char) : List Char → Option Nat
  | [] => if part.isEmpty then some 0 else none
  | c :: cs =>
    if (dropLead? part (c :: cs)).isSome then some 0 else (placeOf? part cs).map (· + 1)

/-- A whole number for a place, one below zero for none. -/
def placeNumber : Option Nat → Datum
  | some i => .whole i
  | none => .whole (-1)

/-- The pieces between the occurrences of a separator; an occurrence is skipped for a number of
steps. -/
def piecesFrom (separator : List Char) : Nat → List Char → List (List Char)
  | _, [] => [[]]
  | skip + 1, _ :: cs => piecesFrom separator skip cs
  | 0, c :: cs =>
    if (dropLead? separator (c :: cs)).isSome then
      [] :: piecesFrom separator (separator.length - 1) cs
    else
      match piecesFrom separator 0 cs with
      | [] => [[c]]
      | piece :: rest => (c :: piece) :: rest

/-- The pieces between the occurrences of a separator; an empty one stands around each character. -/
def pieces (separator cs : List Char) : List (List Char) :=
  if separator.isEmpty then [] :: cs.map (fun c => [c]) ++ [[]] else piecesFrom separator 0 cs

def ofTexts? (whole part : List Char) : String → Option Datum
  | "starts_with" => some (.truth (dropLead? part whole).isSome)
  | "ends_with" => some (.truth (dropLead? part.reverse whole.reverse).isSome)
  | "index_of" => some (placeNumber (placeOf? part whole))
  | "split" => some (texts (pieces part whole))
  | "append" | "remove" => some .unit
  | _ => none

/-- The smaller or larger of two texts or of two characters. -/
def extreme? (a b : Datum) (s t : List Char) : String → Option Datum
  | "min" => some (if precedes t s then b else a)
  | "max" => some (if precedes s t then b else a)
  | _ => none

/-- The characters of a text from a place on, at most the given number. -/
def subText (s : String) (first count : Int) : Datum :=
  let start := if first < 0 then (first + s.length).toNat else first.toNat
  .text (String.ofList ((s.toList.drop start).take count.toNat))

/-- The characters of a text in a range of places. -/
def subTextIn (s : String) (first last : Int) (isThrough : Bool) : Datum :=
  let start := max first 0
  subText s start ((if isThrough then last + 1 else last) - start)

def ofListAnd? (items : List Datum) (d : Datum) : String → Option Datum
  | "index_of" => some (placeNumber (items.findIdx? fun e => Datum.same e d))
  | "push" => some .unit
  | "append" => match d with
    | .list _ => some .unit
    | _ => none
  | _ => none

def ofRecordAnd? (fields : List (String × Datum)) (name : String) : String → Option Datum
  | "get" | "remove" => some (orUnit (fieldValue? fields name))
  | _ => none

def ofAny? (d : Datum) : String → Option Datum
  | "type_of" => some (.text d.type.ownerName)
  | "to_string" => some (.text (String.ofList d.printed))
  | "to_debug" => some (.text (String.ofList d.listed))
  | "is_shared" => some (.truth false)
  | "print" | "debug" => some .unit
  | _ => none

/-- A function of one datum of a type that it is for. -/
def ofOne? (d : Datum) (name : String) : Option Datum :=
  match d with
  | .number x => ofNumber? x name
  | .whole n => ofWhole? n name
  | .text s => ofText? s name
  | .list items => ofList? items name
  | .record fields => ofRecord? fields name
  | _ => none

/-- A whole number for the sign of a number. -/
def signOf (x : Float) : Except Failure Datum :=
  if x.isNaN then .error .noSign else .ok (.whole (if x == 0 then 0 else if x < 0 then -1 else 1))

/-- A number beyond which there are no whole numbers. -/
def wholeRange : Float := 9223372036854775808

/-- The whole number for a number without its fractional part, zero for what is not a number. -/
def toWhole (x : Float) : Except Failure Datum :=
  if wholeRange < x.abs then .error (.noWhole x) else .ok (.whole x.toInt64.toInt)

/-- The whole number that a text reads as, between blanks. -/
def readWhole (s : String) : Except Failure Datum :=
  let body := trim s.toList
  let (isNegative, digits) := match body with
    | '-' :: rest => (true, rest)
    | '+' :: rest => (false, rest)
    | _ => (false, body)
  let n : Int := if isNegative then -(Decimal.value digits : Int) else Decimal.value digits
  if body.isEmpty then .error (.unreadable s .emptyWhole)
  else if !Decimal.isNatural digits then .error (.unreadable s .noWhole)
  else if n < Whole.least then .error (.unreadable s .wholeTooSmall)
  else if Whole.greatest < n then .error (.unreadable s .wholeTooLarge)
  else .ok (.whole n)

/-- The number that a text reads as, between blanks. -/
def readNumber (s : String) : Except Failure Datum :=
  let body := trim s.toList
  match Number.read? body with
  | some x => .ok (.number x)
  | none => .error (.unreadable s (if body.isEmpty then .emptyNumber else .noNumber))

def callOne? (name : String) (d : Datum) : Option (Except Failure Datum) :=
  match name, d with
  | "to_int", .number x => some (toWhole x)
  | "sign", .number x => some (signOf x)
  | "parse_int", .text s => some (readWhole s)
  | "parse_float", .text s => some (readNumber s)
  | "Fn", .text _ | "Fn", .function | "curry", .function => some (.ok .function)
  | "Fn", d => some (.error (.mismatch d.type .text))
  | "call", .function => none
  | "curry", d | "call", d => some (.error (.mismatch d.type .function))
  | _, _ => (((ofAny? d name).or (d.ownProperty? name)).or (ofOne? d name)).map .ok

/-- Whether a function is defined by an expression, which none is. -/
def isDefined (a b : Datum) : Except Failure Datum :=
  match a, b with
  | .text _, .whole _ => .ok (.truth false)
  | .text _, d => .error (.mismatch d.type .whole)
  | d, _ => .error (.mismatch d.type .text)

/-- A function of two arguments of types that it is for. -/
def ofTwo? (name : String) (a b : Datum) : Option Datum :=
  match a, b with
  | .whole m, .whole n => ofWholes? m n name
  | .list items, d => ofListAnd? items d name
  | .record fields, .text field => ofRecordAnd? fields field name
  | .record _, .record _ => if name = "mixin" ∨ name = "fill_with" then some .unit else none
  | .text s, .whole n => if name = "sub_string" then some (subText s n s.length) else none
  | .text s, .range first last isThrough =>
    if name = "sub_string" then some (subTextIn s first last isThrough) else none
  | .text s, .text t => (extreme? a b s.toList t.toList name).or (ofTexts? s.toList t.toList name)
  | .text s, .glyph c => ofTexts? s.toList [c] name
  | .text _, _ => if name = "append" then some .unit else none
  | .glyph c, .glyph e => extreme? a b [c] [e] name
  | a, b =>
    match a.toNumber?, b.toNumber? with
    | some x, some y => ofNumbers? x y name
    | _, _ => none

def callTwo? (name : String) (a b : Datum) : Option (Except Failure Datum) :=
  match name with
  | "contains" => (a.contains? b).map fun p => .ok (.truth p)
  | "is_def_fn" => some (isDefined a b)
  | name => (ofTwo? name a b).map .ok

def callThree? (name : String) (a b c : Datum) : Option (Except Failure Datum) :=
  match name, a, b, c with
  | "sub_string", .text s, .whole first, .whole count => some (.ok (subText s first count))
  | "replace", .text _, .text _, .text _ => some (.ok .unit)
  | _, _, _, _ => none

def callNone? : String → Option (Except Failure Datum)
  | "PI" => some (.ok (.number Constant.pi.value))
  | "E" => some (.ok (.number Constant.euler.value))
  | _ => none

/-- What a function of the library makes of its arguments; nothing if it is not for them. -/
def call? (name : String) (arguments : List Datum) : Option (Except Failure Datum) :=
  match arguments with
  | [] => callNone? name
  | [d] => callOne? name d
  | [a, b] => callTwo? name a b
  | [a, b, c] => callThree? name a b c
  | _ => none

/-! ## Draws -/

/-- A word in which a seed and an occasion are mixed. -/
def mixed (seed : UInt64) : Occasion → UInt64
  | .start => seed
  | .stage within index => mixHash (mixed seed within) (UInt64.ofNat index)
  | .cell within p => mixHash (mixHash (mixed seed within) p.row) p.col

/-- How many numbers between zero and one are drawn from. -/
def drawCount : Nat := 9007199254740992

/-- The numbers that are drawn with a seed, another one on each occasion. -/
def drawFrom (seed : UInt64) (ω : Occasion) : Float :=
  Float.ofNat ((mixed seed ω).toNat % drawCount) / Float.ofNat drawCount

end StandardLibrary

/-- The common functions, with a source of draws. -/
@[reducible]
def Library.standard (draw : Occasion → Float) : Library where
  levelLimit := 64
  draw := draw
  call _ _ name arguments := (StandardLibrary.call? name arguments).map orFailed
  lookedUp := []

namespace StandardLibrary

/-- The functions with the draws of one seed. -/
scoped instance : Library := Library.standard (drawFrom 0)

end StandardLibrary

end Spreadsheet

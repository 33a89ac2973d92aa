import Spreadsheet.Number.Notation
import Spreadsheet.Text.Quoted

/-!
# What an expression computes with

Besides numbers and texts an expression has truth values, whole numbers (the
lengths of texts), single characters, lists, records, ranges of whole numbers,
functions and a unit. The characters of a text and the binary digits of a whole
number can be asked for, but nothing can be done with them.
-/
namespace Spreadsheet

/-- What an expression computes with. The names of a record's fields rise and differ. -/
inductive Datum where
  | unit
  | truth (value : Bool)
  | whole (value : Int)
  | number (value : Float)
  | glyph (value : Char)
  | text (value : String)
  | list (items : List Datum)
  | record (fields : List (String × Datum))
  | range (first last : Int) (isThrough : Bool)
  | function
  | glyphs
  | bits
deriving Inhabited, Repr

inductive DatumType where
  | unit | truth | whole | number | glyph | text | list | record | range | rangeThrough | function
  | glyphs | bits
deriving DecidableEq, Repr

namespace DatumType

/-- The name of a type where a value of it is refused. -/
def name : DatumType → String
  | unit => "()"
  | truth => "bool"
  | whole => "i64"
  | number => "f64"
  | glyph => "char"
  | text => "string"
  | list => "array"
  | record => "map"
  | range => "core::ops::range::Range<i64>"
  | rangeThrough => "core::ops::range::RangeInclusive<i64>"
  | function => "Fn"
  | glyphs => "rhai::packages::iter_basic::CharsStream"
  | bits => "rhai::packages::iter_basic::BitRange"

/-- The name of a type whose properties or elements are asked for. -/
def ownerName : DatumType → String
  | range => "range"
  | rangeThrough => "range="
  | other => other.name

/-- The name of a type as the operand of an operation. -/
def operandName : DatumType → String
  | text => "&str | ImmutableString | String"
  | other => other.ownerName

end DatumType

namespace Datum

def type : Datum → DatumType
  | unit => .unit
  | truth _ => .truth
  | whole _ => .whole
  | number _ => .number
  | glyph _ => .glyph
  | text _ => .text
  | list _ => .list
  | record _ => .record
  | range _ _ isThrough => if isThrough then .rangeThrough else .range
  | function => .function
  | glyphs => .glyphs
  | bits => .bits

def wholeText (n : Int) : List Char :=
  (if n < 0 then ['-'] else []) ++ Text.Decimal.digits n.natAbs

def truthText (b : Bool) : List Char := if b then "true".toList else "false".toList

/-- Texts with a comma between each two. -/
def enumerated : List (List Char) → List Char
  | [] => []
  | [cs] => cs
  | cs :: rest => cs ++ ',' :: ' ' :: enumerated rest

/-- The text of a datum inside a list or record, where texts are quoted. -/
def listed : Datum → List Char
  | unit => ['(', ')']
  | truth b => truthText b
  | whole n => wholeText n
  | number x => Number.listed x
  | glyph c => [c]
  | text s => Text.quoted s.toList
  | list items => '[' :: enumerated (listedItems items) ++ [']']
  | record fields => '#' :: '\x7b' :: enumerated (listedFields fields) ++ ['\x7d']
  | range first last isThrough =>
    wholeText first ++ '.' :: '.' :: (if isThrough then ['='] else []) ++ wholeText last
  | function => DatumType.function.name.toList
  | glyphs => DatumType.glyphs.name.toList
  | bits => DatumType.bits.name.toList
where
  listedItems : List Datum → List (List Char)
    | [] => []
    | d :: ds => listed d :: listedItems ds
  listedFields : List (String × Datum) → List (List Char)
    | [] => []
    | (name, d) :: fields =>
      (Text.quoted name.toList ++ ':' :: ' ' :: listed d) :: listedFields fields

/-- The text of a datum that is joined to a text. -/
def printed : Datum → List Char
  | unit => []
  | number x => Number.joined x
  | text s => s.toList
  | d => listed d

end Datum

def fieldValue? (fields : List (String × Datum)) (name : String) : Option Datum :=
  fields.lookup name

/-- Fields with one more field, which takes the place of one of its name. -/
def insertField (name : String) (d : Datum) : List (String × Datum) → List (String × Datum)
  | [] => [(name, d)]
  | field :: fields =>
    if field.1 < name then field :: insertField name d fields
    else if field.1 = name then (name, d) :: fields
    else (name, d) :: field :: fields

namespace Datum

/-- The record of fields in any order; of two fields of one name the later one is kept. -/
def ofFields (fields : List (String × Datum)) : Datum :=
  record (fields.foldl (fun all field => insertField field.1 field.2 all) [])

end Datum

end Spreadsheet

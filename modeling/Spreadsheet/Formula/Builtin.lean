import Spreadsheet.Text.Blank
import Spreadsheet.Text.Decimal

/-!
# Builtin functions and constants

The functions and constants that a formula may name, in any letter case. A
function takes a set number of arguments or at least a number of them.
-/
namespace Spreadsheet
open Text

/-- How many arguments a function takes. -/
inductive Arity where
  | exactly (count : Nat)
  | atLeast (count : Nat)
deriving DecidableEq, Repr

namespace Arity

def accepts : Arity → Nat → Bool
  | exactly count, n => n == count
  | atLeast count, n => count ≤ n

def description : Arity → String
  | exactly 1 => "exactly 1 parameter"
  | exactly count => "exactly " ++ Decimal.text count ++ " parameters"
  | atLeast count => Decimal.text count ++ " parameters or more"

end Arity

inductive Builtin where
  | abs | avg | cos | exp | iif | int | ln | log10 | log2 | max | min | mod | pow | rand | sin
  | sqrt | std | stds | str | sum | tan | todeg | torad
deriving DecidableEq, Repr

namespace Builtin

def all : List Builtin :=
  [abs, avg, cos, exp, iif, int, ln, log10, log2, max, min, mod, pow, rand, sin, sqrt, std, stds,
    str, sum, tan, todeg, torad]

def name : Builtin → String
  | abs => "ABS"
  | avg => "AVG"
  | cos => "COS"
  | exp => "EXP"
  | iif => "IIF"
  | int => "INT"
  | ln => "LN"
  | log10 => "LOG10"
  | log2 => "LOG2"
  | max => "MAX"
  | min => "MIN"
  | mod => "MOD"
  | pow => "POW"
  | rand => "RAND"
  | sin => "SIN"
  | sqrt => "SQRT"
  | std => "STD"
  | stds => "STDS"
  | str => "STR"
  | sum => "SUM"
  | tan => "TAN"
  | todeg => "TODEG"
  | torad => "TORAD"

def arity : Builtin → Arity
  | rand => .exactly 0
  | mod | pow => .exactly 2
  | iif => .exactly 3
  | avg | max | min | std | stds | sum => .atLeast 2
  | abs | cos | exp | int | ln | log10 | log2 | sin | sqrt | str | tan | todeg | torad => .exactly 1

def description : Builtin → String
  | abs => "Absolute value"
  | avg => "Arithmetic mean of the arguments"
  | cos => "Cosine of an angle in radians"
  | exp => "e raised to the given power"
  | iif => "IIF(condition, then, else): pick a value by condition"
  | int => "Largest integer not greater than the argument"
  | ln => "Natural logarithm"
  | log10 => "Base-10 logarithm"
  | log2 => "Base-2 logarithm"
  | max => "Largest of the arguments"
  | min => "Smallest of the arguments"
  | mod => "MOD(a, b): remainder of a / b"
  | pow => "POW(base, exp): base raised to exp"
  | rand => "Uniform random number in [0, 1)"
  | sin => "Sine of an angle in radians"
  | sqrt => "Square root"
  | std => "Population standard deviation of the arguments"
  | stds => "Sample standard deviation of the arguments (n - 1)"
  | str => "Quoted string literal, by index (inserted automatically)"
  | sum => "Sum of the arguments"
  | tan => "Tangent of an angle in radians"
  | todeg => "Convert radians to degrees"
  | torad => "Convert degrees to radians"

/-- What is said of a call with the wrong number of arguments. -/
def arityMessage (b : Builtin) : String :=
  b.name ++ " function requires " ++ b.arity.description

/-- The function of a name, in any letter case. -/
def find? (cs : List Char) : Option Builtin :=
  let capitals := String.ofList (cs.map Char.toUpper)
  all.find? fun b => b.name == capitals

def isName (cs : List Char) : Bool := (find? cs).isSome

end Builtin

inductive Constant where
  | pi
  | euler
  | lightSpeed
deriving DecidableEq, Repr

namespace Constant

def all : List Constant := [pi, euler, lightSpeed]

def name : Constant → String
  | pi => "PI"
  | euler => "E"
  | lightSpeed => "C"

def value : Constant → Float
  | pi => 3.141592653589793
  | euler => 2.718281828459045
  | lightSpeed => 299792458

def description : Constant → String
  | pi => "Ratio of a circle's circumference to its diameter"
  | euler => "Euler's number"
  | lightSpeed => "Speed of light in m/s"

/-- The constant of a name, in any letter case. -/
def find? (cs : List Char) : Option Constant :=
  let capitals := String.ofList (cs.map Char.toUpper)
  all.find? fun c => c.name == capitals

end Constant

end Spreadsheet

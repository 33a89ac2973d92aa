import Spreadsheet.Formula.Builtin

/-!
# The listing of functions

The functions and constants are listed for the user in columns: the name, how
many arguments a function takes, and what it is for.
-/
namespace Spreadsheet.Formula

/-- A text filled up with blanks to a width. -/
def padded (width : Nat) (s : String) : String :=
  s ++ String.ofList (List.replicate (width - s.length) ' ')

def nameWidth : Nat := (Builtin.all.map fun b => b.name.length).foldl max 0

def arityWidth : Nat := 22

def functionLine (b : Builtin) : String :=
  "  " ++ padded nameWidth b.name ++ "  " ++ padded arityWidth b.arity.description ++ "  " ++
    b.description

def constantLine (c : Constant) : String :=
  "  " ++ padded nameWidth c.name ++ "  " ++ c.description

def listing : List String :=
  "Functions:" :: Builtin.all.map functionLine ++ "" :: "Constants:" ::
    Constant.all.map constantLine

end Spreadsheet.Formula

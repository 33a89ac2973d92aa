import Spreadsheet.Expression.Evaluation
import Spreadsheet.Expression.Reader
import Spreadsheet.Expression.Simplification

/-!
# Compiled expressions

With the functions of a library, expressions are compiled to trees, which are
simplified once and evaluated as often as needed. So every library makes an
engine.
-/
namespace Spreadsheet

/-- The tree that the text of an expression is compiled to. -/
def Expression.compile? [Library] (source : List Char) : Option Tree :=
  ((tokens? source).bind (ofTokens? Library.levelLimit)).map Tree.simplify

instance Library.engine [Library] : Engine where
  Script := Tree
  compile := Expression.compile?
  evaluate ω t b := t.evaluate ω b
  names t := t.names ++ Library.lookedUp

end Spreadsheet

/-!
# Operators

The operators that stand between two operands or before one. A binding strength
tells which of two neighbouring operators takes the operand between them; equal
strengths go to the left operator, except for powers.
-/
namespace Spreadsheet

/-- An operator between two operands whose values it combines. -/
inductive Operator where
  | bitOr | bitXor | bitAnd | equal | unequal | within | notWithin | less | atMost | greater
  | atLeast | range | rangeThrough | plus | minus | times | dividedBy | modulo | power | shiftLeft
  | shiftRight
deriving DecidableEq, Repr

namespace Operator

/-- The name of an operator, as its use is reported. -/
def symbol : Operator → String
  | bitOr => "|"
  | bitXor => "^"
  | bitAnd => "&"
  | equal => "=="
  | unequal => "!="
  | within | notWithin => "contains"
  | less => "<"
  | atMost => "<="
  | greater => ">"
  | atLeast => ">="
  | range => ".."
  | rangeThrough => "..="
  | plus => "+"
  | minus => "-"
  | times => "*"
  | dividedBy => "/"
  | modulo => "%"
  | power => "**"
  | shiftLeft => "<<"
  | shiftRight => ">>"

def strength : Operator → Nat
  | bitOr | bitXor => 30
  | bitAnd => 60
  | equal | unequal => 90
  | within | notWithin => 110
  | less | atMost | greater | atLeast => 130
  | range | rangeThrough => 140
  | plus | minus => 150
  | times | dividedBy | modulo => 180
  | power => 190
  | shiftLeft | shiftRight => 210

/-- Whether an operator on constants is computed in advance. -/
def isFoldable : Operator → Bool
  | within | notWithin | range | rangeThrough => false
  | _ => true

end Operator

/-- A rule that joins operands and may leave the later ones unread. -/
inductive Junction where
  | both
  | either
  | fallback
deriving DecidableEq, Repr

/-- What joins two operands. -/
inductive Connective where
  | operator (op : Operator)
  | junction (j : Junction)
deriving DecidableEq, Repr

namespace Connective

def strength : Connective → Nat
  | operator op => op.strength
  | junction .both => 60
  | junction .either => 30
  | junction .fallback => 135

/-- Whether a run of equal operators is grouped from the right. -/
def isRightGrouped : Connective → Bool
  | operator .power => true
  | _ => false

/-- Whether a minus before a digit belongs to the number if it stands after the connective. -/
def allowsSign : Connective → Bool
  | operator .notWithin | junction .fallback => false
  | _ => true

end Connective

/-- An operator before its operand. -/
inductive Sign where
  | minus
  | plus
  | negation
deriving DecidableEq, Repr

namespace Sign

def symbol : Sign → String
  | minus => "-"
  | plus => "+"
  | negation => "!"

end Sign

end Spreadsheet

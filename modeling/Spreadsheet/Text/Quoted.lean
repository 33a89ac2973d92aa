import Spreadsheet.Text.EscapedRanges

/-!
# Quoted texts

A text between quotes, in which each character shows. Quotes, backslashes and
the common controls have a letter after a backslash; any other character that
is not printed stands by its number in hexadecimal digits.
-/
namespace Spreadsheet.Text

/-- Whether a character is shown by its number. -/
def isEscaped (c : Char) : Bool :=
  c.toNat < 32 || escapedRanges.any fun r => decide (r.1 ≤ c.toNat) && decide (c.toNat ≤ r.2)

def quotedChar (c : Char) : List Char :=
  match c with
  | '"' => ['\\', '"']
  | '\\' => ['\\', '\\']
  | '\n' => ['\\', 'n']
  | '\r' => ['\\', 'r']
  | '\t' => ['\\', 't']
  | '\x00' => ['\\', '0']
  | c =>
    if isEscaped c then '\\' :: 'u' :: '\x7b' :: Nat.toDigits 16 c.toNat ++ ['\x7d'] else [c]

def quoted (cs : List Char) : List Char := '"' :: cs.flatMap quotedChar ++ ['"']

end Spreadsheet.Text

/-!
# Digits of other bases

Natural numbers in the bases up to sixteen, and characters given by their number
in hexadecimal digits. Letters of either case are digits when they are read;
small letters are written.
-/
namespace Spreadsheet.Text.Radix

def digitValue (c : Char) : Nat :=
  if c.isDigit then c.toNat - 48 else c.toLower.toNat - 87

def isHexDigit (c : Char) : Bool :=
  c.isDigit || ('a' ≤ c && c ≤ 'f') || ('A' ≤ c && c ≤ 'F')

def isDigitOf (base : Nat) (c : Char) : Bool := isHexDigit c && digitValue c < base

def value (base : Nat) (digits : List Char) : Nat :=
  digits.foldl (fun n c => base * n + digitValue c) 0

/-- The character with a number of a set count of digits, and what follows the digits. -/
def character? (size : Nat) (cs : List Char) : Option (Char × List Char) :=
  let digits := cs.take size
  let n := value 16 digits
  if digits.length == size && digits.all isHexDigit && n.isValidChar then
    some (Char.ofNat n, cs.drop size)
  else none

theorem length_character_le {size : Nat} {c : Char} {cs rest : List Char}
    (h : character? size cs = some (c, rest)) : rest.length ≤ cs.length := by
  dsimp only [character?] at h
  split at h <;> cases h
  rw [List.length_drop]
  exact Nat.sub_le _ _

end Spreadsheet.Text.Radix

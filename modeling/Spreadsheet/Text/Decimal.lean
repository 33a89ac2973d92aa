/-!
# Decimal digits

Natural numbers written in decimal digits, and read back from them. Writing
puts no leading zero; reading takes any. A word is a number below two to the
sixty-fourth; its written form may start with a plus sign.
-/
namespace Spreadsheet.Text.Decimal

def digitValue (c : Char) : Nat := c.toNat - '0'.toNat

def digit (n : Nat) : Char := Char.ofNat ('0'.toNat + n % 10)

def value (cs : List Char) : Nat := cs.foldl (fun n c => 10 * n + digitValue c) 0

/-- The decimal digits of a number, without leading zeros. -/
def digits (n : Nat) : List Char :=
  if n < 10 then [digit n] else digits (n / 10) ++ [digit n]
termination_by n

def text (n : Nat) : String := String.ofList (digits n)

def size (n : Nat) : Nat := (digits n).length

/-- A nonempty run of digits. -/
def isNatural (cs : List Char) : Bool := !cs.isEmpty && cs.all Char.isDigit

/-- Reads an unsigned number below two to the sixty-fourth, with an optional plus sign. -/
def word? (cs : List Char) : Option UInt64 :=
  let body := match cs with
    | '+' :: rest => rest
    | _ => cs
  if isNatural body && value body < UInt64.size then some (UInt64.ofNat (value body)) else none

theorem digitValue_digit (n : Nat) : digitValue (digit n) = n % 10 := by
  have h : n % 10 < 10 := Nat.mod_lt _ (by decide)
  simp only [digit, digitValue]
  generalize n % 10 = k at h ⊢
  match k, h with
  | 0, _ | 1, _ | 2, _ | 3, _ | 4, _ | 5, _ | 6, _ | 7, _ | 8, _ | 9, _ => rfl

theorem isDigit_digit (n : Nat) : (digit n).isDigit = true := by
  have h : n % 10 < 10 := Nat.mod_lt _ (by decide)
  simp only [digit]
  generalize n % 10 = k at h ⊢
  match k, h with
  | 0, _ | 1, _ | 2, _ | 3, _ | 4, _ | 5, _ | 6, _ | 7, _ | 8, _ | 9, _ => rfl

theorem value_append (as bs : List Char) :
    value (as ++ bs) = bs.foldl (fun n c => 10 * n + digitValue c) (value as) := by
  simp [value]

@[simp] theorem value_digits (n : Nat) : value (digits n) = n := by
  fun_induction digits n with
  | case1 n h =>
    simp only [value, List.foldl_cons, List.foldl_nil, digitValue_digit]
    omega
  | case2 n h ih =>
    rw [value_append, ih]
    simp only [List.foldl_cons, List.foldl_nil, digitValue_digit]
    omega

theorem digits_ne_nil (n : Nat) : digits n ≠ [] := by
  rw [digits]
  split <;> simp

theorem isDigit_of_mem_digits {n : Nat} {c : Char} (h : c ∈ digits n) : c.isDigit = true := by
  fun_induction digits n with
  | case1 n _ =>
    rw [List.mem_singleton.1 h]
    exact isDigit_digit n
  | case2 n _ ih =>
    rcases List.mem_append.1 h with h | h
    · exact ih h
    · rw [List.mem_singleton.1 h]
      exact isDigit_digit n

end Spreadsheet.Text.Decimal

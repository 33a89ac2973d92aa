import Spreadsheet.Proofs.Position.Spelling
import Spreadsheet.Proofs.Text.Trimming

/-!
# Words in any case

Two words that differ in the case of their letters only have the same upper and
lower case, and their characters fall into the same classes.
-/
namespace Spreadsheet.Text
variable {c : Char} {w plain : List Char} {n : Nat}

theorem isBlank_toUpper (c : Char) : isBlank c.toUpper = isBlank c := by
  cases hc : c.isLower with
  | false => rw [toUpper_eq_self hc]
  | true =>
    have halpha : c.isAlpha = true := by
      unfold Char.isAlpha
      rw [hc, Bool.or_true]
    have hupper : c.toUpper.isAlpha = true := (isAlpha_toUpper c).trans halpha
    rw [isBlank_of_isAlphanum (isAlphanum_of_isAlpha halpha),
      isBlank_of_isAlphanum (isAlphanum_of_isAlpha hupper)]

theorem toLower_toUpper (c : Char) : c.toUpper.toLower = c.toLower := by
  cases hc : c.isLower with
  | false => rw [toUpper_eq_self hc]
  | true =>
    have hlower : 97 ≤ c.toNat ∧ c.toNat ≤ 122 := by
      unfold Char.isLower at hc
      simpa [UInt32.le_iff_toNat_le, ← Char.toNat_val] using hc
    have hall : ∀ n < 26, (Char.ofNat (97 + n)).toUpper.toLower =
        (Char.ofNat (97 + n)).toLower := by decide
    rw [← Char.ofNat_toNat c, ← Nat.add_sub_cancel' hlower.1]
    exact hall _ (by omega)

theorem map_toUpper_of_same (h : sameIgnoringCase w plain = true) :
    w.map Char.toUpper = plain.map Char.toUpper := beq_iff_eq.1 h

theorem map_toLower_of_same (h : sameIgnoringCase w plain = true) :
    w.map Char.toLower = plain.map Char.toLower := by
  have hupper := congrArg (List.map Char.toLower) (map_toUpper_of_same h)
  simpa only [List.map_map, Function.comp_def, toLower_toUpper] using hupper

/-- A class of characters that does not mind case takes in both words or neither. -/
theorem forall_of_same {p : Char → Bool} (hp : ∀ c, p c.toUpper = p c)
    (h : sameIgnoringCase w plain = true) {b : Bool} (hplain : ∀ c ∈ plain, p c = b) :
    ∀ c ∈ w, p c = b := by
  intro c hc
  have hupper : c.toUpper ∈ plain.map Char.toUpper :=
    map_toUpper_of_same h ▸ List.mem_map_of_mem hc
  obtain ⟨d, hd, he⟩ := List.mem_map.1 hupper
  rw [← hp c, ← he, hp d, hplain d hd]

theorem ne_nil_of_same (h : sameIgnoringCase w plain = true) (hplain : plain ≠ []) : w ≠ [] := by
  rintro rfl
  exact hplain (List.map_eq_nil_iff.1 (map_toUpper_of_same h).symm)

/-- Digits have no case. -/
theorem eq_digits_of_same (h : sameIgnoringCase w (Decimal.digits n) = true) :
    w = Decimal.digits n := by
  have hdigits : ∀ cs : List Char, (∀ c ∈ cs, c.isDigit = true) → cs.map Char.toUpper = cs :=
    fun cs hcs => (List.map_congr_left fun c hc =>
      toUpper_eq_self (isLower_of_isDigit (hcs c hc))).trans (List.map_id _)
  have hplain : ∀ c ∈ Decimal.digits n, c.isDigit = true := fun _ => Decimal.isDigit_of_mem_digits
  rw [← hdigits w (forall_of_same isDigit_toUpper h hplain), map_toUpper_of_same h,
    hdigits _ hplain]

end Spreadsheet.Text

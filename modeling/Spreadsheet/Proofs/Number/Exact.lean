import Mathlib

/-!
# Exact steps in arithmetic

Two steps in which no number is rounded. A sign goes through a division, since the
rounding of a quotient does not look at its sign. A product with one is the other
factor: it has the mantissa of a number already, shifted by the digits of the one,
and shifting it back loses nothing.
-/
namespace Spreadsheet.Number
open Float.Model Float.Model.UnpackedFloat

/-! ## Signs -/

section
variable {spec : Format}

theorem unpack_packComponents_neg (s : UnpackedFloat.Sign) (exponent : BitVec spec.exponentBits)
    (mantissa : BitVec spec.mantissaBitsWithoutImplicit) :
    UnpackedFloat.unpack spec (packComponents spec (-s) exponent mantissa) =
      (UnpackedFloat.unpack spec (packComponents spec s exponent mantissa)).neg := by
  unfold UnpackedFloat.unpack
  simp only [unpackExponent_packComponents, unpackMantissa_packComponents,
    unpackSign_packComponents, UnpackedFloat.Sign.ofBitVec_toBitVec]
  split
  · split <;> rfl
  · split
    · split <;> rfl
    · rfl

theorem roundWithAccuracy_neg (s : UnpackedFloat.Sign) (m : Nat) (e : Int) (a : Accuracy) :
    roundWithAccuracy spec (-s) m e a = (roundWithAccuracy spec s m e a).neg := by
  unfold roundWithAccuracy
  dsimp only
  split <;> rfl

theorem unpacked_neg_div (x y : UnpackedFloat) :
    UnpackedFloat.div spec x.neg y = (UnpackedFloat.div spec x y).neg := by
  have hsign : ∀ s t : UnpackedFloat.Sign, -s / t = -(s / t) := by
    intro s t
    cases s <;> cases t <;> rfl
  cases x <;> cases y <;>
    first
    | rfl
    | simp only [UnpackedFloat.neg, UnpackedFloat.div, hsign, roundWithAccuracy_neg]

end

theorem pack_unpack_model (x : Float.Model) : Float.Model.pack x.unpack = x := by
  obtain ⟨bits, hvalid⟩ := x
  simp only [Float.Model.pack, Float.Model.unpack, pack_unpack_of_valid hvalid]

/-- A number with its sign changed, whether or not it was too large for the format. -/
theorem unpack_pack_neg (x : UnpackedFloat) :
    (Float.Model.pack x.neg).unpack = (Float.Model.pack x).unpack.neg := by
  change UnpackedFloat.unpack .binary64 (UnpackedFloat.pack .binary64 x.neg) =
    (UnpackedFloat.unpack .binary64 (UnpackedFloat.pack .binary64 x)).neg
  cases x with
  | notANumber =>
    change UnpackedFloat.unpack .binary64 (packedNaN .binary64) =
      (UnpackedFloat.unpack .binary64 (packedNaN .binary64)).neg
    rw [unpack_packedNaN]
    rfl
  | infinity s => exact unpack_packComponents_neg s _ _
  | zero s => exact unpack_packComponents_neg s _ _
  | finite s m e h =>
    simp only [UnpackedFloat.neg, UnpackedFloat.pack]
    split
    · exact unpack_packComponents_neg s _ _
    · split <;> exact unpack_packComponents_neg s _ _

theorem neg_div (x y : Float) : -x / y = -(x / y) := by
  change Float.ofModel (Float.Model.pack (UnpackedFloat.div .binary64
      (Float.Model.pack x.toModel.unpack.neg).unpack y.toModel.unpack)) =
    Float.ofModel (Float.Model.pack (Float.Model.pack (UnpackedFloat.div .binary64
      x.toModel.unpack y.toModel.unpack)).unpack.neg)
  rw [← unpack_pack_neg, pack_unpack_model, unpack_pack_neg, pack_unpack_model, unpacked_neg_div]

/-! ## Products with one -/

theorem shiftRight_exact (m k : Nat) :
    (⟨m * 2 ^ k, false, false⟩ : ExtendedMantissa) >>> k = ⟨m, false, false⟩ := by
  induction k generalizing m with
  | zero => simp [HShiftRight.hShiftRight, Nat.repeat]
  | succ k ih =>
    change ((⟨m * 2 ^ (k + 1), false, false⟩ : ExtendedMantissa) >>> k).shiftRightOne = _
    have hpow : m * 2 ^ (k + 1) = m * 2 * 2 ^ k := by ring
    rw [hpow, ih]
    simp [ExtendedMantissa.shiftRightOne]

/-- The mantissa and the exponent of a finite number. Only with the least exponent the mantissa may
have fewer than all digits. -/
structure IsExact (m : Nat) (e : Int) : Prop where
  pos : 0 < m
  lt : m < 2 ^ 53
  le : -1074 ≤ e
  full : 2 ^ 52 ≤ m ∨ e = -1074

section
variable {m : Nat} {e : Int}

theorem IsExact.targetExponent_eq (h : IsExact m e) (k : Nat) :
    Format.binary64.targetExponent (totalExponent (m * 2 ^ k) (e - k)) = e := by
  have hlog : (m * 2 ^ k).log2 = m.log2 + k := by
    induction k with
    | zero => rw [Nat.pow_zero, Nat.mul_one, Nat.add_zero]
    | succ k ih =>
      have hne : m * 2 ^ k ≠ 0 := Nat.ne_of_gt (Nat.mul_pos h.pos (Nat.two_pow_pos k))
      have hpow : m * 2 ^ (k + 1) = 2 * (m * 2 ^ k) := by ring
      rw [hpow, Nat.log2_two_mul hne, ih]
      rfl
  have hlt : m.log2 < 53 := (Nat.log2_lt (Nat.ne_of_gt h.pos)).2 h.lt
  have hle : 2 ^ 52 ≤ m → 52 ≤ m.log2 := (Nat.le_log2 (Nat.ne_of_gt h.pos)).2
  have := h.le
  have := h.full
  simp only [Format.targetExponent, totalExponent, hlog, Format.mantissaBits, Format.minExponent]
  norm_num
  omega

theorem IsExact.shiftToTargetExponent_eq (h : IsExact m e) (k : Nat) :
    shiftToTargetExponent .binary64 (m * 2 ^ k) (e - k) .exact = (⟨m, false, false⟩, e) := by
  have hshift : (e - (e - k)).toNat = k := by omega
  simp only [shiftToTargetExponent, h.targetExponent_eq, shiftToExponent, hshift]
  exact Prod.ext (shiftRight_exact m k) (by simp)

theorem IsExact.roundWithAccuracy_eq (h : IsExact m e) (s : UnpackedFloat.Sign) (k : Nat) :
    roundWithAccuracy .binary64 s (m * 2 ^ k) (e - k) .exact = .finite s m e h.pos := by
  have hround : (⟨m, false, false⟩ : ExtendedMantissa).roundedMantissa = m := rfl
  have hagain := h.shiftToTargetExponent_eq 0
  rw [Nat.pow_zero, Nat.mul_one, Int.natCast_zero, Int.sub_zero] at hagain
  simp only [roundWithAccuracy, h.shiftToTargetExponent_eq, hround, hagain]
  rw [dif_neg (Nat.ne_of_gt h.pos)]

theorem isExact_of_unpack {b : BitVec Format.binary64.numBits} {s : UnpackedFloat.Sign} {h : 0 < m}
    (hb : UnpackedFloat.unpack .binary64 b = .finite s m e h) : IsExact m e := by
  have hmantissa : (unpackMantissa b).toNat < 2 ^ 52 := (unpackMantissa b).isLt
  have hbias : (Format.binary64.exponentBias : Int) + Format.binary64.mantissaBitsWithoutImplicit =
      1075 := rfl
  unfold UnpackedFloat.unpack at hb
  simp only [hbias] at hb
  split at hb
  · split at hb <;> cases hb
  · split at hb
    · rename_i hexponent
      have hzero : (unpackExponent b).toNat = 0 := by rw [hexponent]; rfl
      split at hb
      · cases hb
      · cases hb
        exact ⟨h, by omega, by omega, .inr (by omega)⟩
    · rename_i hexponent
      have hpos : (unpackExponent b).toNat ≠ 0 := fun hzero =>
        hexponent (BitVec.eq_of_toNat_eq hzero)
      have hlead : 2 ^ 52 ≤ (1#1 ++ unpackMantissa b).toNat := by
        rw [BitVec.toNat_append]
        exact Nat.left_le_or
      cases hb
      exact ⟨h, (1#1 ++ unpackMantissa b).isLt, by omega, .inl hlead⟩

end

theorem mul_one (x : Float) : x * 1 = x := by
  have hone : (1 : Float).toModel.unpack =
      .finite .positive (1 * 2 ^ 52) (0 - (52 : Nat)) (by decide) := rfl
  have hsign : ∀ s : UnpackedFloat.Sign, s * .positive = s := by
    intro s
    cases s <;> rfl
  have hmul : UnpackedFloat.mul .binary64 x.toModel.unpack (1 : Float).toModel.unpack =
      x.toModel.unpack := by
    rw [hone]
    cases hx : x.toModel.unpack with
    | notANumber => rfl
    | infinity s => exact congrArg _ (hsign s)
    | zero s => exact congrArg _ (hsign s)
    | finite s m e h =>
      have hround := (isExact_of_unpack hx).roundWithAccuracy_eq s 52
      simp only [UnpackedFloat.mul, hsign]
      rw [← hround]
      congr 1
  change Float.ofModel (Float.Model.pack (UnpackedFloat.mul .binary64 x.toModel.unpack
    (1 : Float).toModel.unpack)) = x
  rw [hmul, pack_unpack_model]

end Spreadsheet.Number

import MiniLua.Proofs.Number.Doubles

/-!
# Doubles that are not infinite

Rounding leaves at most 53 bits of a mantissa and raises the exponent by the bits it cuts off, once
more if it carries. A number below `2 ^ 1023` therefore keeps an exponent that a double can hold.
-/

namespace MiniLua.Number

open Float.Model Float.Model.UnpackedFloat

theorem isInf_unpack_pack {s : Sign} {m : Nat} {e : Int} {hm : 0 < m} (hhi : e ≤ 971) :
    (Float.Model.pack (.finite s m e hm)).unpack.isInf = false := by
  have hbias : Format.binary64.exponentBias = 1023 := by decide
  have components : ∃ exponent : BitVec 11, exponent ≠ -1#11 ∧
      UnpackedFloat.pack Format.binary64 (.finite s m e hm) =
        packComponents Format.binary64 s exponent (BitVec.ofNat 52 m) := by
    simp only [UnpackedFloat.pack, hbias]
    rw [if_neg (by change ¬ 2 ^ 11 ≤ (e + 1023 + 52).toNat + 1; omega)]
    split
    · exact ⟨_, biased_ne_allOnes hhi, rfl⟩
    · exact ⟨0#11, by decide, rfl⟩
  obtain ⟨exponent, notInf, packed⟩ := components
  change (UnpackedFloat.unpack Format.binary64
    (UnpackedFloat.pack Format.binary64 (.finite s m e hm))).isInf = false
  rw [packed]
  simp only [UnpackedFloat.unpack, unpackMantissa_packComponents,
    unpackExponent_packComponents]
  rw [if_neg notInf]
  split
  · split <;> rfl
  · rfl

theorem mantissa_shiftRight (em : ExtendedMantissa) (k : Nat) :
    (em >>> k).mantissa = em.mantissa / 2 ^ k := by
  induction k with
  | zero => exact (Nat.div_one _).symm
  | succ k ih =>
    change (em >>> k).mantissa / 2 = _
    rw [ih, Nat.div_div_eq_div_mul, Nat.pow_succ]

theorem roundedMantissa_le (em : ExtendedMantissa) : em.roundedMantissa ≤ em.mantissa + 1 := by
  obtain ⟨m, round, sticky⟩ := em
  cases round <;> cases sticky <;>
    simp only [ExtendedMantissa.roundedMantissa, ExtendedMantissa.accuracy,
      Accuracy.roundToNearestEven] <;>
    omega

theorem le_roundedMantissa (em : ExtendedMantissa) : em.mantissa ≤ em.roundedMantissa := by
  obtain ⟨m, round, sticky⟩ := em
  cases round <;> cases sticky <;>
    simp only [ExtendedMantissa.roundedMantissa, ExtendedMantissa.accuracy,
      Accuracy.roundToNearestEven] <;>
    omega

/-- Shifting a mantissa to the exponent that leaves it 53 bits. -/
theorem shiftToTargetExponent_of_accuracy (m : Nat) (e : Int) (accuracy : Accuracy) :
    shiftToTargetExponent Format.binary64 m e accuracy =
      (ExtendedMantissa.ofMantissaAndAccuracy m accuracy >>>
          (max (totalExponent m e - 53) (-1074) - e).toNat,
        e + ((max (totalExponent m e - 53) (-1074) - e).toNat : Nat)) := by
  have hbits : Format.binary64.mantissaBits = 53 := by decide
  have hmin : Format.binary64.minExponent = -1074 := by decide
  simp only [shiftToTargetExponent, shiftToExponent, Format.targetExponent, hbits, hmin,
    Nat.cast_ofNat]

theorem shiftToTargetExponent_eq (m : Nat) (e : Int) :
    shiftToTargetExponent Format.binary64 m e .exact =
      ((ExtendedMantissa.mk m false false) >>>
          (max (totalExponent m e - 53) (-1074) - e).toNat,
        e + ((max (totalExponent m e - 53) (-1074) - e).toNat : Nat)) :=
  shiftToTargetExponent_of_accuracy m e .exact

/-- A number below `2 ^ 1023` does not round to infinity. -/
theorem isInf_roundWithAccuracy (s : Sign) {m : Nat} {e : Int} (low : e ≤ 970)
    (below : totalExponent m e ≤ 1023) :
    (Float.Model.pack (roundWithAccuracy Format.binary64 s m e .exact)).unpack.isInf = false := by
  have first := shiftToTargetExponent_eq m e
  generalize hk : (max (totalExponent m e - 53) (-1074) - e).toNat = k at first
  have small : ((ExtendedMantissa.mk m false false) >>> k).mantissa < 2 ^ 53 := by
    rw [mantissa_shiftRight]
    apply Nat.div_lt_of_lt_mul
    calc m < 2 ^ (m.log2 + 1) := Nat.lt_log2_self
      _ ≤ 2 ^ (k + 53) := Nat.pow_le_pow_right (by decide) (by simp only [totalExponent] at hk; omega)
      _ = 2 ^ k * 2 ^ 53 := Nat.pow_add 2 k 53
  have rounded := roundedMantissa_le ((ExtendedMantissa.mk m false false) >>> k)
  generalize hr : ((ExtendedMantissa.mk m false false) >>> k).roundedMantissa = r at rounded
  have bits : r.log2 ≤ 53 := by
    have : r < 2 ^ 54 := by omega
    by_cases zero : r = 0
    · simp [zero]
    · have := (Nat.log2_lt zero).mpr this
      omega
  have second := shiftToTargetExponent_eq r (e + k)
  simp only [roundWithAccuracy, first, hr, second]
  split
  · cases s <;> rfl
  · apply isInf_unpack_pack
    simp only [totalExponent] at below hk ⊢
    omega

/-- A whole number that may not fit into a mantissa is rounded. -/
theorem ofNat_eq_pack {n : Nat} (hn : 0 < n) (large : ¬ n < 2 ^ 53) :
    Float.ofNat n = Float.ofModel (Float.Model.pack
      (roundWithAccuracy Format.binary64 .positive (n * 2 ^ 53) (-53) .exact)) := by
  have slow : Float.ofNat n = Float.ofModel (Float.Model.ofScientific n (Int.ofNat 0)) := by
    change Float.ofScientific n false 0 = _
    rw [Float.ofScientific, dif_neg fun fits => large fits.1]
    rfl
  have product : UnpackedFloat.ofScientific Format.binary64 n (Int.ofNat 0) =
      roundWithAccuracy Format.binary64 .positive (n * 2 ^ 53) (-53) .exact := by
    have hbits : Format.binary64.mantissaBits = 53 := by decide
    rw [UnpackedFloat.ofScientific, dif_neg (Nat.ne_of_gt hn), if_neg (by decide),
      if_neg (by simp), if_pos (by decide)]
    simp only [UnpackedFloat.mul, hbits, Nat.shiftLeft_eq, Int.ofNat_eq_natCast,
      Int.toNat_natCast, Nat.pow_zero, Nat.mul_one, Nat.cast_ofNat]
    rfl
  rw [slow, ← product]
  rfl

/-- A whole number below `2 ^ 1023` has a finite double. -/
theorem isInf_ofNat {n k : Nat} (hlt : n < 2 ^ k) (hk : k ≤ 1023) :
    (Float.ofNat n).isInf = false := by
  rcases Nat.eq_zero_or_pos n with rfl | hn
  · rfl
  by_cases short : n < 2 ^ 53
  · change (unpacked (Float.ofNat n)).isInf = false
    rw [unpacked_ofNat hn short]
    rfl
  have bits : n.log2 < k := (Nat.log2_lt (Nat.ne_of_gt hn)).mpr hlt
  rw [ofNat_eq_pack hn short]
  change (Float.Model.pack
    (roundWithAccuracy Format.binary64 .positive (n * 2 ^ 53) (-53) .exact)).unpack.isInf = false
  refine isInf_roundWithAccuracy .positive (by decide) ?_
  rw [totalExponent, log2_mul_two_pow hn]
  omega

/-! ## Doubles that are numbers -/

theorem isNaN_unpack_packComponents (s : Sign) {exponent : BitVec 11} (m : BitVec 52)
    (notInf : exponent ≠ -1#11) :
    (UnpackedFloat.unpack Format.binary64
      (packComponents Format.binary64 s exponent m)).isNaN = false := by
  simp only [UnpackedFloat.unpack, unpackMantissa_packComponents, unpackExponent_packComponents]
  rw [if_neg notInf]
  split
  · split <;> rfl
  · rfl

theorem isNaN_unpack_pack (s : Sign) {m : Nat} (e : Int) (hm : 0 < m) :
    (Float.Model.pack (.finite s m e hm)).unpack.isNaN = false := by
  change (UnpackedFloat.unpack Format.binary64
    (UnpackedFloat.pack Format.binary64 (.finite s m e hm))).isNaN = false
  have hbias : Format.binary64.exponentBias = 1023 := by decide
  simp only [UnpackedFloat.pack, hbias]
  split
  · cases s <;> rfl
  next inside =>
    split
    · refine isNaN_unpack_packComponents s _ fun allOnes => inside ?_
      have field := congrArg BitVec.toNat allOnes
      rw [BitVec.toNat_ofNat, show (-1#11).toNat = 2047 from rfl] at field
      have bound := Nat.mod_le (e + 1023 + (52 : Nat)).toNat (2 ^ 11)
      exact Nat.succ_le_succ (field ▸ bound)
    · exact isNaN_unpack_packComponents s _ (by decide)

/-- A whole number has a double, be it infinity. -/
theorem isNaN_ofNat (n : Nat) : (Float.ofNat n).isNaN = false := by
  rcases Nat.eq_zero_or_pos n with rfl | hn
  · rfl
  by_cases short : n < 2 ^ 53
  · change (unpacked (Float.ofNat n)).isNaN = false
    rw [unpacked_ofNat hn short]
    rfl
  rw [ofNat_eq_pack hn short]
  change (Float.Model.pack
    (roundWithAccuracy Format.binary64 .positive (n * 2 ^ 53) (-53) .exact)).unpack.isNaN = false
  simp only [roundWithAccuracy]
  split
  · rfl
  · exact isNaN_unpack_pack _ _ _

end MiniLua.Number

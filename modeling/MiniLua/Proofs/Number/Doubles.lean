import MiniLua.Number.Binary
import Mathlib

/-!
# Doubles as sign, mantissa and exponent

The bits of a double are read once, into an `UnpackedFloat`. Equality of doubles is a partial
equivalence on what is read: NaN is equal to nothing and the two zeros are equal. A whole number
below `2 ^ 53` is a double without rounding.
-/

namespace MiniLua.Number

open Float.Model Float.Model.UnpackedFloat

theorem toNat_unpackMantissa (b : BitVec 64) :
    (@unpackMantissa Format.binary64 b).toNat = b.toNat % 2 ^ 52 := by
  simp [unpackMantissa]

theorem toNat_unpackExponent (b : BitVec 64) :
    (@unpackExponent Format.binary64 b).toNat = b.toNat / 2 ^ 52 % 2 ^ 11 := by
  simp [unpackExponent, Nat.shiftRight_eq_div_pow]

theorem toNat_unpackSign (b : BitVec 64) :
    (@unpackSign Format.binary64 b).toNat = b.toNat / 2 ^ 63 % 2 := by
  simp [unpackSign, Nat.shiftRight_eq_div_pow]

theorem toNat_implicit (m : BitVec 52) : (1#1 ++ m).toNat = 2 ^ 52 + m.toNat := by
  have hlt := m.isLt
  rw [BitVec.toNat_append, ← Nat.shiftLeft_add_eq_or_of_lt hlt, Nat.shiftLeft_eq]
  rfl

/-- What the bits of a double say. -/
def unpacked (x : Float) : UnpackedFloat := x.toModel.unpack

def signBit (s : Sign) : Bool :=
  match s with
  | .negative => true
  | .positive => false

theorem signBit_ofBitVec (b : BitVec 64) :
    signBit (Sign.ofBitVec (@unpackSign Format.binary64 b)) =
      decide (2 ^ 63 ≤ b.toNat) := by
  have hs := toNat_unpackSign b
  have hb : b.toNat < 2 ^ 64 := b.isLt
  by_cases h : 2 ^ 63 ≤ b.toNat
  · have : @unpackSign Format.binary64 b ≠ 0#1 := by
      intro h0
      rw [h0] at hs
      simp at hs
      omega
    simpa [Sign.ofBitVec, this, signBit] using h
  · have : @unpackSign Format.binary64 b = 0#1 := by
      apply BitVec.eq_of_toNat_eq
      rw [hs]
      simp
      omega
    simpa [Sign.ofBitVec, this, signBit] using h

/-- A finite double reads the same in the model and as a binary fraction. -/
theorem ofFloat_of_finite {x : Float} {s : Sign} {m : Nat} {e : Int} {hm : 0 < m}
    (h : unpacked x = .finite s m e hm) :
    Binary.ofFloat x = ⟨signBit s, m, e⟩ ∧ m < 2 ^ 53 ∧ -1074 ≤ e ∧ e ≤ 971 ∧
      (2 ^ 52 ≤ m ∨ e = -1074) := by
  unfold unpacked Float.Model.unpack UnpackedFloat.unpack at h
  have hM := toNat_unpackMantissa x.toModel.toBits.toBitVec
  have hE := toNat_unpackExponent x.toModel.toBits.toBitVec
  have hS := signBit_ofBitVec x.toModel.toBits.toBitVec
  have hbits : x.toBits.toNat = x.toModel.toBits.toBitVec.toNat := rfl
  simp only [Binary.ofFloat, Nat.pow_eq, hbits]
  generalize x.toModel.toBits.toBitVec = b at *
  have hbias : Format.binary64.exponentBias = 1023 := by decide
  dsimp only at h
  split at h
  · split at h <;> cases h
  next hinf =>
  split at h
  next hzero =>
    split at h
    · cases h
    next hne =>
    cases h
    have he0 : b.toNat / 2 ^ 52 % 2 ^ 11 = 0 := by rw [← hE, hzero]; rfl
    refine ⟨?_, ?_, ?_, ?_, ?_⟩
    · simp only [he0, if_true, hS, hM, hE, hbias]
      rfl
    all_goals simp only [hM, hE, hbias, he0]; omega
  next hnz =>
    cases h
    have he0 : b.toNat / 2 ^ 52 % 2 ^ 11 ≠ 0 := by
      intro h0
      apply hnz
      apply BitVec.eq_of_toNat_eq
      rw [hE, h0]
      rfl
    have he1 : b.toNat / 2 ^ 52 % 2 ^ 11 ≠ 2047 := by
      intro h0
      apply hinf
      apply BitVec.eq_of_toNat_eq
      rw [hE, h0]
      rfl
    refine ⟨?_, ?_, ?_, ?_, ?_⟩
    · simp only [if_neg he0, hS, toNat_implicit, hM, hE, hbias]
      simp [Nat.add_comm]
    all_goals simp only [toNat_implicit, hM, hE, hbias]; omega

theorem unpacked_of_isNaN {x : Float} (h : x.isNaN) : unpacked x = .notANumber := by
  change (unpacked x).isNaN = true at h
  cases hu : unpacked x <;> simp_all [UnpackedFloat.isNaN]

/-- The two zeros are the same number. -/
def unsigned : UnpackedFloat → UnpackedFloat
  | .zero _ => .zero .positive
  | u => u

theorem compare_eq_iff (a b : UnpackedFloat) :
    a.compare b = some .eq ↔ a ≠ .notANumber ∧ unsigned a = unsigned b := by
  cases a with
  | notANumber => cases b <;> simp [UnpackedFloat.compare]
  | infinity s =>
    cases s <;> cases b with
    | infinity t =>
      cases t
      all_goals simp [UnpackedFloat.compare, unsigned]
      all_goals rfl
    | _ => simp [UnpackedFloat.compare, unsigned]
  | zero s =>
    cases b with
    | infinity t => cases t <;> simp [UnpackedFloat.compare, unsigned]
    | finite t m e hm => cases t <;> simp [UnpackedFloat.compare, unsigned]
    | _ => simp [UnpackedFloat.compare, unsigned]
  | finite s m e hm =>
    cases b with
    | infinity t => cases s <;> cases t <;> simp [UnpackedFloat.compare, unsigned]
    | zero t => cases s <;> simp [UnpackedFloat.compare, unsigned]
    | notANumber => cases s <;> simp [UnpackedFloat.compare, unsigned]
    | finite t n f hn =>
      cases s <;> cases t <;> simp [UnpackedFloat.compare, unsigned, Ordering.then_eq_eq, and_comm]

theorem beq_iff (x y : Float) :
    (x == y) = true ↔
      unpacked x ≠ .notANumber ∧ unsigned (unpacked x) = unsigned (unpacked y) := by
  rw [← compare_eq_iff]
  change ((unpacked x).compare (unpacked y) == some Ordering.eq) = true ↔ _
  exact beq_iff_eq

theorem beq_symm {x y : Float} (h : (x == y) = true) : (y == x) = true := by
  rw [beq_iff] at h ⊢
  refine ⟨?_, h.2.symm⟩
  intro hy
  have hx := h.2
  rw [hy] at hx
  revert hx
  cases hu : unpacked x <;> simp_all [unsigned]

theorem beq_trans {x y z : Float} (hxy : (x == y) = true) (hyz : (y == z) = true) :
    (x == z) = true := by
  rw [beq_iff] at hxy hyz ⊢
  exact ⟨hxy.1, hxy.2.trans hyz.2⟩

/-! ## Packing -/

theorem unpackSign_packComponents {S : Format} (s : Sign) (e : BitVec S.exponentBits)
    (m : BitVec S.mantissaBitsWithoutImplicit) :
    unpackSign (packComponents S s e m) = s.toBitVec := by
  ext k hk
  obtain rfl : k = 0 := by omega
  simp [unpackSign, packComponents, BitVec.getElem_append, BitVec.getLsbD_append]

theorem ofBitVec_toBitVec (s : Sign) : Sign.ofBitVec s.toBitVec = s := by
  cases s <;> rfl

/-- The exponent field of a number that is not too large. -/
theorem toNat_biased {e : Int} (hhi : e ≤ 971) :
    (BitVec.ofNat 11 (e + 1023 + 52).toNat).toNat = (e + 1023 + 52).toNat := by
  rw [BitVec.toNat_ofNat, Nat.mod_eq_of_lt (by omega)]

/-- It is not the one of the infinities. -/
theorem biased_ne_allOnes {e : Int} (hhi : e ≤ 971) :
    BitVec.ofNat 11 (e + 1023 + 52).toNat ≠ -1#11 := by
  intro h
  have := congrArg BitVec.toNat h
  rw [toNat_biased hhi] at this
  simp at this
  omega

/-- A mantissa that fills its 53 bits is packed without loss. -/
theorem unpack_pack_normal {s : Sign} {m : Nat} {e : Int} (hm : 0 < m) (hlog : m.log2 = 52)
    (hlo : -1074 ≤ e) (hhi : e ≤ 971) :
    (Float.Model.pack (.finite s m e hm)).unpack = .finite s m e hm := by
  have hbias : Format.binary64.exponentBias = 1023 := by decide
  have hlt : m < 2 ^ 53 := (Nat.log2_lt (by omega)).mp (by omega)
  have hge : 2 ^ 52 ≤ m := (Nat.le_log2 (by omega)).mp (by omega)
  have hexp := toNat_biased hhi
  have hnz : BitVec.ofNat 11 (e + 1023 + 52).toNat ≠ 0#11 := by
    intro h
    have := congrArg BitVec.toNat h
    rw [hexp] at this
    simp at this
    omega
  have hman : (1#1 ++ BitVec.ofNat 52 m).toNat = m := by
    rw [toNat_implicit, BitVec.toNat_ofNat]
    omega
  have packed : UnpackedFloat.pack Format.binary64 (.finite s m e hm) =
      packComponents Format.binary64 s (BitVec.ofNat 11 (e + 1023 + 52).toNat)
        (BitVec.ofNat 52 m) := by
    simp only [UnpackedFloat.pack, hbias, hlog]
    rw [if_neg, if_pos]
    · rfl
    · rfl
    · change ¬ 2 ^ 11 ≤ (e + 1023 + 52).toNat + 1
      omega
  change UnpackedFloat.unpack Format.binary64
    (UnpackedFloat.pack Format.binary64 (.finite s m e hm)) = _
  rw [packed]
  simp only [UnpackedFloat.unpack, unpackMantissa_packComponents,
    unpackExponent_packComponents, unpackSign_packComponents, ofBitVec_toBitVec]
  rw [if_neg (biased_ne_allOnes hhi), if_neg hnz]
  simp only [hman, hexp, hbias]
  congr 1
  push_cast
  omega

/-! ## Rounding what needs no rounding -/

theorem shiftRight_exact (m k : Nat) :
    (ExtendedMantissa.mk (m * 2 ^ k) false false) >>> k = ExtendedMantissa.mk m false false := by
  induction k generalizing m with
  | zero => simp [HShiftRight.hShiftRight, Nat.repeat]
  | succ k ih =>
    have hm : m * 2 ^ (k + 1) = m * 2 * 2 ^ k := by ring
    change ExtendedMantissa.shiftRightOne (ExtendedMantissa.mk (m * 2 ^ (k + 1)) false false >>> k) = _
    rw [hm, ih]
    simp [ExtendedMantissa.shiftRightOne]

theorem log2_mul_two_pow {m : Nat} (hm : 0 < m) (k : Nat) : (m * 2 ^ k).log2 = m.log2 + k := by
  have hpos : 0 < m * 2 ^ k := by positivity
  rw [Nat.log2_eq_iff (by omega)]
  have hlo := Nat.log2_self_le (Nat.ne_of_gt hm)
  have hhi := Nat.lt_log2_self (n := m)
  constructor
  · rw [Nat.pow_add]
    exact Nat.mul_le_mul_right _ hlo
  · have : 2 ^ (m.log2 + k + 1) = 2 ^ (m.log2 + 1) * 2 ^ k := by ring
    rw [this]
    exact Nat.mul_lt_mul_of_pos_right hhi (by positivity)

/-- Zeros at the end of a mantissa are shifted out exactly. -/
theorem roundWithAccuracy_exact (s : Sign) {m k : Nat} {e : Int} (hm : 0 < m)
    (hlog : m.log2 = 52) (hlo : -1074 ≤ e + k) :
    roundWithAccuracy Format.binary64 s (m * 2 ^ k) e .exact = .finite s m (e + k) hm := by
  have hbits : Format.binary64.mantissaBits = 53 := by decide
  have hmin : Format.binary64.minExponent = -1074 := by decide
  have first : shiftToTargetExponent Format.binary64 (m * 2 ^ k) e .exact =
      (ExtendedMantissa.mk m false false, e + k) := by
    have ht : Format.binary64.targetExponent (totalExponent (m * 2 ^ k) e) - e = k := by
      simp only [Format.targetExponent, totalExponent, hbits, hmin, log2_mul_two_pow hm, hlog]
      omega
    simp only [shiftToTargetExponent, shiftToExponent, ht,
      ExtendedMantissa.ofMantissaAndAccuracy, Int.toNat_natCast, shiftRight_exact]
  have second : shiftToTargetExponent Format.binary64 m (e + k) .exact =
      (ExtendedMantissa.mk m false false, e + k) := by
    have ht : Format.binary64.targetExponent (totalExponent m (e + k)) - (e + k) = 0 := by
      simp only [Format.targetExponent, totalExponent, hbits, hmin, hlog]
      omega
    have hs := shiftRight_exact m 0
    rw [Nat.pow_zero, Nat.mul_one] at hs
    simp only [shiftToTargetExponent, shiftToExponent, ht,
      ExtendedMantissa.ofMantissaAndAccuracy, Int.toNat_zero, hs]
    simp
  have rounded : (ExtendedMantissa.mk m false false).roundedMantissa = m := rfl
  simp only [roundWithAccuracy, first, rounded, second]
  rw [dif_neg (by omega)]

/-! ## Whole numbers -/

theorem unpacked_one : unpacked 1 = .finite .positive (2 ^ 52) (-52) (by decide) := by
  rfl

section Whole

variable {n : Nat}

theorem log2_full_mantissa (hn : 0 < n) (hlt : n < 2 ^ 53) :
    n.log2 ≤ 52 ∧ (n * 2 ^ (52 - n.log2)).log2 = 52 := by
  have hlog : n.log2 ≤ 52 := by
    have := (Nat.log2_lt (by omega)).mpr hlt
    omega
  refine ⟨hlog, ?_⟩
  rw [log2_mul_two_pow hn]
  omega

theorem round_whole (hn : 0 < n) (hlt : n < 2 ^ 53) :
    UnpackedFloat.round Format.binary64 .positive n 0 =
      .finite .positive (n * 2 ^ (52 - n.log2)) (n.log2 - 52) (by positivity) := by
  obtain ⟨hlog, hfull⟩ := log2_full_mantissa hn hlt
  have hbits : Format.binary64.mantissaBits = 53 := by decide
  have hmin : Format.binary64.minExponent = -1074 := by decide
  have ht : Format.binary64.targetExponent (totalExponent n 0) = n.log2 - 52 := by
    simp only [Format.targetExponent, totalExponent, hbits, hmin]
    omega
  have hd : (0 - ((n.log2 : Int) - 52)).toNat = 52 - n.log2 := by omega
  have hback : (0 : Int) - ((52 - n.log2 : Nat) : Int) = n.log2 - 52 := by omega
  have hround := roundWithAccuracy_exact .positive (k := 0) (e := (n.log2 : Int) - 52)
    (m := n * 2 ^ (52 - n.log2)) (by positivity) hfull (by omega)
  simp only [UnpackedFloat.round, decreaseExponent, ht, hd, Nat.shiftLeft_eq, hback]
  simpa using hround

theorem unpacked_toFloat (hn : 0 < n) (hlt : n < 2 ^ 53) :
    unpacked n.toUInt64.toFloat =
      .finite .positive (n * 2 ^ (52 - n.log2)) (n.log2 - 52) (by positivity) := by
  obtain ⟨hlog, hfull⟩ := log2_full_mantissa hn hlt
  have hword : n.toUInt64.toNat = n := by
    simp
    omega
  have hsign : compare (n : Int) 0 = .gt := by
    rw [compare_gt_iff_gt]
    omega
  change (Float.Model.pack (UnpackedFloat.normalize Format.binary64 (n.toUInt64.toNat : Int) 0
    .positive)).unpack = _
  simp only [UnpackedFloat.normalize, hword, hsign, Int.toNat_natCast, round_whole hn hlt]
  exact unpack_pack_normal _ hfull (by omega) (by omega)

/-- The double of a whole number below `2 ^ 53`, with all 53 bits of its mantissa. -/
theorem unpacked_ofNat (hn : 0 < n) (hlt : n < 2 ^ 53) :
    unpacked (Float.ofNat n) =
      .finite .positive (n * 2 ^ (52 - n.log2)) (n.log2 - 52) (by positivity) := by
  obtain ⟨hlog, hfull⟩ := log2_full_mantissa hn hlt
  have hpos : 0 < n * 2 ^ (52 - n.log2) := by positivity
  have times : Float.ofNat n = n.toUInt64.toFloat * Float.ofBits 0x3FF0000000000000 := by
    change Float.ofScientific n false 0 = _
    rw [Float.ofScientific, dif_pos ⟨hlt, by omega⟩]
    rfl
  have one : unpacked (Float.ofBits 0x3FF0000000000000) =
      .finite .positive (2 ^ 52) (-52) (by decide) := by rfl
  have hexp : (n.log2 : Int) - 52 + -52 + (52 : Nat) = n.log2 - 52 := by omega
  have product := roundWithAccuracy_exact .positive (k := 52) (e := (n.log2 : Int) - 52 + -52)
    hpos hfull (by omega)
  simp only [hexp] at product
  rw [times]
  change (Float.Model.pack (UnpackedFloat.mul Format.binary64 (unpacked n.toUInt64.toFloat)
    (unpacked (Float.ofBits 0x3FF0000000000000)))).unpack = _
  rw [unpacked_toFloat hn hlt, one]
  change (Float.Model.pack (roundWithAccuracy Format.binary64 .positive
    (n * 2 ^ (52 - n.log2) * 2 ^ 52) ((n.log2 : Int) - 52 + -52) .exact)).unpack = _
  rw [product]
  exact unpack_pack_normal hpos hfull (by omega) (by omega)

end Whole

end MiniLua.Number

import MiniLua.Proofs.Number.Finite

/-!
# Whole numbers among the doubles

A whole number other than zero fills the mantissa of its double, and its logarithm is the exponent.
So doubles that are whole numbers compare as these numbers do. A sum of two of them is exact up to
`2 ^ 53`; beyond that it is rounded, but never back across it.
-/

namespace MiniLua.Number

open Float.Model Float.Model.UnpackedFloat

theorem ofFloat_of_zero {x : Float} {s : Sign} (h : unpacked x = .zero s) :
    ∃ sign, Binary.ofFloat x = ⟨sign, 0, -1074⟩ := by
  unfold unpacked Float.Model.unpack UnpackedFloat.unpack at h
  have hM := toNat_unpackMantissa x.toModel.toBits.toBitVec
  have hE := toNat_unpackExponent x.toModel.toBits.toBitVec
  have hbits : x.toBits.toNat = x.toModel.toBits.toBitVec.toNat := rfl
  simp only [Binary.ofFloat, Nat.pow_eq, hbits]
  generalize x.toModel.toBits.toBitVec = b at *
  dsimp only at h
  split at h
  · split at h <;> cases h
  split at h
  next hzero =>
    split at h
    next hmantissa =>
      have he : b.toNat / 2 ^ 52 % 2 ^ 11 = 0 := by rw [← hE, hzero]; rfl
      have hm : b.toNat % 2 ^ 52 = 0 := by rw [← hM, hmantissa]; rfl
      exact ⟨_, by rw [if_pos he, if_pos he, hm]⟩
    · cases h
  · cases h

/-- The double is the whole number `n`; both zeros are 0. -/
structure IsWhole (x : Float) (n : Int) : Prop where
  integral : isIntegral x = true
  floor : (Binary.ofFloat x).floor = n

/-- What is read of a double that is a whole number. -/
inductive ReadsWhole : UnpackedFloat → Int → Prop where
  | zero (s : Sign) : ReadsWhole (.zero s) 0
  | finite (s : Sign) {m k : Nat} (hm : 0 < m) (filled : m * 2 ^ k.log2 = k * 2 ^ 52) :
      ReadsWhole (.finite s m (k.log2 - 52) hm) (s.apply k)

section

variable {m k : Nat} {e : Int}

theorem filled_log2 (hm : 0 < m) (filled : m * 2 ^ k.log2 = k * 2 ^ 52) :
    0 < k ∧ m.log2 = 52 := by
  have hk : 0 < k := by
    by_contra h
    obtain rfl : k = 0 := by omega
    simp at filled
    omega
  have logs := congrArg Nat.log2 filled
  rw [log2_mul_two_pow hm, log2_mul_two_pow hk] at logs
  exact ⟨hk, by omega⟩

/-- A number below `2 ^ 53`, or `2 ^ 53` itself, fills a mantissa. -/
theorem filled_of_le (hk : 0 < k) (le : k ≤ 2 ^ 53) : ∃ m, 0 < m ∧ m * 2 ^ k.log2 = k * 2 ^ 52 := by
  rcases Nat.lt_or_eq_of_le le with lt | rfl
  · have hlog := (log2_full_mantissa hk lt).1
    refine ⟨k * 2 ^ (52 - k.log2), by positivity, ?_⟩
    rw [Nat.mul_assoc, ← Nat.pow_add]
    congr 2
    omega
  · refine ⟨2 ^ 52, by decide, ?_⟩
    rw [Nat.log2_two_pow, Nat.mul_comm]

/-- The fraction of a double is the whole number `k` only if `k` fills its mantissa. -/
theorem exponent_of_whole (hm : 0 < m) (hlt : m < 2 ^ 53) (canonical : 2 ^ 52 ≤ m ∨ e = -1074)
    (whole : m * 2 ^ e.toNat = k * 2 ^ (-e).toNat) :
    e = k.log2 - 52 ∧ m * 2 ^ k.log2 = k * 2 ^ 52 := by
  have hk : 0 < k := by
    by_contra h
    obtain rfl : k = 0 := by omega
    have : 0 < m * 2 ^ e.toNat := by positivity
    omega
  have logs := congrArg Nat.log2 whole
  rw [log2_mul_two_pow hm, log2_mul_two_pow hk] at logs
  have short : m.log2 ≤ 52 := by
    have := (Nat.log2_lt (Nat.ne_of_gt hm)).mpr hlt
    omega
  have full : m.log2 = 52 := by
    have : e ≠ -1074 := by omega
    have := (Nat.le_log2 (Nat.ne_of_gt hm)).mpr (canonical.resolve_right this)
    omega
  refine ⟨by omega, ?_⟩
  have exponents : k.log2 + (-e).toNat = e.toNat + 52 := by omega
  apply Nat.eq_of_mul_eq_mul_right (Nat.two_pow_pos (-e).toNat)
  calc m * 2 ^ k.log2 * 2 ^ (-e).toNat = m * 2 ^ e.toNat * 2 ^ 52 := by
        rw [Nat.mul_assoc, ← Nat.pow_add, exponents, Nat.pow_add, Nat.mul_assoc]
    _ = k * 2 ^ 52 * 2 ^ (-e).toNat := by rw [whole]; ring

theorem whole_of_filled (filled : m * 2 ^ k.log2 = k * 2 ^ 52) (exponent : e = k.log2 - 52) :
    m * 2 ^ e.toNat = k * 2 ^ (-e).toNat := by
  have exponents : e.toNat + 52 = k.log2 + (-e).toNat := by omega
  apply Nat.eq_of_mul_eq_mul_right (Nat.two_pow_pos 52)
  calc m * 2 ^ e.toNat * 2 ^ 52 = m * 2 ^ k.log2 * 2 ^ (-e).toNat := by
        rw [Nat.mul_assoc, ← Nat.pow_add, exponents, Nat.pow_add, Nat.mul_assoc]
    _ = k * 2 ^ (-e).toNat * 2 ^ 52 := by rw [filled]; ring

/-- The floor of a fraction with nothing below its point. -/
theorem floor_signed_iff (s : Sign) (n : Int) :
    (0 ≤ e ∨ m % 2 ^ (-e).toNat = 0) ∧ Binary.floor ⟨signBit s, m, e⟩ = n ↔
      ∃ k : Nat, n = s.apply k ∧ m * 2 ^ e.toNat = k * 2 ^ (-e).toNat := by
  have signed : (Binary.mk (signBit s) m e).signed = s.apply m := by cases s <;> rfl
  by_cases he : 0 ≤ e
  · have hz : (-e).toNat = 0 := by omega
    rw [Binary.floor, if_pos he, signed]
    simp only [he, true_or, true_and, hz, Nat.pow_zero, Nat.mul_one, Nat.pow_eq]
    constructor
    · rintro rfl
      refine ⟨m * 2 ^ e.toNat, ?_, rfl⟩
      cases s <;> simp [Sign.apply]
    · rintro ⟨k, rfl, rfl⟩
      cases s <;> simp [Sign.apply]
  · have hz : e.toNat = 0 := by omega
    have hpos : 0 < 2 ^ (-e).toNat := by positivity
    rw [Binary.floor, if_neg he, signed]
    simp only [he, false_or, hz, Nat.pow_zero, Nat.mul_one, Nat.pow_eq]
    generalize 2 ^ (-e).toNat = d at *
    have divided (k : Nat) : Int.fdiv (s.apply ((k * d : Nat) : Int)) d = s.apply k := by
      have : s.apply ((k * d : Nat) : Int) = s.apply k * d := by cases s <;> simp [Sign.apply]
      rw [this, Int.mul_fdiv_cancel _ (by omega)]
    constructor
    · rintro ⟨hmod, rfl⟩
      have whole : m = m / d * d := by
        have := Nat.div_add_mod m d
        rw [hmod, Nat.add_zero, Nat.mul_comm] at this
        exact this.symm
      exact ⟨m / d, (congrArg (fun m : Nat => Int.fdiv (s.apply m) d) whole).trans (divided _), whole⟩
    · rintro ⟨k, rfl, rfl⟩
      exact ⟨Nat.mul_mod_left k d, divided k⟩

end

/-- A double is a whole number if it is read as one. -/
theorem isWhole_iff {x : Float} {n : Int} : IsWhole x n ↔ ReadsWhole (unpacked x) n := by
  have isFinite : x.isFinite = (unpacked x).isFinite := rfl
  have unfolded : IsWhole x n ↔ isIntegral x = true ∧ (Binary.ofFloat x).floor = n :=
    ⟨fun h => ⟨h.1, h.2⟩, fun h => ⟨h.1, h.2⟩⟩
  rw [unfolded, isIntegral]
  cases hu : unpacked x with
  | notANumber =>
    simp only [isFinite, hu, UnpackedFloat.isFinite, Bool.false_and, Bool.false_eq_true, false_and,
      false_iff]
    nofun
  | infinity s =>
    simp only [isFinite, hu, UnpackedFloat.isFinite, Bool.false_and, Bool.false_eq_true, false_and,
      false_iff]
    nofun
  | zero s =>
    obtain ⟨sign, hb⟩ := ofFloat_of_zero hu
    have finite : x.isFinite = true := by rw [isFinite, hu]; rfl
    have floor : Binary.floor ⟨sign, 0, -1074⟩ = 0 := by cases sign <;> decide +kernel
    simp only [finite, hb, floor, Nat.zero_mod, Bool.true_and, Bool.or_eq_true, decide_eq_true_eq,
      or_true, true_and]
    constructor
    · rintro rfl
      exact .zero s
    · rintro ⟨⟩
      rfl
  | finite s m e hm =>
    obtain ⟨hb, hlt, hlo, hhi, canonical⟩ := ofFloat_of_finite hu
    have finite : x.isFinite = true := by rw [isFinite, hu]; rfl
    simp only [finite, hb, Nat.pow_eq, Bool.true_and, Bool.or_eq_true, decide_eq_true_eq]
    rw [floor_signed_iff]
    constructor
    · rintro ⟨k, rfl, whole⟩
      obtain ⟨rfl, filled⟩ := exponent_of_whole hm hlt canonical whole
      exact .finite s hm filled
    · intro reads
      cases reads with
      | finite s hm filled => exact ⟨_, rfl, whole_of_filled filled rfl⟩

theorem isWhole_zero : IsWhole 0 0 := isWhole_iff.mpr (.zero .positive)

/-! ## Order -/

theorem compare_mul_right {p : Nat} (hp : 0 < p) (m n : Nat) :
    compare (m * p) (n * p) = compare m n := by
  rcases lt_trichotomy m n with h | rfl | h
  · rw [compare_lt_iff_lt.mpr h, compare_lt_iff_lt.mpr (Nat.mul_lt_mul_of_pos_right h hp)]
  · rw [compare_eq_iff_eq.mpr rfl, compare_eq_iff_eq.mpr rfl]
  · rw [compare_gt_iff_gt.mpr h, compare_gt_iff_gt.mpr (Nat.mul_lt_mul_of_pos_right h hp)]

theorem compare_natCast (k l : Nat) : compare (k : Int) l = compare k l := by
  rcases lt_trichotomy k l with h | rfl | h
  · rw [compare_lt_iff_lt.mpr h, compare_lt_iff_lt.mpr (Int.ofNat_lt.mpr h)]
  · rw [compare_eq_iff_eq.mpr rfl, compare_eq_iff_eq.mpr rfl]
  · rw [compare_gt_iff_gt.mpr h, compare_gt_iff_gt.mpr (Int.ofNat_lt.mpr h)]

theorem compare_neg (a b : Int) : compare (-a) (-b) = (compare a b).swap := by
  rcases lt_trichotomy a b with h | rfl | h
  · rw [compare_lt_iff_lt.mpr h, compare_gt_iff_gt.mpr (Int.neg_lt_neg h)]
    rfl
  · rw [compare_eq_iff_eq.mpr rfl, compare_eq_iff_eq.mpr rfl]
    rfl
  · rw [compare_gt_iff_gt.mpr h, compare_lt_iff_lt.mpr (Int.neg_lt_neg h)]
    rfl

/-- Of two numbers that fill mantissas, exponents decide before mantissas do. -/
theorem compare_filled {m n k l : Nat} (hm : 0 < m) (hn : 0 < n)
    (filled : m * 2 ^ k.log2 = k * 2 ^ 52) (filled' : n * 2 ^ l.log2 = l * 2 ^ 52) :
    (compare ((k.log2 : Int) - 52) (l.log2 - 52)).then (compare m n) = compare k l := by
  obtain ⟨hk, -⟩ := filled_log2 hm filled
  obtain ⟨hl, -⟩ := filled_log2 hn filled'
  have below {i j : Nat} (hj : 0 < j) (h : i.log2 < j.log2) : i < j :=
    calc i < 2 ^ (i.log2 + 1) := Nat.lt_log2_self
      _ ≤ 2 ^ j.log2 := Nat.pow_le_pow_right (by decide) h
      _ ≤ j := Nat.log2_self_le (Nat.ne_of_gt hj)
  rcases lt_trichotomy k.log2 l.log2 with h | h | h
  · have exponents : compare ((k.log2 : Int) - 52) (l.log2 - 52) = .lt :=
      compare_lt_iff_lt.mpr (by omega)
    rw [exponents, compare_lt_iff_lt.mpr (below hl h)]
    rfl
  · have exponents : compare ((k.log2 : Int) - 52) (l.log2 - 52) = .eq :=
      compare_eq_iff_eq.mpr (by omega)
    rw [h] at filled
    rw [exponents]
    change compare m n = _
    rw [← compare_mul_right (Nat.two_pow_pos l.log2), filled, filled',
      compare_mul_right (Nat.two_pow_pos 52)]
  · have exponents : compare ((k.log2 : Int) - 52) (l.log2 - 52) = .gt :=
      compare_gt_iff_gt.mpr (by omega)
    rw [exponents, compare_gt_iff_gt.mpr (below hk h)]
    rfl

theorem ReadsWhole.compare {u v : UnpackedFloat} {a b : Int} (hu : ReadsWhole u a)
    (hv : ReadsWhole v b) : u.compare v = some (compare a b) := by
  cases hu with
  | zero s =>
    cases hv with
    | zero t => rfl
    | finite t hn filled =>
      obtain ⟨hl, -⟩ := filled_log2 hn filled
      cases t with
      | negative => exact congrArg some (compare_gt_iff_gt.mpr (by simp only [Sign.apply]; omega)).symm
      | positive => exact congrArg some (compare_lt_iff_lt.mpr (by simp only [Sign.apply]; omega)).symm
  | finite s hm filled =>
    obtain ⟨hk, -⟩ := filled_log2 hm filled
    cases hv with
    | zero t =>
      cases s with
      | negative => exact congrArg some (compare_lt_iff_lt.mpr (by simp only [Sign.apply]; omega)).symm
      | positive => exact congrArg some (compare_gt_iff_gt.mpr (by simp only [Sign.apply]; omega)).symm
    | finite t hn filled' =>
      obtain ⟨hl, -⟩ := filled_log2 hn filled'
      have magnitudes := compare_filled hm hn filled filled'
      cases s <;> cases t
      · rw [UnpackedFloat.compare, magnitudes, Sign.apply, Sign.apply, compare_neg, compare_natCast]
      · exact congrArg some (compare_lt_iff_lt.mpr (by simp only [Sign.apply]; omega)).symm
      · exact congrArg some (compare_gt_iff_gt.mpr (by simp only [Sign.apply]; omega)).symm
      · rw [UnpackedFloat.compare, magnitudes, Sign.apply, Sign.apply, compare_natCast]

section

variable {x y : Float} {a b : Int}

theorem IsWhole.le_iff (hx : IsWhole x a) (hy : IsWhole y b) : x ≤ y ↔ a ≤ b := by
  have unfolded : x ≤ y ↔ (UnpackedFloat.le (unpacked x) (unpacked y)) = true := decide_eq_true_iff
  rw [unfolded, UnpackedFloat.le, (isWhole_iff.mp hx).compare (isWhole_iff.mp hy), Option.any_some,
    Int.isLE_compare]

theorem IsWhole.lt_iff (hx : IsWhole x a) (hy : IsWhole y b) : x < y ↔ a < b := by
  have unfolded : x < y ↔ (UnpackedFloat.lt (unpacked x) (unpacked y)) = true := decide_eq_true_iff
  rw [unfolded, UnpackedFloat.lt, (isWhole_iff.mp hx).compare (isWhole_iff.mp hy), beq_iff_eq,
    Option.some_inj, compare_lt_iff_lt]

theorem IsWhole.beq_iff (hx : IsWhole x a) (hy : IsWhole y b) : (x == y) = true ↔ a = b := by
  have unfolded : (x == y) = true ↔ (UnpackedFloat.beq (unpacked x) (unpacked y)) = true := Iff.rfl
  rw [unfolded, UnpackedFloat.beq, (isWhole_iff.mp hx).compare (isWhole_iff.mp hy), beq_iff_eq,
    Option.some_inj, compare_eq_iff_eq]

end

/-! ## Rounding -/

/-- A mantissa of at least 53 bits is rounded to 53 bits, and its exponent follows. -/
theorem roundWithAccuracy_full (s : Sign) {m : Nat} {e : Int} (full : 52 ≤ m.log2)
    (low : -1074 ≤ totalExponent m e - 53) :
    ∃ n f hn, roundWithAccuracy Format.binary64 s m e .exact = .finite s n f hn ∧
      n.log2 = 52 ∧ totalExponent m e - 53 ≤ f ∧ f ≤ totalExponent m e - 52 := by
  simp only [totalExponent] at low ⊢
  obtain ⟨k, hk⟩ : ∃ k, m.log2 = 52 + k := ⟨m.log2 - 52, by omega⟩
  have shift {m k : Nat} {e : Int} (hk : max (totalExponent m e - 53) (-1074) - e = k) :
      shiftToTargetExponent Format.binary64 m e .exact =
        ((ExtendedMantissa.mk m false false) >>> k, e + k) := by
    rw [shiftToTargetExponent_eq, hk, Int.toNat_natCast]
  have first : shiftToTargetExponent Format.binary64 m e .exact =
      ((ExtendedMantissa.mk m false false) >>> k, e + k) :=
    shift (by simp only [totalExponent]; omega)
  have hm : m ≠ 0 := by
    rintro rfl
    simp at full
  have quotient : 2 ^ 52 ≤ m / 2 ^ k ∧ m / 2 ^ k < 2 ^ 53 := by
    have lower := Nat.log2_self_le hm
    have upper := Nat.lt_log2_self (n := m)
    rw [hk, Nat.pow_add] at lower
    rw [hk, show 52 + k + 1 = 53 + k by omega, Nat.pow_add, Nat.mul_comm] at upper
    exact ⟨(Nat.le_div_iff_mul_le (Nat.two_pow_pos k)).mpr lower, Nat.div_lt_of_lt_mul upper⟩
  generalize hem : (ExtendedMantissa.mk m false false) >>> k = em at first
  have mantissa : em.mantissa = m / 2 ^ k := by rw [← hem, mantissa_shiftRight]
  have atLeast := le_roundedMantissa em
  have atMost := roundedMantissa_le em
  generalize hr : em.roundedMantissa = r at atLeast atMost
  rw [mantissa] at atLeast atMost
  simp only [roundWithAccuracy, first, hr]
  rcases Nat.lt_or_eq_of_le (show r ≤ 2 ^ 53 by omega) with fits | carried
  · have bits : r.log2 = 52 := (Nat.log2_eq_iff (by omega)).mpr ⟨by omega, fits⟩
    have second : shiftToTargetExponent Format.binary64 r (e + k) .exact =
        ((ExtendedMantissa.mk r false false) >>> 0, e + k + (0 : Nat)) :=
      shift (by simp only [totalExponent]; omega)
    have unshifted : ((ExtendedMantissa.mk r false false) >>> 0).mantissa = r := rfl
    simp only [second, unshifted]
    rw [dif_neg (by omega)]
    exact ⟨r, _, by omega, rfl, bits, by omega, by omega⟩
  · have bits : r.log2 = 53 := by rw [carried, Nat.log2_two_pow]
    have second : shiftToTargetExponent Format.binary64 r (e + k) .exact =
        ((ExtendedMantissa.mk r false false) >>> 1, e + k + (1 : Nat)) :=
      shift (by simp only [totalExponent]; omega)
    have halved : ((ExtendedMantissa.mk r false false) >>> 1).mantissa = 2 ^ 52 := by
      rw [mantissa_shiftRight, carried]
      rfl
    simp only [second, halved]
    rw [dif_neg (by decide)]
    exact ⟨2 ^ 52, _, by decide, rfl, Nat.log2_two_pow, by omega, by omega⟩

theorem unpack_pack_overflow {s : Sign} {m : Nat} {e : Int} (hm : 0 < m) (high : 971 < e) :
    (Float.Model.pack (.finite s m e hm)).unpack = .infinity s := by
  have hbias : Format.binary64.exponentBias = 1023 := by decide
  change UnpackedFloat.unpack Format.binary64
    (UnpackedFloat.pack Format.binary64 (.finite s m e hm)) = _
  simp only [UnpackedFloat.pack, hbias]
  rw [if_pos (by change 2 ^ 11 ≤ (e + 1023 + 52).toNat + 1; omega)]
  cases s <;> rfl

/-- Rounding a number that fills a mantissa, however it is put together. -/
theorem round_filled (s : Sign) {n j m k : Nat} (hm : 0 < m)
    (filled : m * 2 ^ k.log2 = k * 2 ^ 52) (value : n * 2 ^ j = k * 2 ^ 52) :
    UnpackedFloat.round Format.binary64 s n (j - 52) = .finite s m (k.log2 - 52) hm := by
  obtain ⟨hk, full⟩ := filled_log2 hm filled
  have hbits : Format.binary64.mantissaBits = 53 := by decide
  have hmin : Format.binary64.minExponent = -1074 := by decide
  have hn : 0 < n := by
    by_contra h
    obtain rfl : n = 0 := by omega
    omega
  have logs := congrArg Nat.log2 value
  rw [log2_mul_two_pow hn, log2_mul_two_pow hk] at logs
  have target : Format.binary64.targetExponent (totalExponent n (j - 52)) = k.log2 - 52 := by
    simp only [Format.targetExponent, totalExponent, hbits, hmin]
    omega
  have same : m * 2 ^ k.log2 = n * 2 ^ j := filled.trans value.symm
  simp only [UnpackedFloat.round, decreaseExponent, target, Nat.shiftLeft_eq]
  rcases Nat.le_total k.log2 j with above | below
  · obtain ⟨d, rfl⟩ : ∃ d, j = k.log2 + d := ⟨j - k.log2, by omega⟩
    have shift : (((k.log2 + d : Nat) : Int) - 52 - (k.log2 - 52)).toNat = d := by omega
    have exponent : ((k.log2 + d : Nat) : Int) - 52 - d = k.log2 - 52 := by omega
    obtain rfl : m = n * 2 ^ d := by
      apply Nat.eq_of_mul_eq_mul_right (Nat.two_pow_pos k.log2)
      rw [same, Nat.pow_add]
      ring
    have exact := roundWithAccuracy_exact s (k := 0) (e := (k.log2 : Int) - 52) hm full (by omega)
    rw [shift, exponent]
    simpa using exact
  · obtain ⟨d, hd⟩ : ∃ d, k.log2 = j + d := ⟨k.log2 - j, by omega⟩
    have shift : ((j : Int) - 52 - (k.log2 - 52)).toNat = 0 := by omega
    have exponent : (j : Int) - 52 + d = k.log2 - 52 := by omega
    obtain rfl : n = m * 2 ^ d := by
      apply Nat.eq_of_mul_eq_mul_right (Nat.two_pow_pos j)
      rw [← same, hd, Nat.pow_add]
      ring
    have exact := roundWithAccuracy_exact s (k := d) (e := (j : Int) - 52) hm full (by omega)
    rw [exponent] at exact
    rw [shift]
    simpa using exact

/-! ## Sums -/

/-- What a sum may be rounded to: itself up to `2 ^ 53`, and nothing nearer to zero beyond. -/
structure RoundsTo (c r : Int) : Prop where
  exact : c.natAbs ≤ 2 ^ 53 → r = c
  above : 2 ^ 53 ≤ c → 2 ^ 53 ≤ r
  below : c ≤ -2 ^ 53 → r ≤ -2 ^ 53

theorem RoundsTo.refl (c : Int) : RoundsTo c c := ⟨fun _ => rfl, id, id⟩

theorem readsWhole_round (s : Sign) {n j k : Nat} (hk : 0 < k) (lt : k < 2 ^ 54)
    (value : n * 2 ^ j = k * 2 ^ 52) (hj : j ≤ 52) :
    ∃ l : Nat, ReadsWhole (Float.Model.pack
        (UnpackedFloat.round Format.binary64 s n (j - 52))).unpack (s.apply l) ∧
      (k ≤ 2 ^ 53 → l = k) ∧ (2 ^ 53 ≤ k → 2 ^ 53 ≤ l) := by
  by_cases small : k ≤ 2 ^ 53
  · obtain ⟨m, hm, filled⟩ := filled_of_le hk small
    have full := (filled_log2 hm filled).2
    have bits : k.log2 < 54 := (Nat.log2_lt (Nat.ne_of_gt hk)).mpr lt
    refine ⟨k, ?_, fun _ => rfl, id⟩
    rw [round_filled s hm filled value, unpack_pack_normal hm full (by omega) (by omega)]
    exact .finite s hm filled
  · have hn : 0 < n := by
      by_contra h
      obtain rfl : n = 0 := by omega
      omega
    have logs := congrArg Nat.log2 value
    rw [log2_mul_two_pow hn, log2_mul_two_pow hk] at logs
    have bits : k.log2 = 53 := (Nat.log2_eq_iff (Nat.ne_of_gt hk)).mpr ⟨by omega, lt⟩
    have hbits : Format.binary64.mantissaBits = 53 := by decide
    have hmin : Format.binary64.minExponent = -1074 := by decide
    have target : Format.binary64.targetExponent (totalExponent n (j - 52)) = 1 := by
      simp only [Format.targetExponent, totalExponent, hbits, hmin]
      omega
    have shift : ((j : Int) - 52 - 1).toNat = 0 := by omega
    obtain ⟨m, f, hm, rounded, full, atLeast, atMost⟩ :=
      roundWithAccuracy_full s (m := n) (e := (j : Int) - 52) (by omega)
        (by simp only [totalExponent]; omega)
    simp only [totalExponent] at atLeast atMost
    obtain ⟨d, rfl⟩ : ∃ d : Nat, f = d := ⟨f.toNat, by omega⟩
    have logs' := log2_mul_two_pow hm d
    have exponent : (d : Int) = (m * 2 ^ d).log2 - 52 := by omega
    have whole : ReadsWhole (.finite s m d hm) (s.apply (m * 2 ^ d : Nat)) := by
      rw [exponent]
      refine .finite s hm ?_
      rw [logs', full, Nat.mul_assoc, ← Nat.pow_add, Nat.add_comm]
    refine ⟨m * 2 ^ d, ?_, fun h => absurd h small, fun _ => ?_⟩
    · simp only [UnpackedFloat.round, decreaseExponent, target, shift, Nat.shiftLeft_zero,
        Nat.cast_zero, Int.sub_zero, rounded]
      rw [unpack_pack_normal hm full (by omega) (by omega)]
      exact whole
    · have : 2 ^ 52 ≤ m := (Nat.le_log2 (Nat.ne_of_gt hm)).mp (by omega)
      calc 2 ^ 53 = 2 ^ 52 * 2 ^ 1 := by decide
        _ ≤ m * 2 ^ d := Nat.mul_le_mul this (Nat.pow_le_pow_right (by decide) (by omega))

theorem readsWhole_normalize {M c : Int} {j : Nat} (value : M * 2 ^ j = c * 2 ^ 52) (hj : j ≤ 52)
    (lt : c.natAbs < 2 ^ 54) :
    ∃ r, ReadsWhole (Float.Model.pack
        (UnpackedFloat.normalize Format.binary64 M (j - 52) .positive)).unpack r ∧
      RoundsTo c r := by
  have hpos : (0 : Int) < 2 ^ j := by positivity
  rcases lt_trichotomy M 0 with negative | rfl | positive
  · have hc : c < 0 := by nlinarith
    have magnitudes : (-M).toNat * 2 ^ j = c.natAbs * 2 ^ 52 := by
      zify
      rw [Int.toNat_of_nonneg (by omega), abs_of_neg hc]
      linarith
    obtain ⟨l, reads, exact, beyond⟩ := readsWhole_round .negative (by omega) lt magnitudes hj
    refine ⟨-l, ?_, ⟨fun h => ?_, fun h => ?_, fun h => ?_⟩⟩
    · simpa only [UnpackedFloat.normalize, compare_lt_iff_lt.mpr negative, Sign.apply]
        using reads
    · have := exact h
      omega
    · omega
    · have := beyond (by omega)
      omega
  · obtain rfl : c = 0 := by omega
    have zero : (Float.Model.pack (UnpackedFloat.normalize Format.binary64 0 ((j : Int) - 52)
        .positive)).unpack = .zero .positive := by
      simp only [UnpackedFloat.normalize, show compare (0 : Int) 0 = .eq by decide]
      rfl
    exact ⟨0, zero ▸ .zero .positive, .refl 0⟩
  · have hc : 0 < c := by nlinarith
    have magnitudes : M.toNat * 2 ^ j = c.natAbs * 2 ^ 52 := by
      zify
      rw [Int.toNat_of_nonneg (by omega), abs_of_pos hc]
      exact value
    obtain ⟨l, reads, exact, beyond⟩ := readsWhole_round .positive (by omega) lt magnitudes hj
    refine ⟨l, ?_, ⟨fun h => ?_, fun h => ?_, fun h => ?_⟩⟩
    · simpa only [UnpackedFloat.normalize, compare_gt_iff_gt.mpr positive, Sign.apply]
        using reads
    · have := exact h
      omega
    · have := beyond (by omega)
      omega
    · omega

/-- A mantissa brought to a smaller exponent still makes up its number. -/
theorem decreased_filled (s : Sign) {m k j : Nat} (filled : m * 2 ^ k.log2 = k * 2 ^ 52)
    (le : j ≤ k.log2) :
    s.apply (decreaseExponent m ((k.log2 : Int) - 52) ((j : Int) - 52)).1 * 2 ^ j =
      s.apply k * 2 ^ 52 := by
  have shift : ((k.log2 : Int) - 52 - (j - 52)).toNat = k.log2 - j := by omega
  have magnitudes : m * 2 ^ (k.log2 - j) * 2 ^ j = k * 2 ^ 52 := by
    rw [Nat.mul_assoc, ← Nat.pow_add, Nat.sub_add_cancel le, filled]
  have lifted : ((m * 2 ^ (k.log2 - j) : Nat) : Int) * 2 ^ j = k * 2 ^ 52 := by
    exact_mod_cast magnitudes
  simp only [decreaseExponent, shift, Nat.shiftLeft_eq]
  cases s with
  | negative => simp only [Sign.apply, Int.neg_mul, lifted]
  | positive => exact lifted

theorem ReadsWhole.repacked {u : UnpackedFloat} {a : Int} (reads : ReadsWhole u a)
    (lt : a.natAbs < 2 ^ 53) : (Float.Model.pack u).unpack = u := by
  cases reads with
  | zero s => cases s <;> rfl
  | finite s hm filled =>
    obtain ⟨hk, full⟩ := filled_log2 hm filled
    rename_i m k
    have magnitude : k < 2 ^ 53 := by cases s <;> simpa [Sign.apply] using lt
    have := (log2_full_mantissa hk magnitude).1
    exact unpack_pack_normal hm full (by omega) (by omega)

theorem ReadsWhole.add {u v : UnpackedFloat} {a b : Int} (hu : ReadsWhole u a)
    (hv : ReadsWhole v b) (ha : a.natAbs < 2 ^ 53) (hb : b.natAbs < 2 ^ 53) :
    ∃ r, ReadsWhole (Float.Model.pack (UnpackedFloat.add Format.binary64 u v)).unpack r ∧
      RoundsTo (a + b) r := by
  have hu' := hu.repacked ha
  have hv' := hv.repacked hb
  cases hu with
  | zero s =>
    cases hv with
    | zero t => cases s <;> cases t <;> exact ⟨0, .zero _, .refl 0⟩
    | finite t hn filled' =>
      refine ⟨_, ?_, .refl _⟩
      change ReadsWhole (Float.Model.pack (.finite t _ _ hn)).unpack _
      rw [hv', Int.zero_add]
      exact .finite t hn filled'
  | finite s hm filled =>
    cases hv with
    | zero t =>
      refine ⟨_, ?_, .refl _⟩
      change ReadsWhole (Float.Model.pack (.finite s _ _ hm)).unpack _
      rw [hu', Int.add_zero]
      exact .finite s hm filled
    | finite t hn filled' =>
      rename_i m k n l
      have smaller : min ((k.log2 : Int) - 52) ((l.log2 : Int) - 52) = (min k.log2 l.log2 : Nat) - 52 := by
        omega
      have hk := (filled_log2 hm filled).1
      have magnitude : k < 2 ^ 53 := by cases s <;> simpa [Sign.apply] using ha
      have := (log2_full_mantissa hk magnitude).1
      have value := congrArg₂ (· + ·)
        (decreased_filled s filled (Nat.min_le_left k.log2 l.log2))
        (decreased_filled t filled' (Nat.min_le_right k.log2 l.log2))
      rw [← Int.add_mul, ← Int.add_mul, ← smaller] at value
      have rounded := readsWhole_normalize value (by omega) (by omega)
      rw [← smaller] at rounded
      exact rounded

/-- The sum of two doubles that are whole numbers below `2 ^ 53`. -/
theorem IsWhole.add {x y : Float} {a b : Int} (hx : IsWhole x a) (hy : IsWhole y b)
    (ha : a.natAbs < 2 ^ 53) (hb : b.natAbs < 2 ^ 53) :
    ∃ r, IsWhole (x + y) r ∧ RoundsTo (a + b) r := by
  obtain ⟨r, reads, rounds⟩ := (isWhole_iff.mp hx).add (isWhole_iff.mp hy) ha hb
  exact ⟨r, isWhole_iff.mpr reads, rounds⟩

end MiniLua.Number

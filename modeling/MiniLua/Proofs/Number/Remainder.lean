import MiniLua.Proofs.Number.Division
import MiniLua.Value.Operator

/-!
# Remainders of whole numbers

The remainder of two whole numbers below `2 ^ 53` fills a mantissa again and is put together from
its bits without rounding. It has the sign of the dividend; where that of the divisor differs, the
divisor is added, which is exact, too. So the two ways to divide agree: the remainder is what floor
division leaves.
-/

namespace MiniLua.Number

open Float.Model Float.Model.UnpackedFloat

/-! ## Doubles from their bits -/

theorem signBit_injective : Function.Injective signBit := by
  intro s t same
  cases s <;> cases t <;> simp [signBit] at same ⊢

theorem unpack_of_fields {b : BitVec 64} {s : Sign} {m biased : Nat} (hm : 0 < m)
    (full : m.log2 = 52) (low : 0 < biased) (high : biased < 2047)
    (sign : signBit s = decide (2 ^ 63 ≤ b.toNat))
    (exponent : b.toNat / 2 ^ 52 % 2 ^ 11 = biased) (mantissa : b.toNat % 2 ^ 52 = m % 2 ^ 52) :
    UnpackedFloat.unpack Format.binary64 b = .finite s m ((biased : Int) - 1075) hm := by
  obtain ⟨lower, upper⟩ := (Nat.log2_eq_iff (Nat.ne_of_gt hm)).mp full
  rw [← toNat_unpackMantissa] at mantissa
  rw [← toNat_unpackExponent] at exponent
  rw [← signBit_ofBitVec] at sign
  have hbias : Format.binary64.exponentBias = 1023 := by decide
  have finite : @unpackExponent Format.binary64 b ≠ -1#11 := by
    intro allOnes
    rw [allOnes] at exponent
    simp at exponent
    omega
  have normal : @unpackExponent Format.binary64 b ≠ 0#11 := by
    intro zero
    rw [zero] at exponent
    simp at exponent
    omega
  have implicit : (1#1 ++ @unpackMantissa Format.binary64 b).toNat = m := by
    rw [toNat_implicit, mantissa]
    omega
  simp only [UnpackedFloat.unpack]
  rw [if_neg finite, if_neg normal]
  simp only [implicit, exponent, hbias, signBit_injective sign]
  congr 1

/-- A double from the bits of a full mantissa and of the field for its exponent. -/
theorem unpacked_ofBits (s : Sign) {m biased : Nat} (hm : 0 < m) (full : m.log2 = 52)
    (low : 0 < biased) (high : biased < 2047) :
    unpacked (Float.ofBits (UInt64.ofNat
      ((if signBit s then 2 ^ 63 else 0) + biased * 2 ^ 52 + m % 2 ^ 52))) =
      .finite s m ((biased : Int) - 1075) hm := by
  generalize hn : (if signBit s then 2 ^ 63 else 0) + biased * 2 ^ 52 + m % 2 ^ 52 = n
  have sign : signBit s = decide (2 ^ 63 ≤ n) := by
    rw [← hn]
    cases signBit s <;> simp <;> omega
  have fields : n < 2 ^ 64 ∧ n / 2 ^ 52 % 2 ^ 11 = biased ∧ n % 2 ^ 52 = m % 2 ^ 52 := by
    rw [← hn]
    split <;> omega
  have value : (UInt64.ofNat n).toBitVec.toNat = n := by
    simp
    omega
  rw [← value] at sign fields
  have read := unpack_of_fields hm full low high sign fields.2.1 fields.2.2
  change (Float.Model.pack (UnpackedFloat.unpack Format.binary64
    (UInt64.ofNat n).toBitVec)).unpack = _
  rw [read]
  exact unpack_pack_normal hm full (by omega) (by omega)

theorem isWhole_toFloat_zero (negative : Bool) (e : Int) :
    IsWhole (Binary.toFloat ⟨negative, 0, e⟩) 0 := by
  have zero : ∃ s, unpacked (Float.ofBits (UInt64.ofNat (if negative then 2 ^ 63 else 0))) =
      .zero s := by
    cases negative
    · exact ⟨.positive, rfl⟩
    · exact ⟨.negative, rfl⟩
  obtain ⟨s, zero⟩ := zero
  rw [isWhole_iff, Binary.toFloat, if_pos rfl]
  simp only [Nat.pow_eq, zero]
  exact .zero s

/-- A fraction that is the whole number `k`, over a unit that leaves its mantissa short, has the
double of `k`. -/
theorem isWhole_toFloat (s : Sign) {m k g : Nat} (value : m * 2 ^ g = k * 2 ^ 52)
    (short : k.log2 ≤ g) (hg : g ≤ 52) :
    IsWhole (Binary.toFloat ⟨signBit s, m, (g : Int) - 52⟩) (s.apply k) := by
  by_cases hm : m = 0
  · subst hm
    obtain rfl : k = 0 := by omega
    have zero : s.apply ((0 : Nat) : Int) = 0 := by cases s <;> rfl
    rw [zero]
    exact isWhole_toFloat_zero _ _
  have hm := Nat.pos_of_ne_zero hm
  have hk : 0 < k := by
    have : 0 < m * 2 ^ g := by positivity
    omega
  have logs := congrArg Nat.log2 value
  rw [log2_mul_two_pow hm, log2_mul_two_pow hk] at logs
  have shift : min (52 - m.log2) ((g : Int) - 52 + 1074).toNat = 52 - m.log2 := by omega
  have full : (m * 2 ^ (52 - m.log2)).log2 = 52 := by
    rw [log2_mul_two_pow hm]
    omega
  have positive : 0 < m * 2 ^ (52 - m.log2) := by positivity
  have normal : ¬ m * 2 ^ (52 - m.log2) < 2 ^ 52 := by
    rw [← Nat.log2_lt (Nat.ne_of_gt positive), full]
    decide
  have biased : ((g : Int) - 52 + 1074).toNat - (52 - m.log2) + 1 = k.log2 + 1023 := by omega
  have read := unpacked_ofBits s positive full (show 0 < k.log2 + 1023 by omega) (by omega)
  have exponent : ((k.log2 + 1023 : Nat) : Int) - 1075 = k.log2 - 52 := by omega
  rw [exponent] at read
  have total : 52 - m.log2 + k.log2 = g := by omega
  rw [isWhole_iff, Binary.toFloat, if_neg (Nat.ne_of_gt hm)]
  simp only [Nat.pow_eq]
  rw [shift, if_neg normal, biased, read]
  refine .finite s positive ?_
  rw [Nat.mul_assoc, ← Nat.pow_add, total, value]

/-! ## Remainders -/

section

variable {x y : Float} {a b : Int}

theorem remainder_filled (s t : Sign) {m p k l : Nat} (hm : 0 < m) (hp : 0 < p)
    (filled : m * 2 ^ k.log2 = k * 2 ^ 52) (filled' : p * 2 ^ l.log2 = l * 2 ^ 52) :
    ∃ r g : Nat, Binary.remainder ⟨signBit s, m, k.log2 - 52⟩ ⟨signBit t, p, l.log2 - 52⟩ =
        ⟨signBit s, r, (g : Int) - 52⟩ ∧
      r * 2 ^ g = k % l * 2 ^ 52 ∧ (k % l).log2 ≤ g ∧ g ≤ k.log2 := by
  obtain ⟨hk, -⟩ := filled_log2 hm filled
  obtain ⟨hl, -⟩ := filled_log2 hp filled'
  have common : min ((k.log2 : Int) - 52) (l.log2 - 52) = (min k.log2 l.log2 : Nat) - 52 := by omega
  generalize hg : min k.log2 l.log2 = g at common
  have left : m * 2 ^ (k.log2 - g) * 2 ^ g = k * 2 ^ 52 := by
    rw [Nat.mul_assoc, ← Nat.pow_add, Nat.sub_add_cancel (by omega), filled]
  have right : p * 2 ^ (l.log2 - g) * 2 ^ g = l * 2 ^ 52 := by
    rw [Nat.mul_assoc, ← Nat.pow_add, Nat.sub_add_cancel (by omega), filled']
  have down : ((k.log2 : Int) - 52 - (g - 52)).toNat = k.log2 - g := by omega
  have down' : ((l.log2 : Int) - 52 - (g - 52)).toNat = l.log2 - g := by omega
  refine ⟨m * 2 ^ (k.log2 - g) % (p * 2 ^ (l.log2 - g)), g, ?_, ?_, ?_, by omega⟩
  · simp only [Binary.remainder, common, down, down', Nat.pow_eq]
  · rw [← Nat.mul_mod_mul_right, left, right, Nat.mul_mod_mul_right]
  · have mono {i j : Nat} (le : i ≤ j) : i.log2 ≤ j.log2 := by
      rw [Nat.log2_eq_log_two, Nat.log2_eq_log_two]
      exact Nat.log_mono_right le
    have atMost := mono (Nat.mod_le k l)
    have atMost' := mono (Nat.mod_lt k hl).le
    omega

theorem tmod_apply (s t : Sign) (k l : Nat) :
    Int.tmod (s.apply k) (t.apply l) = s.apply (k % l : Nat) := by
  cases s <;> cases t <;> simp [Sign.apply, Int.tmod_eq_emod_of_nonneg]

/-- The remainder that has the sign of the dividend. -/
theorem IsWhole.truncMod (hx : IsWhole x a) (hy : IsWhole y b) (ha : a.natAbs < 2 ^ 53)
    (nonzero : b ≠ 0) : IsWhole (truncMod x y) (a.tmod b) := by
  have reads := isWhole_iff.mp hx
  have reads' := isWhole_iff.mp hy
  have noInf : y.isInf = (unpacked y).isInf := rfl
  generalize hv : unpacked y = v at reads' noInf
  cases reads' with
  | zero t => exact absurd rfl nonzero
  | @finite t p l hp filled' =>
    have read' := (ofFloat_of_finite hv).1
    have atMost : p ≠ 0 := Nat.ne_of_gt hp
    rw [Number.truncMod, noInf]
    simp only [UnpackedFloat.isInf, Bool.false_eq_true, if_false]
    generalize hu : unpacked x = u at reads
    cases reads with
    | zero s =>
      obtain ⟨sign, read⟩ := ofFloat_of_zero hu
      rw [read, Int.zero_tmod, Binary.remainder]
      simp only [Nat.zero_mul, Nat.zero_mod]
      exact isWhole_toFloat_zero _ _
    | @finite s m k hm filled =>
      have hk : k < 2 ^ 53 := by cases s <;> simpa [Sign.apply] using ha
      have short := (log2_full_mantissa (filled_log2 hm filled).1 hk).1
      obtain ⟨r, g, rest, value, small, below⟩ := remainder_filled s t hm hp filled filled'
      rw [(ofFloat_of_finite hu).1, read', rest, tmod_apply]
      exact isWhole_toFloat s value small (by omega)

theorem IsWhole.finite (hx : IsWhole x a) : x.isInf = false ∧ x.isNaN = false := by
  have inf : x.isInf = (unpacked x).isInf := rfl
  have nan : x.isNaN = (unpacked x).isNaN := rfl
  rw [inf, nan]
  have reads := isWhole_iff.mp hx
  generalize unpacked x = u at reads
  cases reads with
  | zero s => exact ⟨rfl, rfl⟩
  | finite s hm filled => exact ⟨rfl, rfl⟩

/-- The remainder with the sign of the divisor, from the one with the sign of the dividend. -/
theorem fmod_of_tmod (a b : Int) :
    a.fmod b = if a.tmod b ≠ 0 ∧ (a.tmod b < 0 ↔ 0 < b) then a.tmod b + b else a.tmod b := by
  have divides : b ∣ a ↔ a.tmod b = 0 := Int.dvd_iff_tmod_eq_zero
  rw [Int.fmod_eq_tmod]
  rcases le_or_gt 0 a with nonneg | negative
  · have := Int.tmod_nonneg b nonneg
    split_ifs <;> omega
  · have := Int.tmod_nonneg b (Int.neg_nonneg.mpr negative.le)
    rw [Int.neg_tmod] at this
    split_ifs <;> omega

/-- The remainder of whole numbers below `2 ^ 53` is exact and takes the sign of the divisor. -/
theorem IsWhole.mod (hx : IsWhole x a) (hy : IsWhole y b) (ha : a.natAbs < 2 ^ 53)
    (hb : b.natAbs < 2 ^ 53) (nonzero : b ≠ 0) : IsWhole (mod x y) (a.fmod b) := by
  have rest := hx.truncMod hy ha nonzero
  have divisor : (y == 0) = false := by
    rw [Bool.eq_false_iff, Ne, hy.beq_iff isWhole_zero]
    exact nonzero
  have size : (a.tmod b).natAbs < b.natAbs := by
    rw [Int.natAbs_tmod]
    exact Nat.mod_lt _ (Int.natAbs_pos.mpr nonzero)
  rw [Number.mod, divisor, hx.finite.1, hx.finite.2, hy.finite.2, fmod_of_tmod]
  simp only [Bool.or_false, Bool.false_eq_true, if_false]
  have adjusts : (Number.truncMod x y != 0 &&
      decide (Number.truncMod x y < 0) != decide (y < 0)) = true ↔
      a.tmod b ≠ 0 ∧ (a.tmod b < 0 ↔ 0 < b) := by
    have zero : (Number.truncMod x y == 0) = decide (a.tmod b = 0) := by
      rw [Bool.eq_iff_iff, rest.beq_iff isWhole_zero, decide_eq_true_iff]
    have sign : decide (Number.truncMod x y < 0) = decide (a.tmod b < 0) :=
      decide_eq_decide.mpr (rest.lt_iff isWhole_zero)
    have sign' : decide (y < 0) = decide (b < 0) := decide_eq_decide.mpr (hy.lt_iff isWhole_zero)
    rw [bne, zero, sign, sign']
    simp
    omega
  by_cases opposite : a.tmod b ≠ 0 ∧ (a.tmod b < 0 ↔ 0 < b)
  · rw [if_pos (adjusts.mpr opposite), if_pos opposite]
    obtain ⟨r, whole, rounds⟩ := rest.add hy (by omega) hb
    rwa [rounds.exact (by omega)] at whole
  · rw [if_neg (adjusts.not.mpr opposite), if_neg opposite]
    exact rest

end

/-! ## Division with a remainder -/

/-- Dividing `a` by `b` and rounding down gives `q` and leaves `r`. -/
structure Divides (a b q r : Int) : Prop where
  floor : q = ⌊(a : ℚ) / b⌋
  rest : r = a - b * ⌊(a : ℚ) / b⌋
  whole : a = q * b + r
  sign : r = 0 ∨ r.sign = b.sign
  small : |r| < |b|

/-- Where the remainder lies. -/
theorem fmod_between (a : Int) {b : Int} (nonzero : b ≠ 0) :
    (0 ≤ a.fmod b ∧ a.fmod b < b) ∨ (b < a.fmod b ∧ a.fmod b ≤ 0) := by
  rcases lt_or_gt_of_ne nonzero with negative | positive
  · exact .inr ((Int.fdiv_fmod_unique' negative).mp ⟨rfl, rfl⟩).2
  · exact .inl ((Int.fdiv_fmod_unique positive).mp ⟨rfl, rfl⟩).2

theorem floor_div (a : Int) {b : Int} (nonzero : b ≠ 0) : ⌊(a : ℚ) / b⌋ = a.fdiv b := by
  have divisor : (b : ℚ) ≠ 0 := Int.cast_ne_zero.mpr nonzero
  have whole : (a : ℚ) = a.fdiv b * b + a.fmod b := by
    exact_mod_cast (Int.fdiv_mul_add_fmod a b).symm
  have split : (a : ℚ) / b = a.fdiv b + (a.fmod b : ℚ) / b := by
    rw [div_eq_iff divisor, add_mul, div_mul_cancel₀ _ divisor, whole]
  rw [split, Int.floor_intCast_add, add_eq_left, Int.floor_eq_zero_iff, Set.mem_Ico]
  rcases fmod_between a nonzero with ⟨lower, upper⟩ | ⟨lower, upper⟩
  · have positive : (0 : ℚ) < b := by exact_mod_cast lower.trans_lt upper
    refine ⟨div_nonneg (by exact_mod_cast lower) positive.le, ?_⟩
    rw [div_lt_one positive]
    exact_mod_cast upper
  · have negative : (b : ℚ) < 0 := by exact_mod_cast lower.trans_le upper
    refine ⟨div_nonneg_of_nonpos (by exact_mod_cast upper) negative.le, ?_⟩
    rw [div_lt_one_of_neg negative]
    exact_mod_cast lower

theorem divides_fdiv (a : Int) {b : Int} (nonzero : b ≠ 0) :
    Divides a b (a.fdiv b) (a.fmod b) := by
  have floor := floor_div a nonzero
  refine ⟨floor.symm, ?_, (Int.fdiv_mul_add_fmod a b).symm, ?_, ?_⟩
  · rw [floor, Int.fmod_def]
  · rcases fmod_between a nonzero with ⟨lower, upper⟩ | ⟨lower, upper⟩
    · rcases lower.eq_or_lt with zero | positive
      · exact .inl zero.symm
      · exact .inr (by rw [Int.sign_eq_one_of_pos positive,
          Int.sign_eq_one_of_pos (positive.trans upper)])
    · rcases upper.eq_or_lt with zero | negative
      · exact .inl zero
      · exact .inr (by rw [Int.sign_eq_neg_one_of_neg negative,
          Int.sign_eq_neg_one_of_neg (lower.trans negative)])
  · rcases fmod_between a nonzero with ⟨lower, upper⟩ | ⟨lower, upper⟩
    · rwa [abs_of_nonneg lower, abs_of_pos (lower.trans_lt upper)]
    · rw [abs_of_nonpos upper, abs_of_neg (lower.trans_le upper)]
      exact Int.neg_lt_neg lower

end MiniLua.Number

namespace MiniLua

open Number

/-- Floor division and remainder of numbers that are whole numbers below `2 ^ 53` divide these with
a remainder, exactly. -/
theorem arith_divides {x y : Float} {a b : Int} (hx : IsWhole x a) (hy : IsWhole y b)
    (ha : |a| < 2 ^ 53) (hb : |b| < 2 ^ 53) (nonzero : b ≠ 0) :
    ∃ u v q r, Value.arith .floorDiv (.number x) (.number y) = .ok (.number u) ∧
      Value.arith .mod (.number x) (.number y) = .ok (.number v) ∧
      IsWhole u q ∧ IsWhole v r ∧ Divides a b q r := by
  rw [Int.abs_eq_natAbs] at ha hb
  have ha' : a.natAbs < 2 ^ 53 := by omega
  have hb' : b.natAbs < 2 ^ 53 := by omega
  exact ⟨_, _, _, _, rfl, rfl, hx.floorDiv hy ha' hb' nonzero, hx.mod hy ha' hb' nonzero,
    divides_fdiv a nonzero⟩

/-- A quotient as near to a whole number as there is: the remainder is 1, the divisor the largest. -/
theorem arith_divides_edge :
    ∃ u v, Value.arith .floorDiv (.number (-9007199254740990)) (.number 9007199254740991) =
        .ok (.number u) ∧
      Value.arith .mod (.number (-9007199254740990)) (.number 9007199254740991) =
        .ok (.number v) ∧
      IsWhole u (-1) ∧ IsWhole v 1 := by
  have dividend : IsWhole (-9007199254740990) (-9007199254740990) :=
    ⟨by decide +kernel, by decide +kernel⟩
  have divisor : IsWhole 9007199254740991 9007199254740991 :=
    ⟨by decide +kernel, by decide +kernel⟩
  obtain ⟨u, v, q, r, quotient, remainder, hu, hv, divides⟩ :=
    arith_divides dividend divisor (by decide) (by decide) (by decide)
  have floor := divides.floor
  have rest := divides.rest
  norm_num at floor rest
  subst floor rest
  exact ⟨u, v, quotient, remainder, hu, hv⟩

end MiniLua

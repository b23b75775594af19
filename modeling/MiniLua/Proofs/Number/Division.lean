import MiniLua.Number.Arithmetic
import MiniLua.Proofs.Number.Whole

/-!
# Floor division of whole numbers

A quotient of doubles is rounded before it is floored. Where both are whole numbers below `2 ^ 53`
the rounding never reaches the next whole number: it moves the quotient by at most half a unit in
its last place, and a quotient that is not whole is further away from the next whole number than
that, by the reciprocal of the divisor.
-/

namespace MiniLua.Number

open Float.Model Float.Model.UnpackedFloat

/-! ## The doubles of integers -/

section

variable {x : Float} {a : Int} {n : Nat}

theorem isWhole_ofNat (lt : n < 2 ^ 53) : IsWhole (Float.ofNat n) n := by
  rcases Nat.eq_zero_or_pos n with rfl | hn
  · exact isWhole_zero
  rw [isWhole_iff, unpacked_ofNat hn lt]
  refine .finite .positive _ ?_
  rw [Nat.mul_assoc, ← Nat.pow_add, Nat.sub_add_cancel (log2_full_mantissa hn lt).1]

theorem ReadsWhole.neg {u : UnpackedFloat} (h : ReadsWhole u a) : ReadsWhole u.neg (-a) := by
  cases h with
  | zero s => exact .zero (-s)
  | finite s hm filled =>
    cases s with
    | negative =>
      rw [Sign.apply, Int.neg_neg]
      exact .finite .positive hm filled
    | positive => exact .finite .negative hm filled

theorem IsWhole.neg (h : IsWhole x a) (lt : a.natAbs < 2 ^ 53) : IsWhole (-x) (-a) := by
  have reads := (isWhole_iff.mp h).neg
  have packed : unpacked (-x) = (Float.Model.pack (unpacked x).neg).unpack := rfl
  rw [isWhole_iff, packed, reads.repacked (by rwa [Int.natAbs_neg])]
  exact reads

theorem isWhole_ofInt (lt : a.natAbs < 2 ^ 53) : IsWhole (Float.ofInt a) a := by
  cases a with
  | ofNat n => exact isWhole_ofNat lt
  | negSucc n => exact (isWhole_ofNat lt).neg lt

end

/-! ## Rounding a quotient -/

section

variable {em : ExtendedMantissa} {N d : Nat}

/-- An extended mantissa is the quotient `N / d`, and its further bits tell whether the rest is
nothing, less than half of `d`, half of it or more. -/
structure Shows (em : ExtendedMantissa) (N d : Nat) : Prop where
  mantissa : em.mantissa = N / d
  round : em.roundBit = true ↔ d ≤ 2 * (N % d)
  sticky : em.stickyBit = true ↔ 2 * (N % d) ≠ 0 ∧ 2 * (N % d) ≠ d

theorem shows_quotient (hd : 0 < d) :
    Shows (.ofMantissaAndAccuracy (N / d) (accuracyOfFraction (N % d) d)) N d := by
  have rest := Nat.mod_lt N hd
  rw [accuracyOfFraction]
  split
  next exact => constructor <;> simp [ExtendedMantissa.ofMantissaAndAccuracy, exact]; omega
  next inexact =>
    cases order : compare (2 * (N % d)) d with
    | lt =>
      have := Nat.compare_eq_lt.mp order
      constructor <;> simp [ExtendedMantissa.ofMantissaAndAccuracy] <;> omega
    | eq =>
      have := Nat.compare_eq_eq.mp order
      constructor <;> simp [ExtendedMantissa.ofMantissaAndAccuracy] <;> omega
    | gt =>
      have := Nat.compare_eq_gt.mp order
      constructor <;> simp [ExtendedMantissa.ofMantissaAndAccuracy] <;> omega

theorem Shows.shiftRightOne (h : Shows em N d) (hd : 0 < d) : Shows em.shiftRightOne N (d * 2) := by
  have rest := Nat.mod_lt N hd
  have twice : N % (d * 2) = N % d + d * (N / d % 2) := Nat.mod_mul
  constructor
  · rw [ExtendedMantissa.shiftRightOne, h.mantissa, Nat.div_div_eq_div_mul]
  · rw [twice, ExtendedMantissa.shiftRightOne, h.mantissa]
    rcases Nat.mod_two_eq_zero_or_one (N / d) with even | odd
    · simp [even]
      omega
    · simp [odd]
      omega
  · rw [twice, ExtendedMantissa.shiftRightOne, Bool.or_eq_true, h.round, h.sticky]
    rcases Nat.mod_two_eq_zero_or_one (N / d) with even | odd
    · simp [even]
      omega
    · simp [odd]
      omega

theorem Shows.shiftRight (h : Shows em N d) (hd : 0 < d) (c : Nat) :
    Shows (em >>> c) N (d * 2 ^ c) := by
  induction c with
  | zero =>
    rw [Nat.pow_zero, Nat.mul_one]
    exact h
  | succ c ih =>
    rw [Nat.pow_succ, ← Nat.mul_assoc]
    exact ih.shiftRightOne (by positivity)

/-- No multiple of `d` is nearer to `N` than the `r`-th. -/
def Nearest (r N d : Nat) : Prop := 2 * |(r : Int) * d - N| ≤ d

theorem Nearest.signed {r N D : Nat} (h : Nearest r (N * D) d) (s : Sign) :
    2 * |s.apply r * d - s.apply N * D| ≤ d := by
  rw [Nearest, Nat.cast_mul] at h
  cases s with
  | positive => exact h
  | negative =>
    rw [Sign.apply, Sign.apply, Int.neg_mul, Int.neg_mul, ← neg_sub', abs_neg]
    exact h

theorem Shows.nearest (h : Shows em N d) (hd : 0 < d) : Nearest em.roundedMantissa N d := by
  obtain ⟨m, round, sticky⟩ := em
  obtain ⟨rfl, rounds, sticks⟩ := h
  have rest := Nat.mod_lt N hd
  have whole : (N : Int) = (N / d : Nat) * d + (N % d : Nat) := by
    exact_mod_cast (Nat.div_add_mod' N d).symm
  have down (le : 2 * (N % d) ≤ d) : Nearest (N / d) N d := by
    have off : ((N / d : Nat) : Int) * d - N = -(N % d : Nat) := by linarith
    rw [Nearest, off, abs_neg, abs_of_nonneg (Int.natCast_nonneg _)]
    omega
  have up (le : d ≤ 2 * (N % d)) : Nearest (N / d + 1) N d := by
    have off : ((N / d + 1 : Nat) : Int) * d - N = d - (N % d : Nat) := by
      rw [Nat.cast_succ]
      linarith
    rw [Nearest, off, abs_of_nonneg (by omega)]
    omega
  dsimp only at rounds sticks
  cases round <;> cases sticky <;>
    simp only [Bool.false_eq_true, false_iff, true_iff, not_and_or, not_not] at rounds sticks <;>
    simp only [ExtendedMantissa.roundedMantissa, ExtendedMantissa.accuracy,
      Accuracy.roundToNearestEven]
  · exact down (by omega)
  · exact down (by omega)
  · -- a tie: one of the two is even
    rcases Nat.mod_two_eq_zero_or_one (N / d) with even | odd
    · rw [even]
      exact down (by omega)
    · rw [odd]
      exact up (by omega)
  · exact up (by omega)

/-- A quotient with at most one bit too many is rounded to the nearest mantissa. -/
theorem roundWithAccuracy_quotient (s : Sign) {c : Nat} {e : Int} (hd : 0 < d) (hc : c ≤ 1)
    (bits : (N / d).log2 = 52 + c) (low : -1074 ≤ e) :
    ∃ r g : Nat, ∃ hr : 0 < r,
      roundWithAccuracy Format.binary64 s (N / d) e (accuracyOfFraction (N % d) d) =
        .finite s r (e + c + g) hr ∧
      r.log2 = 52 ∧ g ≤ 1 ∧ Nearest (r * 2 ^ g) N (d * 2 ^ c) := by
  have shift : (max (totalExponent (N / d) e - 53) (-1074) - e).toNat = c := by
    simp only [totalExponent]
    omega
  have first := shiftToTargetExponent_of_accuracy (N / d) e (accuracyOfFraction (N % d) d)
  rw [shift] at first
  have shows := (shows_quotient (N := N) hd).shiftRight hd c
  have nearest := shows.nearest (by positivity)
  generalize ExtendedMantissa.ofMantissaAndAccuracy (N / d) _ >>> c = em at first shows nearest
  have atLeast := le_roundedMantissa em
  have atMost := roundedMantissa_le em
  have full : 2 ^ 52 ≤ em.mantissa ∧ em.mantissa < 2 ^ 53 := by
    have nonzero : N / d ≠ 0 := by
      intro zero
      rw [zero, Nat.log2_zero] at bits
      omega
    have lower := Nat.log2_self_le nonzero
    have upper := Nat.lt_log2_self (n := N / d)
    rw [bits] at lower upper
    rw [shows.mantissa, ← Nat.div_div_eq_div_mul]
    rw [Nat.pow_add] at lower
    rw [show 52 + c + 1 = c + 53 by omega, Nat.pow_add] at upper
    exact ⟨(Nat.le_div_iff_mul_le (Nat.two_pow_pos c)).mpr lower, Nat.div_lt_of_lt_mul upper⟩
  generalize hr : em.roundedMantissa = r at nearest atLeast atMost
  have second := shiftToTargetExponent_eq r (e + c)
  simp only [roundWithAccuracy, first, hr, second]
  rcases Nat.lt_or_eq_of_le (show r ≤ 2 ^ 53 by omega) with fits | carried
  · have short : r.log2 = 52 := (Nat.log2_eq_iff (by omega)).mpr ⟨by omega, fits⟩
    have none : (max (totalExponent r (e + c) - 53) (-1074) - (e + c)).toNat = 0 := by
      simp only [totalExponent]
      omega
    have unshifted : ((ExtendedMantissa.mk r false false) >>> 0).mantissa = r := rfl
    simp only [none, unshifted]
    rw [dif_neg (by omega)]
    refine ⟨r, 0, by omega, rfl, short, Nat.zero_le _, ?_⟩
    rwa [Nat.pow_zero, Nat.mul_one]
  · have long : r.log2 = 53 := by rw [carried, Nat.log2_two_pow]
    have one : (max (totalExponent r (e + c) - 53) (-1074) - (e + c)).toNat = 1 := by
      simp only [totalExponent]
      omega
    have halved : ((ExtendedMantissa.mk r false false) >>> 1).mantissa = 2 ^ 52 := by
      rw [mantissa_shiftRight, carried]
      rfl
    simp only [one, halved]
    rw [dif_neg (by decide)]
    refine ⟨2 ^ 52, 1, by decide, rfl, Nat.log2_two_pow, Nat.le_refl _, ?_⟩
    rwa [carried] at nearest

end

/-! ## Quotients -/

section

variable {m p k l : Nat}

theorem divCore_filled (hm : m.log2 = 52) (hp : p.log2 = 52) (hk : k ≤ 52) (hl : l ≤ 52) :
    divCore Format.binary64 m ((k : Int) - 52) p ((l : Int) - 52) =
      (m * 2 ^ 53 / p, (k : Int) - l - 53, accuracyOfFraction (m * 2 ^ 53 % p) p) := by
  have hbits : Format.binary64.mantissaBits = 53 := by decide
  have hmin : Format.binary64.minExponent = -1074 := by decide
  have target : min ((k : Int) - 52 - (l - 52)) (Format.binary64.targetExponent
      (totalExponent m ((k : Int) - 52) - totalExponent p ((l : Int) - 52))) = k - l - 53 := by
    simp only [Format.targetExponent, totalExponent, hbits, hmin, hm, hp]
    omega
  have shift : ((k : Int) - 52 - (l - 52) - (k - l - 53)).toNat = 53 := by omega
  simp only [divCore, target, shift, Nat.shiftLeft_eq]

/-- The quotient of two full mantissas has one bit more than they or two. -/
theorem log2_quotient (hm : m.log2 = 52) (hp : p.log2 = 52) :
    ∃ c ≤ 1, (m * 2 ^ 53 / p).log2 = 52 + c := by
  have bounds {n : Nat} (full : n.log2 = 52) : 2 ^ 52 ≤ n ∧ n < 2 ^ 53 := by
    refine (Nat.log2_eq_iff ?_).mp full
    rintro rfl
    cases full
  obtain ⟨lower, upper⟩ := bounds hm
  obtain ⟨lower', upper'⟩ := bounds hp
  have atLeast : 2 ^ 52 ≤ m * 2 ^ 53 / p := (Nat.le_div_iff_mul_le (by omega)).mpr (by omega)
  have below : m * 2 ^ 53 / p < 2 ^ 54 := (Nat.div_lt_iff_lt_mul (by omega)).mpr (by omega)
  have nonzero : m * 2 ^ 53 / p ≠ 0 := by omega
  have := (Nat.le_log2 nonzero).mpr atLeast
  have := (Nat.log2_lt nonzero).mpr below
  exact ⟨(m * 2 ^ 53 / p).log2 - 52, by omega, by omega⟩

theorem nearest_mul_iff {r N d t : Nat} (ht : 0 < t) :
    Nearest r (N * t) (d * t) ↔ Nearest r N d := by
  have off : (r : Int) * (d * t : Nat) - (N * t : Nat) = (r * d - N) * t := by
    push_cast
    ring
  rw [Nearest, Nearest, off, abs_mul, Nat.abs_cast, ← mul_assoc, Nat.cast_mul]
  exact Int.mul_le_mul_iff_of_pos_right (Int.natCast_pos.mpr ht)

/-- A quotient of mantissas and that of the numbers that fill them, over a common unit. -/
theorem scaled_filled {c G : Nat} (filled : m * 2 ^ k.log2 = k * 2 ^ 52)
    (filled' : p * 2 ^ l.log2 = l * 2 ^ 52) (exponents : G + c + k.log2 = 53 + l.log2) :
    m * 2 ^ 53 * 2 ^ l.log2 = k * 2 ^ G * 2 ^ (52 + c) ∧
      p * 2 ^ c * 2 ^ l.log2 = l * 2 ^ (52 + c) := by
  constructor
  · calc m * 2 ^ 53 * 2 ^ l.log2 = m * 2 ^ (k.log2 + (G + c)) := by
          rw [Nat.mul_assoc, ← Nat.pow_add, ← exponents, Nat.add_comm k.log2]
      _ = k * 2 ^ 52 * 2 ^ (G + c) := by rw [Nat.pow_add, ← Nat.mul_assoc, filled]
      _ = k * 2 ^ G * 2 ^ (52 + c) := by ring
  · rw [Nat.mul_right_comm, filled', Nat.mul_assoc, ← Nat.pow_add]

/-- Rounding to the nearest does not reach the next whole number if the unit is small enough. -/
theorem fdiv_of_near {R a l D : Int} (hl : 0 < l) (hD : 0 < D) (near : 2 * |R * l - a * D| ≤ l)
    (small : l < 2 * D) : R.fdiv D = a.fdiv l := by
  obtain ⟨lower, upper⟩ := abs_le.mp (show |R * l - a * D| ≤ l / 2 by omega)
  have floor := Int.mul_fdiv_add_fmod a l
  have nonneg := Int.fmod_nonneg_of_pos a hl
  have below := Int.fmod_lt_of_pos a hl
  generalize a.fdiv l = j at *
  generalize a.fmod l = rest at *
  have split : R * l - a * D = (R - D * j) * l - rest * D := by
    rw [← floor]
    ring
  rw [split] at lower upper
  have reassembled : R - D * j + D * j = R := Int.sub_add_cancel R (D * j)
  refine ((Int.fdiv_fmod_unique hD).mpr ⟨reassembled, ?_, ?_⟩).1
  · -- below `j` the quotient would be a whole unit away
    by_contra negative
    have whole : (R - D * j) * l ≤ -1 * l := Int.mul_le_mul_of_nonneg_right (by omega) hl.le
    have : 0 ≤ rest * D := Int.mul_nonneg nonneg hD.le
    omega
  · -- at `j + 1` it would have gone further than the rest of the division lets it
    by_contra reached
    have whole : D * l ≤ (R - D * j) * l := Int.mul_le_mul_of_nonneg_right (by omega) hl.le
    have gap : 1 * D ≤ (l - rest) * D := Int.mul_le_mul_of_nonneg_right (by omega) hD.le
    rw [Int.sub_mul, Int.mul_comm l D] at gap
    omega

/-- The sign of a quotient goes to the dividend. -/
theorem fdiv_apply (s t : Sign) (k l : Nat) :
    Int.fdiv (s.apply k) (t.apply l) = Int.fdiv ((s / t).apply k) l := by
  cases s <;> cases t
  · exact Int.neg_fdiv_neg k l
  · rfl
  · change Int.fdiv k (-l) = Int.fdiv (-k) l
    rw [← Int.neg_fdiv_neg k, Int.neg_neg]
  · rfl

/-- The floor of a fraction as a division by a power of two. -/
theorem floor_signed (s : Sign) (r g G : Nat) :
    Binary.floor ⟨signBit s, r, (g : Int) - G⟩ =
      Int.fdiv (s.apply (r * 2 ^ g : Nat)) (2 ^ G : Nat) := by
  have signed : (Binary.mk (signBit s) r ((g : Int) - G)).signed = s.apply r := by cases s <;> rfl
  have scaled : s.apply ((r * 2 ^ g : Nat) : Int) = s.apply r * (2 ^ g : Nat) := by
    cases s <;> simp [Sign.apply]
  rw [Binary.floor, signed, scaled]
  dsimp only
  split
  next nonneg =>
    obtain ⟨j, rfl⟩ : ∃ j, g = G + j := ⟨g - G, by omega⟩
    have exponent : (((G + j : Nat) : Int) - G).toNat = j := by omega
    rw [exponent, Nat.pow_eq, Nat.add_comm, Nat.pow_add, Nat.cast_mul, ← Int.mul_assoc,
      Int.mul_fdiv_cancel _ (by positivity)]
  next negative =>
    obtain ⟨j, rfl⟩ : ∃ j, G = g + j := ⟨G - g, by omega⟩
    have exponent : (-((g : Int) - (g + j : Nat))).toNat = j := by omega
    rw [exponent, Nat.pow_eq, Nat.pow_add, Nat.mul_comm (2 ^ g), Nat.cast_mul,
      Int.mul_fdiv_mul_of_pos_left _ _ (by positivity)]

end

section

variable {x y : Float} {a b : Int}

/-- A quotient of full mantissas, as it is rounded: `r * 2 ^ g` parts of `2 ^ G`. -/
theorem div_filled (s t : Sign) {m p k l : Nat} (hm : 0 < m) (hp : 0 < p)
    (filled : m * 2 ^ k.log2 = k * 2 ^ 52) (filled' : p * 2 ^ l.log2 = l * 2 ^ 52)
    (hk : k < 2 ^ 53) (hl : l < 2 ^ 53) :
    ∃ r g G : Nat, ∃ hr : 0 < r,
      UnpackedFloat.div Format.binary64 (.finite s m (k.log2 - 52) hm)
          (.finite t p (l.log2 - 52) hp) = .finite (s / t) r (g - G) hr ∧
      r.log2 = 52 ∧ g ≤ 1 ∧ G ≤ 105 ∧ Nearest (r * 2 ^ g) (k * 2 ^ G) l ∧ l < 2 * 2 ^ G := by
  obtain ⟨hk0, full⟩ := filled_log2 hm filled
  obtain ⟨hl0, full'⟩ := filled_log2 hp filled'
  have short := (log2_full_mantissa hk0 hk).1
  have short' := (log2_full_mantissa hl0 hl).1
  obtain ⟨c, hc, bits⟩ := log2_quotient full full'
  obtain ⟨r, g, hr, rounded, fullest, hg, nearest⟩ :=
    roundWithAccuracy_quotient (s / t) (e := (k.log2 : Int) - l.log2 - 53) hp hc bits (by omega)
  obtain ⟨G, exponents⟩ : ∃ G, G + c + k.log2 = 53 + l.log2 := ⟨53 + l.log2 - k.log2 - c, by omega⟩
  have exponent : (k.log2 : Int) - l.log2 - 53 + c + g = g - G := by omega
  obtain ⟨dividend, divisor⟩ := scaled_filled filled filled' exponents
  refine ⟨r, g, G, hr, ?_, fullest, hg, by omega, ?_, ?_⟩
  · simp only [UnpackedFloat.div, divCore_filled full full' short short', rounded, exponent]
  · rw [← nearest_mul_iff (Nat.two_pow_pos (52 + c)), ← dividend, ← divisor]
    exact (nearest_mul_iff (Nat.two_pow_pos l.log2)).mpr nearest
  · have nonzero : m * 2 ^ 53 / p ≠ 0 := by
      intro zero
      rw [zero, Nat.log2_zero] at bits
      omega
    have normal := Nat.log2_self_le nonzero
    rw [bits, Nat.le_div_iff_mul_le hp] at normal
    have scaled : 2 ^ 52 * l * 2 ^ (52 + c) ≤ k * 2 ^ G * 2 ^ (52 + c) :=
      calc 2 ^ 52 * l * 2 ^ (52 + c) = 2 ^ (52 + c) * p * 2 ^ l.log2 := by
            rw [Nat.mul_assoc, ← divisor]
            ring
        _ ≤ k * 2 ^ G * 2 ^ (52 + c) := dividend ▸ Nat.mul_le_mul_right _ normal
    have unit := Nat.le_of_mul_le_mul_right scaled (Nat.two_pow_pos _)
    have bound : k * 2 ^ G < 2 ^ 53 * 2 ^ G := Nat.mul_lt_mul_of_pos_right hk (Nat.two_pow_pos G)
    omega

/-- A quotient of whole numbers has the floor of the exact quotient, however it has been rounded. -/
theorem floor_quotient (hx : IsWhole x a) (hy : IsWhole y b) (ha : a.natAbs < 2 ^ 53)
    (hb : b.natAbs < 2 ^ 53) (nonzero : b ≠ 0) :
    (x / y).isFinite = true ∧ (Binary.ofFloat (x / y)).floor = a.fdiv b := by
  have unfolded : unpacked (x / y) = (Float.Model.pack
    (UnpackedFloat.div Format.binary64 (unpacked x) (unpacked y))).unpack := rfl
  have finite : (x / y).isFinite = (unpacked (x / y)).isFinite := rfl
  have reads := isWhole_iff.mp hx
  have reads' := isWhole_iff.mp hy
  generalize unpacked x = u at unfolded reads
  generalize unpacked y = v at unfolded reads'
  cases reads' with
  | zero t => exact absurd rfl nonzero
  | @finite t p l hp filled' =>
    cases reads with
    | zero s =>
      have zero : unpacked (x / y) = .zero (s / t) := by
        rw [unfolded, UnpackedFloat.div]
        cases s / t <;> rfl
      obtain ⟨sign, read⟩ := ofFloat_of_zero zero
      rw [finite, zero, read, Int.zero_fdiv]
      cases sign <;> exact ⟨rfl, by decide +kernel⟩
    | @finite s m k hm filled =>
      have hk : k < 2 ^ 53 := by cases s <;> simpa [Sign.apply] using ha
      have hl : l < 2 ^ 53 := by cases t <;> simpa [Sign.apply] using hb
      obtain ⟨r, g, G, hr, divided, full, hg, hG, nearest, small⟩ :=
        div_filled s t hm hp filled filled' hk hl
      have read : unpacked (x / y) = .finite (s / t) r (g - G) hr := by
        rw [unfolded, divided]
        exact unpack_pack_normal hr full (by omega) (by omega)
      rw [finite, read, (ofFloat_of_finite read).1, floor_signed, fdiv_apply]
      refine ⟨rfl, fdiv_of_near ?_ (by positivity) ?_ (by exact_mod_cast small)⟩
      · exact Int.natCast_pos.mpr (filled_log2 hp filled').1
      · exact nearest.signed (s / t)

/-- Floor division of whole numbers below `2 ^ 53` is exact. -/
theorem IsWhole.floorDiv (hx : IsWhole x a) (hy : IsWhole y b) (ha : a.natAbs < 2 ^ 53)
    (hb : b.natAbs < 2 ^ 53) (nonzero : b ≠ 0) : IsWhole (floorDiv x y) (a.fdiv b) := by
  obtain ⟨finite, floor⟩ := floor_quotient hx hy ha hb nonzero
  rw [Number.floorDiv, finite, Bool.not_true, if_neg Bool.false_ne_true]
  dsimp only
  split
  next integral =>
    refine ⟨?_, floor⟩
    rw [isIntegral, finite]
    simp [integral]
  next =>
    rw [floor]
    exact isWhole_ofInt ((Int.natAbs_fdiv_le_natAbs a b).trans_lt ha)

end

end MiniLua.Number

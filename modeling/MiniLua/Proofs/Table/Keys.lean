import MiniLua.Table
import MiniLua.Proofs.Number.Doubles

/-!
# Keys

Raw equality is symmetric and transitive; only NaN, and lists with one, are not equal to
themselves. A key stands for an array position exactly when it is equal to the key of that
position, so the array and the list of entries never disagree about which key is meant.
-/

namespace MiniLua

open Float.Model Float.Model.UnpackedFloat

namespace Value

mutual

theorem rawEq_symm : ∀ {a b : Value}, a.rawEq b = true → b.rawEq a = true
  | .nil, b, h => by cases b <;> simp_all [rawEq]
  | .bool _, b, h => by cases b <;> simp_all [rawEq]
  | .string _, b, h => by cases b <;> simp_all [rawEq]
  | .number x, b, h => by
    cases b with
    | number y => exact Number.beq_symm h
    | _ => simp [rawEq] at h
  | .ref _, b, h => by cases b <;> simp_all [rawEq]
  | .builtin _, b, h => by cases b <;> simp_all [rawEq]
  | .list as, b, h => by
    cases b with
    | list bs =>
      simp only [rawEq] at h ⊢
      exact rawEqAll_symm h
    | _ => simp [rawEq] at h

theorem rawEqAll_symm : ∀ {as bs : List Value}, rawEqAll as bs = true → rawEqAll bs as = true
  | [], bs, h => by cases bs <;> simp_all [rawEqAll]
  | a :: as, bs, h => by
    cases bs with
    | nil => simp [rawEqAll] at h
    | cons b bs =>
      simp only [rawEqAll, Bool.and_eq_true] at h ⊢
      exact ⟨rawEq_symm h.1, rawEqAll_symm h.2⟩

end

mutual

theorem rawEq_trans : ∀ {a b c : Value}, a.rawEq b = true → b.rawEq c = true → a.rawEq c = true
  | .nil, b, c, hab, hbc => by
    cases b with
    | nil => exact hbc
    | _ => simp [rawEq] at hab
  | .bool x, b, c, hab, hbc => by
    cases b with
    | bool y =>
      obtain rfl : x = y := by simpa [rawEq] using hab
      exact hbc
    | _ => simp [rawEq] at hab
  | .string x, b, c, hab, hbc => by
    cases b with
    | string y =>
      obtain rfl : x = y := by simpa [rawEq] using hab
      exact hbc
    | _ => simp [rawEq] at hab
  | .number x, b, c, hab, hbc => by
    cases b with
    | number y =>
      cases c with
      | number z => exact Number.beq_trans hab hbc
      | _ => simp [rawEq] at hbc
    | _ => simp [rawEq] at hab
  | .ref x, b, c, hab, hbc => by
    cases b with
    | ref y =>
      obtain rfl : x = y := by simpa [rawEq] using hab
      exact hbc
    | _ => simp [rawEq] at hab
  | .builtin x, b, c, hab, hbc => by
    cases b with
    | builtin y =>
      obtain rfl : x = y := by simpa [rawEq] using hab
      exact hbc
    | _ => simp [rawEq] at hab
  | .list as, b, c, hab, hbc => by
    cases b with
    | list bs =>
      cases c with
      | list cs =>
        simp only [rawEq] at hab hbc ⊢
        exact rawEqAll_trans hab hbc
      | _ => simp [rawEq] at hbc
    | _ => simp [rawEq] at hab

theorem rawEqAll_trans : ∀ {as bs cs : List Value},
    rawEqAll as bs = true → rawEqAll bs cs = true → rawEqAll as cs = true
  | [], bs, cs, hab, hbc => by
    cases bs with
    | nil => exact hbc
    | cons b bs => simp [rawEqAll] at hab
  | a :: as, bs, cs, hab, hbc => by
    cases bs with
    | nil => simp [rawEqAll] at hab
    | cons b bs =>
      cases cs with
      | nil => simp [rawEqAll] at hbc
      | cons c cs =>
        simp only [rawEqAll, Bool.and_eq_true] at hab hbc ⊢
        exact ⟨rawEq_trans hab.1 hbc.1, rawEqAll_trans hab.2 hbc.2⟩

end

theorem rawEq_comm (a b : Value) : a.rawEq b = b.rawEq a := by
  cases h : b.rawEq a with
  | true => exact rawEq_symm h
  | false =>
    cases h' : a.rawEq b with
    | true => exact absurd (rawEq_symm h') (by simp [h])
    | false => rfl

/-- Equal keys are equal to the same keys. -/
theorem rawEq_congr {a b : Value} (h : a.rawEq b = true) (c : Value) : a.rawEq c = b.rawEq c := by
  cases hb : b.rawEq c with
  | true => exact rawEq_trans h hb
  | false =>
    cases ha : a.rawEq c with
    | true => exact absurd (rawEq_trans (rawEq_symm h) ha) (by simp [hb])
    | false => rfl

theorem isNil_eq_true {v : Value} : v.isNil = true ↔ v = .nil := by
  cases v <;> simp [isNil]

/-- A list of values, not one value. -/
def isList : Value → Bool
  | .list _ => true
  | _ => false

end Value

namespace Table

/-! ## Positions -/

theorem one_le_iff (x : Float) :
    1 ≤ x ↔ Number.unpacked x = .infinity .positive ∨
      ∃ m e hm, Number.unpacked x = .finite .positive m e hm ∧
        (-52 < e ∨ e = -52 ∧ 2 ^ 52 ≤ m) := by
  have unfolded : 1 ≤ x ↔
      (UnpackedFloat.le (Number.unpacked 1) (Number.unpacked x)) = true := by
    exact decide_eq_true_iff
  rw [unfolded, Number.unpacked_one]
  cases Number.unpacked x with
  | notANumber => simp [UnpackedFloat.le, UnpackedFloat.compare]
  | infinity s => cases s <;> simp [UnpackedFloat.le, UnpackedFloat.compare]
  | zero s => simp [UnpackedFloat.le, UnpackedFloat.compare]
  | finite s m e hm =>
    cases s with
    | negative => simp [UnpackedFloat.le, UnpackedFloat.compare]
    | positive =>
      simp only [UnpackedFloat.le, UnpackedFloat.compare, Option.any_some]
      rcases lt_trichotomy (-52) e with h | h | h
      · simp [compare_lt_iff_lt.mpr h, h, hm]
      · subst h
        simp [Nat.isLE_compare, hm]
      · simp [compare_gt_iff_gt.mpr h]
        omega

/-- A positive fraction is the whole number `p` if nothing is cut off below its point. -/
theorem floor_eq_iff (m : Nat) (e : Int) (p : Nat) :
    (0 ≤ e ∨ m % 2 ^ (-e).toNat = 0) ∧ (Number.Binary.floor ⟨false, m, e⟩).toNat = p ↔
      m * 2 ^ e.toNat = p * 2 ^ (-e).toNat := by
  by_cases he : 0 ≤ e
  · have hz : (-e).toNat = 0 := by omega
    have hf : Number.Binary.floor ⟨false, m, e⟩ = ((m * 2 ^ e.toNat : Nat) : Int) := by
      simp [Number.Binary.floor, he, Number.Binary.signed]
    rw [hf, hz, Int.toNat_natCast]
    simp [he]
  · have hz : e.toNat = 0 := by omega
    have hf : Number.Binary.floor ⟨false, m, e⟩ = ((m / 2 ^ (-e).toNat : Nat) : Int) := by
      rw [Number.Binary.floor, if_neg he]
      simp [Number.Binary.signed, Int.fdiv_eq_ediv_of_nonneg]
    rw [hf, hz]
    have hpos : 0 < 2 ^ (-e).toNat := by positivity
    generalize 2 ^ (-e).toNat = d at *
    simp only [he, false_or, Int.toNat_natCast, Nat.pow_zero, Nat.mul_one]
    constructor
    · rintro ⟨hmod, rfl⟩
      have := Nat.div_add_mod m d
      rw [hmod, Nat.add_zero, Nat.mul_comm] at this
      exact this.symm
    · rintro rfl
      exact ⟨Nat.mul_mod_left p d, Nat.mul_div_cancel p hpos⟩

/-- The keys that stand for a position are the positive whole numbers. -/
theorem position?_number_eq_some_iff (x : Float) (p : Nat) :
    position? (.number x) = some p ↔
      ∃ m e hm, Number.unpacked x = .finite .positive m e hm ∧ m.log2 = 52 ∧ -52 ≤ e ∧
        m * 2 ^ e.toNat = p * 2 ^ (-e).toNat := by
  unfold position? Number.isIntegral
  have isFinite : x.isFinite = (Number.unpacked x).isFinite := rfl
  have bound := one_le_iff x
  cases hu : Number.unpacked x with
  | notANumber => simp [bound, hu]
  | infinity s => simp [isFinite, hu, UnpackedFloat.isFinite]
  | zero s => simp [bound, hu]
  | finite s m e hm =>
    obtain ⟨hb, hlt, hlo, hhi, hfull⟩ := Number.ofFloat_of_finite hu
    cases s with
    | negative => simp [bound, hu]
    | positive =>
      have one : 1 ≤ x ↔ m.log2 = 52 ∧ -52 ≤ e := by
        rw [bound, hu, Nat.log2_eq_iff (by omega)]
        simp [hm]
        omega
      have finite : x.isFinite = true := by rw [isFinite, hu]; rfl
      have whole := floor_eq_iff m e p
      simp only [one, finite, hb, Number.signBit, Nat.pow_eq, Bool.and_eq_true, Bool.or_eq_true,
        decide_eq_true_eq, true_and, Option.ite_none_right_eq_some, Option.some.injEq,
        UnpackedFloat.finite.injEq]
      rw [and_assoc, whole]
      constructor
      · rintro ⟨⟨hlog, hlow⟩, heq⟩
        exact ⟨m, e, hm, ⟨rfl, rfl⟩, hlog, hlow, heq⟩
      · rintro ⟨m', e', hm', ⟨rfl, rfl⟩, hlog, hlow, heq⟩
        exact ⟨⟨hlog, hlow⟩, heq⟩

/-- Whole numbers with full mantissas are equal only if they are put together alike. -/
theorem full_mantissa_unique {m n p : Nat} {e f : Int} (hm : m.log2 = 52) (hn : n.log2 = 52)
    (hme : m * 2 ^ e.toNat = p * 2 ^ (-e).toNat) (hnf : n * 2 ^ f.toNat = p * 2 ^ (-f).toNat) :
    m = n ∧ e = f := by
  have hm0 : 0 < m := by
    by_contra h
    obtain rfl : m = 0 := by omega
    simp at hm
  have hn0 : 0 < n := by
    by_contra h
    obtain rfl : n = 0 := by omega
    simp at hn
  have crossed : m * 2 ^ (e.toNat + (-f).toNat) = n * 2 ^ (f.toNat + (-e).toNat) := by
    calc m * 2 ^ (e.toNat + (-f).toNat) = m * 2 ^ e.toNat * 2 ^ (-f).toNat := by ring
      _ = p * 2 ^ (-f).toNat * 2 ^ (-e).toNat := by rw [hme]; ring
      _ = n * 2 ^ (f.toNat + (-e).toNat) := by rw [← hnf]; ring
  have logs := congrArg Nat.log2 crossed
  rw [Number.log2_mul_two_pow hm0, Number.log2_mul_two_pow hn0, hm, hn] at logs
  have exps : e.toNat + (-f).toNat = f.toNat + (-e).toNat := by omega
  refine ⟨?_, by omega⟩
  rw [exps] at crossed
  exact Nat.eq_of_mul_eq_mul_right (by positivity) crossed

theorem position?_eq_some {k : Value} {p : Nat} (h : position? k = some p) :
    ∃ x, k = .number x := by
  cases k <;> simp_all [position?]

/-- A position belongs to one number only, and to every key equal to it. -/
theorem rawEq_iff_of_position {k : Value} {p : Nat} (h : position? k = some p) (k' : Value) :
    k.rawEq k' = true ↔ position? k' = some p := by
  obtain ⟨x, rfl⟩ := position?_eq_some h
  obtain ⟨m, e, hm, hu, hlog, hlow, heq⟩ := (position?_number_eq_some_iff x p).mp h
  constructor
  · intro hk
    cases k' with
    | number y =>
      have hxy := ((Number.beq_iff x y).mp hk).2
      have hy : Number.unpacked y = .finite .positive m e hm := by
        rw [hu] at hxy
        cases hv : Number.unpacked y <;> simp_all [Number.unsigned]
      exact (position?_number_eq_some_iff y p).mpr ⟨m, e, hm, hy, hlog, hlow, heq⟩
    | _ => simp [Value.rawEq] at hk
  · intro hk
    obtain ⟨y, rfl⟩ := position?_eq_some hk
    obtain ⟨n, f, hn, hv, hlog', hlow', heq'⟩ := (position?_number_eq_some_iff y p).mp hk
    obtain ⟨rfl, rfl⟩ := full_mantissa_unique hlog hlog' heq heq'
    refine (Number.beq_iff x y).mpr ⟨?_, ?_⟩
    · simp [hu]
    · rw [hu, hv]

/-- The key of a position stands for that position. -/
theorem position?_positionKey {n : Nat} (hn : 0 < n) (hle : n ≤ 2 ^ 53) :
    position? (positionKey n) = some n := by
  rcases Nat.lt_or_eq_of_le hle with hlt | rfl
  · obtain ⟨hlog, hfull⟩ := Number.log2_full_mantissa hn hlt
    refine (position?_number_eq_some_iff _ n).mpr
      ⟨_, _, _, Number.unpacked_ofNat hn hlt, hfull, by omega, ?_⟩
    have hup : ((n.log2 : Int) - 52).toNat = 0 := by omega
    have hdown : (-((n.log2 : Int) - 52)).toNat = 52 - n.log2 := by omega
    rw [hup, hdown, Nat.pow_zero, Nat.mul_one]
  · decide +kernel

theorem rawEq_positionKey {n : Nat} (hn : 0 < n) (hle : n ≤ 2 ^ 53) (k : Value) :
    k.rawEq (positionKey n) = true ↔ position? k = some n := by
  rw [Value.rawEq_comm]
  exact rawEq_iff_of_position (position?_positionKey hn hle) k

theorem position?_pos {k : Value} {p : Nat} (h : position? k = some p) : 0 < p := by
  obtain ⟨x, rfl⟩ := position?_eq_some h
  obtain ⟨m, e, hm, hu, hlog, hlow, heq⟩ := (position?_number_eq_some_iff x p).mp h
  by_contra hp
  obtain rfl : p = 0 := by omega
  have : 0 < m * 2 ^ e.toNat := by positivity
  omega

/-- Past `2 ^ 53` the first whole number is missing among the doubles. -/
theorem position?_ne_of_missing (k : Value) : position? k ≠ some (2 ^ 53 + 1) := by
  intro h
  obtain ⟨x, rfl⟩ := position?_eq_some h
  obtain ⟨m, e, hm, -, hlog, -, heq⟩ := (position?_number_eq_some_iff x _).mp h
  have short : m < 2 ^ 53 := (Nat.log2_lt (Nat.ne_of_gt hm)).mp (by omega)
  rcases lt_trichotomy e 0 with low | rfl | high
  · have whole : e.toNat = 0 := by omega
    have one : 1 ≤ 2 ^ (-e).toNat := Nat.one_le_two_pow
    rw [whole, Nat.pow_zero, Nat.mul_one] at heq
    nlinarith
  · simp at heq
    omega
  · have whole : (-e).toNat = 0 := by omega
    obtain ⟨k, hk⟩ : ∃ k, e.toNat = k + 1 := ⟨e.toNat - 1, by omega⟩
    rw [whole, hk, Nat.pow_succ, ← Nat.mul_assoc] at heq
    omega

end Table

end MiniLua

import MiniLua.Proofs.Number.Coercion
import MiniLua.Proofs.Number.Division
import MiniLua.Value.Operator

/-!
# Whole numbers as text

A whole number of at most fourteen digits is displayed by these digits: rounding to fourteen digits
writes zeros behind them, which are stripped together with those of the number itself, and the layout
puts the latter back. The text is a numeral again, for the same double.
-/

namespace MiniLua.Number

open Float.Model Float.Model.UnpackedFloat

/-! ## Digits -/

section

variable {k j : Nat}

theorem digitCount_le_iff (hj : 0 < j) : digitCount k ≤ j ↔ k < 10 ^ j :=
  Nat.length_toDigits_le_iff (by decide) hj

theorem digitCount_pos (k : Nat) : 0 < digitCount k := Nat.length_toDigits_pos

theorem lt_ten_pow_digitCount (k : Nat) : k < 10 ^ digitCount k :=
  (digitCount_le_iff (digitCount_pos k)).mp (Nat.le_refl _)

theorem ten_pow_le (hk : 0 < k) : 10 ^ (digitCount k - 1) ≤ k := by
  by_contra below
  rcases Nat.eq_zero_or_pos (digitCount k - 1) with zero | positive
  · rw [zero] at below
    omega
  · have := (digitCount_le_iff positive).mpr (Nat.lt_of_not_le below)
    omega

/-- Powers of ten write zeros behind the digits. -/
theorem toDigits_mul_ten_pow (hk : 0 < k) (j : Nat) :
    Nat.toDigits 10 (k * 10 ^ j) = Nat.toDigits 10 k ++ List.replicate j '0' := by
  induction j with
  | zero => simp
  | succ j ih =>
    have step := Nat.toDigits_append_toDigits (b := 10) (d := 0) (n := k * 10 ^ j) (by decide)
      (by positivity) (by decide)
    rw [Nat.pow_succ, ← Nat.mul_assoc, Nat.mul_comm _ 10, ← Nat.add_zero (10 * _), ← step, ih,
      Nat.toDigits_zero, List.replicate_succ', List.append_assoc]

theorem exists_digit_ne_zero (hk : 0 < k) : ∃ c ∈ Nat.toDigits 10 k, c ≠ '0' := by
  by_contra none
  push Not at none
  have zeros := List.eq_replicate_iff.mpr ⟨rfl, none⟩
  have value := Nat.ofDigitChars_ten_toDigits (n := k)
  rw [zeros, Nat.ofDigitChars_replicate_zero] at value
  omega

end

/-! ## Rounding and stripping -/

namespace Decimal

/-- Zeros behind some digits are stripped with those at their end. -/
theorem exists_stripZeros {digits : List Char} (some : ∃ c ∈ digits, c ≠ '0') (j : Nat) (e : Int) :
    ∃ kept, stripZeros ⟨digits ++ List.replicate j '0', e⟩ = ⟨kept, e⟩ ∧
      kept.length ≤ digits.length ∧
      kept ++ List.replicate (digits.length - kept.length) '0' = digits := by
  have past : (digits ++ List.replicate j '0').reverse.dropWhile (· = '0') =
      digits.reverse.dropWhile (· = '0') := by
    rw [List.reverse_append, List.reverse_replicate, List.dropWhile_append_of_pos]
    intro c member
    simpa using List.eq_of_mem_replicate member
  have split := List.takeWhile_append_dropWhile (p := (· = '0')) (l := digits.reverse)
  have zeros : ∀ c ∈ digits.reverse.takeWhile (· = '0'), c = '0' := fun c member => by
    simpa using List.mem_takeWhile_imp member
  have nonempty : digits.reverse.dropWhile (· = '0') ≠ [] := by
    rw [Ne, List.dropWhile_eq_nil_iff]
    intro all
    obtain ⟨c, member, other⟩ := some
    exact other (by simpa using all c (List.mem_reverse.mpr member))
  generalize digits.reverse.takeWhile (· = '0') = front at split zeros
  generalize digits.reverse.dropWhile (· = '0') = back at split past nonempty
  have whole : digits = back.reverse ++ front.reverse := by
    rw [← List.reverse_append, split, List.reverse_reverse]
  have count : digits.length - back.reverse.length = front.length := by
    rw [whole]
    simp
  refine ⟨back.reverse, ?_, ?_, ?_⟩
  · rw [stripZeros, past]
    obtain ⟨c, cs, first⟩ := List.exists_cons_of_ne_nil (List.reverse_ne_nil_iff.mpr nonempty)
    rw [first]
  · rw [whole, List.length_append]
    omega
  · have same : front.reverse = List.replicate front.length '0' :=
      List.eq_replicate_iff.mpr
        ⟨List.length_reverse, fun c member => zeros c (List.mem_reverse.mp member)⟩
    rw [count, ← same, whole]

end Decimal

theorem roundDiv_mul (a : Nat) {d : Nat} (hd : 0 < d) : roundDiv (a * d) d = a := by
  rw [roundDiv, Nat.mul_div_cancel a hd, Nat.mul_mod_left, Nat.mul_zero]
  exact if_pos hd

theorem digitCount_mul {k d : Nat} (hk : 0 < k) (hd : 0 < d) :
    digitCount k + digitCount d ≤ digitCount (k * d) + 1 ∧
      digitCount (k * d) ≤ digitCount k + digitCount d := by
  have some := digitCount_pos k
  have some' := digitCount_pos d
  constructor
  · by_contra fewer
    have below : k * d < 10 ^ (digitCount k - 1 + (digitCount d - 1)) :=
      (digitCount_le_iff (by have := digitCount_pos (k * d); omega)).mp (by omega)
    have product := Nat.mul_le_mul (ten_pow_le hk) (ten_pow_le hd)
    rw [← Nat.pow_add] at product
    omega
  · refine (digitCount_le_iff (by omega)).mpr ?_
    rw [Nat.pow_add]
    exact Nat.mul_lt_mul'' (lt_ten_pow_digitCount k) (lt_ten_pow_digitCount d)

theorem decimalExponent_mul {k d : Nat} (hk : 0 < k) (hd : 0 < d) :
    decimalExponent (k * d) d = digitCount k - 1 := by
  obtain ⟨lower, upper⟩ := digitCount_mul hk hd
  have some := digitCount_pos k
  obtain ⟨g, guess⟩ : ∃ g : Nat, (digitCount (k * d) : Int) - digitCount d = g :=
    ⟨digitCount (k * d) - digitCount d, by omega⟩
  have below : k * d < d * 10 ^ g ↔ k < 10 ^ g := by
    rw [Nat.mul_comm k]
    exact Nat.mul_lt_mul_left hd
  rw [decimalExponent, guess, if_pos (Int.natCast_nonneg g), Int.toNat_natCast, Nat.pow_eq,
    decide_eq_decide.mpr below]
  obtain rfl | rfl : g = digitCount k ∨ g = digitCount k - 1 := by omega
  · rw [if_pos (decide_eq_true (lt_ten_pow_digitCount k))]
  · rw [if_neg (by simpa using ten_pow_le hk)]
    omega

/-- A whole number below `10 ^ 14` is not rounded. -/
theorem ofRatio_mul {k d : Nat} (hk : 0 < k) (hd : 0 < d) (small : k < 10 ^ 14) :
    Decimal.ofRatio 14 (k * d) d =
      ⟨Nat.toDigits 10 k ++ List.replicate (14 - digitCount k) '0', digitCount k - 1⟩ := by
  have some := digitCount_pos k
  have most := (digitCount_le_iff (by decide)).mpr small
  obtain ⟨j, hj⟩ : ∃ j, 14 - digitCount k = j := ⟨_, rfl⟩
  have places : ((14 : Nat) : Int) - 1 - (digitCount k - 1) = j := by omega
  have scaled : scale (k * d) d j = (k * 10 ^ j * d, d) := by
    rw [scale, if_pos (Int.natCast_nonneg j), Int.toNat_natCast, Nat.pow_eq, Nat.mul_right_comm]
  have fits : k * 10 ^ j ≠ 10 ^ 14 := by
    have below := Nat.mul_lt_mul_of_pos_right (lt_ten_pow_digitCount k) (Nat.pow_pos (n := j) (by decide : 0 < 10))
    rw [← Nat.pow_add, show digitCount k + j = 14 by omega] at below
    exact Nat.ne_of_lt below
  rw [Decimal.ofRatio, decimalExponent_mul hk hd]
  simp only [places, scaled, roundDiv_mul _ hd, Nat.pow_eq]
  rw [if_neg fits, toDigits_mul_ten_pow hk, hj]

/-! ## Layout -/

/-- The layout writes the zeros of a whole number again. -/
theorem text_of_kept {digits kept : List Char} {layout : Layout} (mark : layout.wholeMark = [])
    (some : 0 < digits.length) (most : (digits.length : Int) ≤ layout.limit)
    (fewer : kept.length ≤ digits.length)
    (whole : kept ++ List.replicate (digits.length - kept.length) '0' = digits) :
    layout.text ⟨kept, digits.length - 1⟩ = digits := by
  have length : ((digits.length : Int) - 1).toNat + 1 = digits.length := by omega
  rw [Layout.text]
  dsimp only
  rw [if_neg, if_neg (by omega), length, if_pos fewer, mark, List.append_nil, whole]
  rw [Bool.or_eq_true, decide_eq_true_iff, decide_eq_true_iff]
  omega

theorem text_displayMagnitude {b : Binary} {k d : Nat} (positive : b.mantissa ≠ 0) (hk : 0 < k)
    (hd : 0 < d) (small : k < 10 ^ 14) (ratio : b.ratio = (k * d, d)) :
    displayLayout.text (displayMagnitude b) = Nat.toDigits 10 k := by
  have most := (digitCount_le_iff (by decide)).mpr small
  obtain ⟨kept, stripped, fewer, whole⟩ := Decimal.exists_stripZeros (exists_digit_ne_zero hk)
    (14 - digitCount k) (digitCount k - 1)
  rw [displayMagnitude, if_neg positive, ratio, ofRatio_mul hk hd small, stripped]
  exact text_of_kept rfl (digitCount_pos k) (Int.ofNat_le.mpr most) fewer whole

theorem ratio_filled {m k : Nat} (negative : Bool) (filled : m * 2 ^ k.log2 = k * 2 ^ 52)
    (short : k.log2 < 52) :
    Binary.ratio ⟨negative, m, k.log2 - 52⟩ = (k * 2 ^ (52 - k.log2), 2 ^ (52 - k.log2)) := by
  have exponent : (-((k.log2 : Int) - 52)).toNat = 52 - k.log2 := by omega
  have mantissa : m = k * 2 ^ (52 - k.log2) := by
    apply Nat.eq_of_mul_eq_mul_right (Nat.two_pow_pos k.log2)
    rw [filled, Nat.mul_assoc, ← Nat.pow_add, Nat.sub_add_cancel short.le]
  rw [Binary.ratio]
  dsimp only
  rw [if_neg (by omega), exponent, Nat.pow_eq, mantissa]

/-- What is displayed of a whole number of at most fourteen digits: these, after the sign. -/
theorem display_of_filled {x : Float} {s : Sign} {m k : Nat} {hm : 0 < m}
    (read : unpacked x = .finite s m (k.log2 - 52) hm) (filled : m * 2 ^ k.log2 = k * 2 ^ 52)
    (small : k < 10 ^ 14) :
    display x = String.ofList
      (if signBit s then '-' :: Nat.toDigits 10 k else Nat.toDigits 10 k) := by
  have notNaN : x.isNaN = false := by
    change (unpacked x).isNaN = false
    rw [read]
    rfl
  have notInf : x.isInf = false := by
    change (unpacked x).isInf = false
    rw [read]
    rfl
  obtain ⟨hk, -⟩ := filled_log2 hm filled
  have short : k.log2 < 52 := (Nat.log2_lt (Nat.ne_of_gt hk)).mpr (by omega)
  have text := text_displayMagnitude (Nat.ne_of_gt hm) hk (Nat.two_pow_pos _) small
    (ratio_filled (signBit s) filled short)
  rw [display, textWith, notNaN, notInf, (ofFloat_of_finite read).1]
  simp only [Bool.false_eq_true, if_false, text]

/-! ## Integers -/

section

variable {n : Int}

theorem toList_toString (n : Int) : (toString n).toList =
    if n < 0 then '-' :: Nat.toDigits 10 n.natAbs else Nat.toDigits 10 n.natAbs := by
  cases n with
  | ofNat k =>
    rw [if_neg (by simp)]
    exact Nat.toList_repr
  | negSucc k =>
    have spelled : toString (Int.negSucc k) = "-" ++ (k + 1).repr := rfl
    rw [if_pos (Int.negSucc_lt_zero k), spelled, String.toList_append, Nat.toList_repr]
    rfl

/-- An integer of at most fourteen digits is displayed as it is spelled. -/
theorem display_ofInt (small : n.natAbs < 10 ^ 14) : display (Float.ofInt n) = toString n := by
  rw [← String.toList_inj, toList_toString]
  rcases eq_or_ne n 0 with rfl | nonzero
  · decide +kernel
  have reads := isWhole_iff.mp (isWhole_ofInt (a := n) (by omega))
  generalize hu : unpacked (Float.ofInt n) = u at reads
  cases reads with
  | zero s => exact absurd rfl nonzero
  | @finite s m k hm filled =>
    have hk := (filled_log2 hm filled).1
    cases s with
    | negative =>
      rw [Sign.apply, Int.natAbs_neg, Int.natAbs_natCast] at small
      have minus : signBit .negative = true := rfl
      rw [display_of_filled hu filled small, String.toList_ofList, minus, if_pos rfl, Sign.apply,
        if_pos (by omega), Int.natAbs_neg, Int.natAbs_natCast]
    | positive =>
      rw [Sign.apply, Int.natAbs_natCast] at small
      have plain : signBit .positive = false := rfl
      rw [display_of_filled hu filled small, String.toList_ofList, plain,
        if_neg Bool.false_ne_true, Sign.apply, if_neg (by omega), Int.natAbs_natCast]

end

/-! ## Reading them back -/

section

open MiniLua.Text

variable {n : Int} {k : Nat}

theorem decimalValue?_of_isDigit {c : Char} (digit : c.isDigit = true) :
    decimalValue? c = some (c.toNat - '0'.toNat) := by
  simp only [Char.isDigit, Bool.and_eq_true, decide_eq_true_eq] at digit
  obtain ⟨lower, upper⟩ := digit
  have ascii : c.toNat < 0x80 := Nat.lt_of_le_of_lt (UInt32.le_iff_toNat_le.mp upper) (by decide)
  rw [decimalValue?, if_pos ascii, if_pos]
  · rfl
  · rw [Bool.and_eq_true, decide_eq_true_iff, decide_eq_true_iff]
    exact ⟨lower, upper⟩

theorem isDigit_of_mem {c : Char} (member : c ∈ Nat.toDigits 10 k) : c.isDigit = true :=
  Nat.isDigit_of_mem_toDigits (by decide) (by decide) member

theorem ofDigits_decimalsOf {cs : List Char} (digits : ∀ c ∈ cs, c.isDigit = true) :
    ofDigits 10 (decimalsOf cs) = Nat.ofDigitChars 10 cs 0 := by
  have values : decimalsOf cs = cs.map fun c => c.toNat - '0'.toNat :=
    List.filterMap_eq_map_iff_forall_eq_some.mpr fun c member =>
      decimalValue?_of_isDigit (digits c member)
  rw [values, ofDigits, List.foldl_map, Nat.ofDigitChars_eq_foldl]

/-- The digits of a natural number spell it. -/
theorem spelled_toDigits (k : Nat) : Numeral.Spelled (Nat.toDigits 10 k) (.decimal k 0) := by
  have digits : Numeral.Digits (Nat.toDigits 10 k) := by
    refine ⟨Nat.toDigits_ne_nil, List.all_eq_true.mpr fun c member => ?_⟩
    rw [isDecimal, decimalValue?_of_isDigit (isDigit_of_mem member)]
    rfl
  have spelled : Numeral.Spelled (Nat.toDigits 10 k ++ ([] ++ ([] ++ []))) _ :=
    .decimal (by rwa [List.append_nil]) (.inr ⟨rfl, rfl⟩) .absent
  have value : ofDigits 10 (decimalsOf (Nat.toDigits 10 k)) = k := by
    rw [ofDigits_decimalsOf fun c member => isDigit_of_mem member, Nat.ofDigitChars_ten_toDigits]
  simpa [value] using spelled

theorem toFloat_decimal (small : k < 10 ^ 14) :
    (Numeral.decimal k 0).toFloat = .ok (Float.ofNat k) := by
  have length : (Nat.toDigits 10 k).length ≤ 14 := (digitCount_le_iff (by decide)).mpr small
  rw [Numeral.toFloat]
  split
  next none =>
    have zero : k = 0 := by
      simp only [Bool.or_eq_true, decide_eq_true_eq] at none
      omega
    rw [zero]
    rfl
  next =>
    rw [if_neg (by omega)]
    rfl

/-- The spelling of an integer of at most fourteen digits is read as the integer. -/
theorem parse?_toString (small : n.natAbs < 10 ^ 14) :
    parse? (toString n).toList = .ok (some (Float.ofInt n)) := by
  have spelled := spelled_toDigits n.natAbs
  have nearest := toFloat_decimal small
  rw [toList_toString]
  cases n with
  | ofNat k =>
    have bare : parse? ([] ++ (Nat.toDigits 10 k ++ [])) = .ok (some (Float.ofNat k)) :=
      (Signed.bare spelled).parse?_surrounded nearest nofun nofun
    rw [List.nil_append, List.append_nil] at bare
    rw [if_neg (by simp)]
    exact bare
  | negSucc k =>
    have minus : parse? ([] ++ ('-' :: Nat.toDigits 10 (k + 1) ++ [])) =
        .ok (some (-Float.ofNat (k + 1))) :=
      (Signed.minus spelled).parse?_surrounded nearest nofun nofun
    rw [List.nil_append, List.append_nil] at minus
    rw [if_pos (Int.negSucc_lt_zero k)]
    exact minus

end

end MiniLua.Number

namespace MiniLua

open Number

theorem Value.arithOperand_string {text : String} {x : Float}
    (read : parse? text.toList = .ok (some x)) (side : Side) :
    arithOperand side (.string text) = arithOperand side (.number x) := by
  rw [arithOperand, toNumber?, read]
  rfl

/-- A number that is an integer of at most fourteen digits is displayed as this is spelled, and the
text is the number again wherever it is used as one. A negative zero is not the number of an
integer. -/
theorem integers_as_text (n : Int) (small : |n| < 10 ^ 14) :
    display (Float.ofInt n) = toString n ∧
    parse? (display (Float.ofInt n)).toList = .ok (some (Float.ofInt n)) ∧
    (∃ text, Value.concat (.number (Float.ofInt n)) (.string "") = .ok (.string text) ∧
      Value.concat (.string "") (.number (Float.ofInt n)) = .ok (.string text) ∧
      ∀ op v, Value.arith op (.string text) v = Value.arith op (.number (Float.ofInt n)) v ∧
        Value.arith op v (.string text) = Value.arith op v (.number (Float.ofInt n))) ∧
    ∀ n' : Int, |n'| < 10 ^ 14 →
      display (Float.ofInt n') = display (Float.ofInt n) → n' = n := by
  have size {n : Int} (small : |n| < 10 ^ 14) : n.natAbs < 10 ^ 14 := by
    rw [Int.abs_eq_natAbs] at small
    omega
  have whole {n : Int} (small : |n| < 10 ^ 14) : IsWhole (Float.ofInt n) n :=
    isWhole_ofInt ((size small).trans (by decide))
  have shown := display_ofInt (size small)
  have read := parse?_toString (size small)
  refine ⟨shown, by rw [shown, read], ⟨toString n, ?_, ?_, fun op v => ⟨?_, ?_⟩⟩, ?_⟩
  · change Except.ok (Value.string (display (Float.ofInt n) ++ "")) = _
    rw [shown, String.append_empty]
  · change Except.ok (Value.string ("" ++ display (Float.ofInt n))) = _
    rw [shown, String.empty_append]
  · rw [Value.arith, Value.arith, Value.arithOperand_string read]
  · rw [Value.arith, Value.arith, Value.arithOperand_string read]
  · intro n' small' same
    rw [display_ofInt (size small'), shown] at same
    have read' := parse?_toString (size small')
    rw [same, read, Except.ok.injEq, Option.some.injEq] at read'
    rw [← (whole small').floor, ← read', (whole small).floor]

/-- As many zeros as fourteen digits can have. -/
theorem integers_as_text_zeros :
    display (Float.ofInt (-90000000000000)) = "-90000000000000" ∧
      parse? "-90000000000000".toList = .ok (some (Float.ofInt (-90000000000000))) := by
  obtain ⟨shown, read, -⟩ := integers_as_text (-90000000000000) (by decide)
  have spelled : toString (-90000000000000 : Int) = "-90000000000000" := by decide +kernel
  rw [shown, spelled] at read
  exact ⟨shown.trans spelled, read⟩

end MiniLua

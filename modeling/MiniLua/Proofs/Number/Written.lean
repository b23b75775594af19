import MiniLua.Proofs.Number.Finite
import MiniLua.Proofs.Token.Containment
import MiniLua.Proofs.Token.Separation

/-!
# Numerals as they are written

The numerals of programs by their shape: hexadecimal digits after `0x`, or decimal digits with a
point somewhere and an exponent behind. A text is scanned to its end if and only if it spells a
numeral of either shape, and the numeral gives a double if it is not a huge hexadecimal one.
-/

namespace MiniLua

/-! ## Blanks at both ends -/

namespace Text

variable {before cs after : List Char}

theorem any_head?_append {p : Char → Bool} (solid : ∀ c ∈ cs, p c = false) (nonempty : cs ≠ [])
    (tail : List Char) : (cs ++ tail).head?.any p = false := by
  obtain ⟨c, others, rfl⟩ := List.exists_cons_of_ne_nil nonempty
  exact solid c List.mem_cons_self

theorem trim_surrounded (blanks : ∀ c ∈ before, isBlank c = true)
    (blanks' : ∀ c ∈ after, isBlank c = true) (solid : ∀ c ∈ cs, isBlank c = false) :
    trim (before ++ (cs ++ after)) = cs := by
  have reversed : ∀ c ∈ after.reverse, isBlank c = true :=
    fun c member => blanks' c (List.mem_reverse.mp member)
  by_cases nonempty : cs = []
  · have all : ∀ c ∈ before ++ after, isBlank c = true :=
      fun c member => (List.mem_append.mp member).elim (blanks c) (blanks' c)
    rw [nonempty, List.nil_append, trim, List.dropWhile_eq_nil_iff.mpr all]
    rfl
  · have front := any_head?_append solid nonempty after
    have back : cs.reverse.head?.any isBlank = false := by
      rw [← List.append_nil cs.reverse]
      refine any_head?_append (fun c member => ?_) (List.reverse_ne_nil_iff.mpr nonempty) []
      exact solid c (List.mem_reverse.mp member)
    rw [trim, dropWhile_run blanks front, List.reverse_append, dropWhile_run reversed back,
      List.reverse_reverse]

theorem trim_eq_self (solid : ∀ c ∈ cs, isBlank c = false) : trim cs = cs := by
  have trimmed : trim ([] ++ (cs ++ [])) = cs := trim_surrounded nofun nofun solid
  rwa [List.nil_append, List.append_nil] at trimmed

/-- Trimming takes blanks off, and nothing else. -/
theorem exists_trim (cs : List Char) : ∃ before after, cs = before ++ (trim cs ++ after) ∧
    (∀ c ∈ before, isBlank c = true) ∧ ∀ c ∈ after, isBlank c = true := by
  refine ⟨cs.takeWhile isBlank, ((cs.dropWhile isBlank).reverse.takeWhile isBlank).reverse, ?_,
    fun c => List.mem_takeWhile_imp,
    fun c member => List.mem_takeWhile_imp (List.mem_reverse.mp member)⟩
  rw [trim, ← List.reverse_append, List.takeWhile_append_dropWhile, List.reverse_reverse,
    List.takeWhile_append_dropWhile]

end Text

namespace Number.Numeral

open MiniLua.Text

/-- Some decimal digits. -/
def Digits (cs : List Char) : Prop := cs ≠ [] ∧ cs.all isDecimal = true

/-- Digits with at most one point before, between or after them. -/
inductive Mantissa : List Char → Prop
  | whole {digits : List Char} (some : Digits digits) : Mantissa digits
  | pointed {whole part : List Char} (digits : Digits (whole ++ part)) :
      Mantissa (whole ++ '.' :: part)

/-- The letter, an optional sign, and digits. -/
inductive Exponent : List Char → Prop
  | absent : Exponent []
  | signed {e : Char} {sign digits : List Char} (letter : e = 'e' ∨ e = 'E')
      (optional : sign = [] ∨ sign = ['+'] ∨ sign = ['-']) (some : Digits digits) :
      Exponent (e :: sign ++ digits)

/-- A numeral; a hexadecimal one has a value that is well within the doubles. -/
inductive Written : List Char → Prop
  | hex {x : Char} {digits : List Char} (letter : x = 'x' ∨ x = 'X') (some : digits ≠ [])
      (all : digits.all isHex = true)
      (moderate : ofDigits 16 (digits.filterMap hexValue?) < 2 ^ 1023) :
      Written ('0' :: x :: digits)
  | decimal {mantissa exponent : List Char} (digits : Mantissa mantissa)
      (power : Exponent exponent) : Written (mantissa ++ exponent)

/-- The part behind the digits, with the power of ten it stands for. -/
inductive Power : List Char → Int → Prop
  | absent : Power [] 0
  | signed {e : Char} {sign digits : List Char} (letter : e = 'e' ∨ e = 'E')
      (optional : sign = [] ∨ sign = ['+'] ∨ sign = ['-']) (some : Digits digits) :
      Power (e :: sign ++ digits) (if sign = ['-'] then -(ofDigits 10 (decimalsOf digits) : Int)
        else ofDigits 10 (decimalsOf digits))

/-- The numeral that a text as a whole spells. -/
inductive Spelled : List Char → Numeral → Prop
  | hex {x : Char} {digits : List Char} (letter : x = 'x' ∨ x = 'X') (some : digits ≠ [])
      (all : ∀ c ∈ digits, isHex c = true) :
      Spelled ('0' :: x :: digits) (.hex (ofDigits 16 (digits.filterMap hexValue?)))
  | decimal {whole point part exponent : List Char} {power : Int} (digits : Digits (whole ++ part))
      (pointed : point = ['.'] ∨ point = [] ∧ part = []) (raised : Power exponent power) :
      Spelled (whole ++ (point ++ (part ++ exponent)))
        (.decimal (ofDigits 10 (decimalsOf (whole ++ part))) (power - part.length))

variable {cs rest : List Char} {numeral : Numeral}

theorem Exponent.power (h : Exponent cs) : ∃ power, Power cs power := by
  cases h with
  | absent => exact ⟨0, .absent⟩
  | signed letter optional some => exact ⟨_, .signed letter optional some⟩

/-- What is written as a numeral spells one. -/
theorem Written.spelled (h : Written cs) :
    ∃ numeral, Spelled cs numeral ∧ ∀ value, numeral = .hex value → value < 2 ^ 1023 := by
  cases h with
  | hex letter some all moderate =>
    refine ⟨_, .hex letter some (List.all_eq_true.mp all), fun value same => ?_⟩
    cases same
    exact moderate
  | @decimal mantissa exponent digits power =>
    obtain ⟨power, raised⟩ := power.power
    cases digits with
    | whole some =>
      have spelled := Spelled.decimal (by rwa [List.append_nil]) (.inr ⟨rfl, rfl⟩) raised
      exact ⟨_, spelled, fun _ other => by cases other⟩
    | @pointed whole part digits =>
      have spelled := Spelled.decimal digits (.inl rfl) raised
      rw [← List.append_assoc, ← List.append_assoc, List.append_assoc whole,
        List.singleton_append] at spelled
      exact ⟨_, spelled, fun _ other => by cases other⟩

/-! ## Characters -/

/-- What may stand between the digits of a decimal numeral. -/
def marks : List Char := ['.', 'e', 'E', '+', '-']

theorem ne_of_isDecimal {c d : Char} (h : isDecimal c = true) (other : isDecimal d = false) :
    c ≠ d := by
  rintro rfl
  rw [h] at other
  cases other

theorem Digits.chars (h : Digits cs) : ∀ c ∈ cs, isDecimal c = true :=
  List.all_eq_true.mp h.2

theorem Power.chars {power : Int} (h : Power cs power) :
    ∀ c ∈ cs, isDecimal c = true ∨ c ∈ marks := by
  cases h with
  | absent => exact nofun
  | signed letter optional some =>
    intro c member
    rcases List.mem_append.mp member with front | digit
    · rcases List.mem_cons.mp front with rfl | sign
      · rcases letter with rfl | rfl <;> simp [marks]
      · rcases optional with rfl | rfl | rfl
        · cases sign
        · simp [List.mem_singleton.mp sign, marks]
        · simp [List.mem_singleton.mp sign, marks]
    · exact .inl (some.chars c digit)

theorem decimal_chars {whole point part exponent : List Char} {power : Int}
    (digits : Digits (whole ++ part)) (pointed : point = ['.'] ∨ point = [] ∧ part = [])
    (raised : Power exponent power) :
    ∀ c ∈ whole ++ (point ++ (part ++ exponent)), isDecimal c = true ∨ c ∈ marks := by
  intro c member
  simp only [List.mem_append] at member
  rcases member with whole | point | part | exponent
  · exact .inl (digits.chars c (List.mem_append_left _ whole))
  · rcases pointed with rfl | ⟨rfl, -⟩
    · exact .inr (by simp [List.mem_singleton.mp point, marks])
    · cases point
  · exact .inl (digits.chars c (List.mem_append_right _ part))
  · exact raised.chars c exponent

/-- Behind a mantissa an exponent starts with neither a digit nor a point. -/
theorem Power.head {power : Int} (h : Power cs power) :
    cs.head?.any isDecimal = false ∧ cs.head? ≠ some '.' := by
  cases h with
  | absent => exact ⟨rfl, nofun⟩
  | signed letter =>
    rcases letter with rfl | rfl
    · exact ⟨show isDecimal 'e' = false by decide, by simp⟩
    · exact ⟨show isDecimal 'E' = false by decide, by simp⟩

theorem Spelled.isBlank_eq_false (h : Spelled cs numeral) : ∀ c ∈ cs, isBlank c = false := by
  cases h with
  | hex letter some all =>
    intro c member
    rcases List.mem_cons.mp member with rfl | member
    · decide
    · rcases List.mem_cons.mp member with rfl | digit
      · rcases letter with rfl | rfl <;> decide
      · exact isBlank_of_isHex (all c digit)
  | decimal digits pointed raised =>
    have solid : marks.all (!isBlank ·) = true := by decide
    intro c member
    rcases decimal_chars digits pointed raised c member with digit | mark
    · exact isBlank_of_isDecimal digit
    · simpa using List.all_eq_true.mp solid c mark

/-- A numeral starts with a digit or a point. -/
theorem Spelled.head (h : Spelled cs numeral) :
    ∃ c tail, cs = c :: tail ∧ (isDecimal c = true ∨ c = '.') := by
  cases h with
  | hex => exact ⟨'0', _, rfl, .inl (by decide)⟩
  | @decimal whole point part exponent power digits pointed raised =>
    cases whole with
    | cons c whole => exact ⟨c, _, rfl, .inl (digits.chars c List.mem_cons_self)⟩
    | nil =>
      rcases pointed with rfl | ⟨rfl, rfl⟩
      · exact ⟨'.', _, rfl, .inr rfl⟩
      · exact absurd rfl digits.1

theorem Spelled.unsigned (h : Spelled cs numeral) :
    cs.head? ≠ some '-' ∧ cs.head? ≠ some '+' := by
  obtain ⟨c, tail, rfl, digit | rfl⟩ := h.head
  · simp only [List.head?_cons, ne_eq, Option.some.injEq]
    exact ⟨ne_of_isDecimal digit (by decide), ne_of_isDecimal digit (by decide)⟩
  · exact ⟨by simp, by simp⟩

/-! ## Scanning -/

theorem Digits.splitSign (h : Digits cs) {sign : List Char}
    (optional : sign = [] ∨ sign = ['+'] ∨ sign = ['-']) :
    Number.splitSign (sign ++ (cs ++ rest)) = (decide (sign = ['-']), cs ++ rest) := by
  obtain ⟨c, tail, rfl⟩ := List.exists_cons_of_ne_nil h.1
  have digit := h.chars c List.mem_cons_self
  rcases optional with rfl | rfl | rfl
  · apply splitSign_of_unsigned
    rw [List.nil_append, List.cons_append, List.head?_cons, Ne, Ne, Option.some.injEq,
      Option.some.injEq]
    exact ⟨ne_of_isDecimal digit (by decide), ne_of_isDecimal digit (by decide)⟩
  · rfl
  · rfl

theorem splitSign_sign (cs : List Char) : ∃ sign, cs = sign ++ (Number.splitSign cs).2 ∧
    (sign = [] ∨ sign = ['+'] ∨ sign = ['-']) ∧
    (Number.splitSign cs).1 = decide (sign = ['-']) := by
  unfold Number.splitSign
  split
  next tail => exact ⟨['-'], rfl, .inr (.inr rfl), rfl⟩
  next tail => exact ⟨['+'], rfl, .inr (.inl rfl), rfl⟩
  next => exact ⟨[], rfl, .inl rfl, rfl⟩

/-- The letter of an exponent, an optional sign, and a digit. -/
def StartsExponent (cs : List Char) : Prop :=
  ∃ e sign d tail, cs = e :: (sign ++ d :: tail) ∧ (e = 'e' ∨ e = 'E') ∧
    (sign = [] ∨ sign = ['+'] ∨ sign = ['-']) ∧ isDecimal d = true

theorem startsExponent_cons {e : Char} {tail : List Char} : StartsExponent (e :: tail) ↔
    (e = 'e' ∨ e = 'E') ∧ (Number.splitSign tail).2.takeWhile isDecimal ≠ [] := by
  constructor
  · rintro ⟨e', sign, d, behind, same, letter, optional, digit⟩
    obtain ⟨rfl, rfl⟩ := List.cons.inj same
    have single : Digits [d] := ⟨List.cons_ne_nil _ _, by simpa using digit⟩
    have signed : Number.splitSign (sign ++ ([d] ++ behind)) = _ := single.splitSign optional
    rw [List.singleton_append] at signed
    rw [signed]
    exact ⟨letter, takeWhile_isDecimal_ne_nil digit⟩
  · rintro ⟨letter, some⟩
    obtain ⟨sign, same, optional, -⟩ := splitSign_sign tail
    obtain ⟨d, digits, first⟩ := List.exists_cons_of_ne_nil some
    have behind := List.takeWhile_append_dropWhile (p := isDecimal)
      (l := (Number.splitSign tail).2)
    have digit : d ∈ (Number.splitSign tail).2.takeWhile isDecimal := by
      rw [first]
      exact List.mem_cons_self
    rw [first, List.cons_append] at behind
    exact ⟨e, sign, d, _, by rw [behind, ← same], letter, optional, List.mem_takeWhile_imp digit⟩

theorem scanHex_eq_some_iff {numeral : Numeral} : scanHex cs = some (numeral, rest) ↔
    ∃ x digits, cs = '0' :: x :: (digits ++ rest) ∧ (x = 'x' ∨ x = 'X') ∧ digits ≠ [] ∧
      (∀ c ∈ digits, isHex c = true) ∧ rest.head?.any isHex = false ∧
      numeral = .hex (ofDigits 16 (digits.filterMap hexValue?)) := by
  constructor
  · intro h
    unfold scanHex at h
    split at h
    next x cs =>
      split at h
      next letter =>
        split at h
        next => cases h
        next some =>
          cases h
          refine ⟨x, cs.takeWhile isHex, ?_, by simpa using letter, some,
            fun c => List.mem_takeWhile_imp, any_head?_dropWhile _ _, rfl⟩
          rw [List.takeWhile_append_dropWhile]
      next => cases h
    next => cases h
  · rintro ⟨x, digits, rfl, letter, some, all, ends, rfl⟩
    rw [scanHex_cons, if_pos (by simpa using letter), takeWhile_run all ends,
      dropWhile_run all ends]
    cases digits with
    | nil => exact absurd rfl some
    | cons d digits => rfl

theorem scanMantissa_eq_some_iff {whole part : List Char} :
    scanMantissa cs = some (whole, part, rest) ↔
      rest.head?.any isDecimal = false ∧ Digits (whole ++ part) ∧
        ((part = [] ∧ rest.head? ≠ some '.' ∧ cs = whole ++ rest) ∨
          cs = whole ++ '.' :: (part ++ rest)) := by
  have all : ∀ cs : List Char, (cs.takeWhile isDecimal).all isDecimal = true :=
    fun cs => List.all_takeWhile
  have split := List.takeWhile_append_dropWhile (p := isDecimal) (l := cs)
  constructor
  · intro h
    by_cases point : (cs.dropWhile isDecimal).head? = some '.'
    · obtain ⟨behind, same⟩ := List.head?_eq_some_iff.mp point
      rw [scanMantissa_of_point same] at h
      split at h
      next => cases h
      next some =>
        cases h
        refine ⟨any_head?_dropWhile _ _, ⟨?_, ?_⟩, .inr ?_⟩
        · rwa [Bool.and_eq_true, List.isEmpty_iff, List.isEmpty_iff, ← List.append_eq_nil_iff]
            at some
        · rw [List.all_append, all, all, Bool.and_self]
        · rw [List.takeWhile_append_dropWhile, ← same, split]
    · rw [scanMantissa_of_other point] at h
      split at h
      next => cases h
      next some =>
        cases h
        refine ⟨any_head?_dropWhile _ _, ?_, .inl ⟨rfl, point, split.symm⟩⟩
        rw [List.append_nil]
        exact ⟨by simpa using some, all cs⟩
  · rintro ⟨ends, digits, ⟨rfl, pointless, rfl⟩ | rfl⟩
    · rw [List.append_nil] at digits
      have after := dropWhile_run digits.chars ends
      rw [scanMantissa_of_other (by rwa [after]), takeWhile_run digits.chars ends, after,
        if_neg (by simpa using digits.1)]
    · have before : ∀ c ∈ whole, isDecimal c = true :=
        fun c member => digits.chars c (List.mem_append_left _ member)
      have behind : ∀ c ∈ part, isDecimal c = true :=
        fun c member => digits.chars c (List.mem_append_right _ member)
      have point : ('.' :: (part ++ rest)).head?.any isDecimal = false := by
        change isDecimal '.' = false
        decide
      have some : ¬ (whole.isEmpty && part.isEmpty) = true := by
        rw [Bool.and_eq_true, List.isEmpty_iff, List.isEmpty_iff, ← List.append_eq_nil_iff]
        exact digits.1
      rw [scanMantissa_of_point (dropWhile_run before point), takeWhile_run before point,
        takeWhile_run behind ends, dropWhile_run behind ends, if_neg some]

theorem scanExponent_eq_iff {value : Int} : scanExponent cs = (value, rest) ↔
    (∃ e sign digits, cs = e :: (sign ++ (digits ++ rest)) ∧ (e = 'e' ∨ e = 'E') ∧
      (sign = [] ∨ sign = ['+'] ∨ sign = ['-']) ∧ Digits digits ∧
      rest.head?.any isDecimal = false ∧
      value = if sign = ['-'] then -(ofDigits 10 (decimalsOf digits) : Int)
        else ofDigits 10 (decimalsOf digits)) ∨
    (¬ StartsExponent cs ∧ value = 0 ∧ rest = cs) := by
  constructor
  · intro h
    cases cs with
    | nil =>
      cases h
      refine .inr ⟨?_, rfl, rfl⟩
      rintro ⟨e, sign, d, tail, same, -⟩
      cases same
    | cons e tail =>
      rw [startsExponent_cons]
      rw [scanExponent_cons] at h
      split at h
      next letter =>
        split at h
        next none =>
          cases h
          exact .inr ⟨fun starts => starts.2 none, rfl, rfl⟩
        next some =>
          cases h
          obtain ⟨sign, same, optional, minus⟩ := splitSign_sign tail
          refine .inl ⟨e, sign, (Number.splitSign tail).2.takeWhile isDecimal, ?_,
            by simpa using letter, optional, ⟨some, List.all_takeWhile⟩,
            any_head?_dropWhile _ _, ?_⟩
          · rw [List.takeWhile_append_dropWhile, ← same]
          · simp only [minus, decide_eq_true_eq]
      next other =>
        cases h
        exact .inr ⟨fun starts => other (by simpa using starts.1), rfl, rfl⟩
  · rintro (⟨e, sign, digits, rfl, letter, optional, some, ends, rfl⟩ | ⟨other, rfl, rfl⟩)
    · rw [scanExponent_cons, if_pos (by simpa using letter), some.splitSign optional]
      dsimp only
      rw [takeWhile_run some.chars ends, dropWhile_run some.chars ends, if_neg some.1]
      simp only [decide_eq_true_eq]
    · cases rest with
      | nil => rfl
      | cons e tail =>
        rw [startsExponent_cons] at other
        rw [scanExponent_cons]
        split
        next letter => rw [if_pos (by_contra fun some => other ⟨by simpa using letter, some⟩)]
        next => rfl

theorem scanDecimal_eq_some_iff {numeral : Numeral} : scanDecimal cs = some (numeral, rest) ↔
    ∃ whole part behind value, scanMantissa cs = some (whole, part, behind) ∧
      scanExponent behind = (value, rest) ∧
      numeral = .decimal (ofDigits 10 (decimalsOf (whole ++ part))) (value - part.length) := by
  rw [scanDecimal, Option.map_eq_some_iff]
  constructor
  · rintro ⟨⟨whole, part, behind⟩, found, same⟩
    obtain ⟨rfl, rfl⟩ := Prod.mk.inj same
    exact ⟨whole, part, behind, _, found, rfl, rfl⟩
  · rintro ⟨whole, part, behind, value, found, ended, rfl⟩
    refine ⟨(whole, part, behind), found, ?_⟩
    dsimp only
    rw [ended]

/-- A numeral without an `x` is not hexadecimal. -/
theorem scanHex_of_letterless (h : ∀ c ∈ cs, c ≠ 'x' ∧ c ≠ 'X') : scanHex cs = none := by
  by_contra found
  obtain ⟨⟨numeral, rest⟩, found⟩ := Option.ne_none_iff_exists'.mp found
  obtain ⟨x, digits, rfl, letter, -⟩ := scanHex_eq_some_iff.mp found
  obtain ⟨lower, upper⟩ := h x (by simp)
  exact letter.elim lower upper

/-- A numeral is scanned to its end. -/
theorem Spelled.scan (h : Spelled cs numeral) : Numeral.scan cs = some (numeral, []) := by
  cases h with
  | @hex x digits letter some all =>
    have scanned := scanHex_eq_some_iff.mpr ⟨x, digits, by rw [List.append_nil], letter, some,
      all, rfl, rfl⟩
    rw [Numeral.scan, scanned, Option.some_or]
  | @decimal whole point part exponent power digits pointed raised =>
    have letterless : ∀ c ∈ whole ++ (point ++ (part ++ exponent)), c ≠ 'x' ∧ c ≠ 'X' := by
      have others : marks.all (fun c => c ≠ 'x' ∧ c ≠ 'X') = true := by decide
      intro c member
      rcases decimal_chars digits pointed raised c member with digit | mark
      · exact ⟨ne_of_isDecimal digit (by decide), ne_of_isDecimal digit (by decide)⟩
      · simpa using List.all_eq_true.mp others c mark
    obtain ⟨ends, pointless⟩ := raised.head
    have found : scanMantissa (whole ++ (point ++ (part ++ exponent))) =
        some (whole, part, exponent) := by
      refine scanMantissa_eq_some_iff.mpr ⟨ends, digits, ?_⟩
      rcases pointed with rfl | ⟨rfl, rfl⟩
      · exact .inr rfl
      · exact .inl ⟨rfl, pointless, rfl⟩
    have ended : scanExponent exponent = (power, []) := by
      cases raised with
      | absent => rfl
      | @signed e sign digits letter optional some =>
        refine scanExponent_eq_iff.mpr
          (.inl ⟨e, sign, digits, ?_, letter, optional, some, rfl, rfl⟩)
        rw [List.append_nil, List.cons_append]
    rw [Numeral.scan, scanHex_of_letterless letterless, Option.none_or]
    exact scanDecimal_eq_some_iff.mpr ⟨whole, part, exponent, power, found, ended, rfl⟩

/-- What is scanned to its end is a numeral. -/
theorem spelled_of_scan (h : Numeral.scan cs = some (numeral, [])) : Spelled cs numeral := by
  rcases Option.or_eq_some_iff.mp h with hex | ⟨-, decimal⟩
  · obtain ⟨x, digits, rfl, letter, some, all, -, rfl⟩ := scanHex_eq_some_iff.mp hex
    rw [List.append_nil]
    exact .hex letter some all
  · obtain ⟨whole, part, exponent, power, found, ended, rfl⟩ := scanDecimal_eq_some_iff.mp decimal
    obtain ⟨-, digits, shape⟩ := scanMantissa_eq_some_iff.mp found
    have raised : Power exponent power := by
      rcases scanExponent_eq_iff.mp ended with
        ⟨e, sign, digits, rfl, letter, optional, some, -, rfl⟩ | ⟨-, rfl, same⟩
      · rw [List.append_nil, ← List.cons_append]
        exact .signed letter optional some
      · rw [← same]
        exact .absent
    rcases shape with ⟨rfl, -, rfl⟩ | rfl
    · exact .decimal digits (.inr ⟨rfl, rfl⟩) raised
    · exact .decimal digits (.inl rfl) raised

theorem scan_eq_some_iff : Numeral.scan cs = some (numeral, []) ↔ Spelled cs numeral :=
  ⟨spelled_of_scan, Spelled.scan⟩

/-- A numeral that is not a huge hexadecimal one gives a double, whoever reads it. -/
theorem Written.parse? (h : Written cs) : ∃ value, Number.parse? cs = .ok (some value) := by
  obtain ⟨numeral, spelled, moderate⟩ := h.spelled
  have nearest : ∃ value, numeral.toFloat = .ok value := by
    cases found : numeral.toFloat with
    | ok value => exact ⟨value, rfl⟩
    | error fault =>
      obtain ⟨value, rfl, infinite⟩ := toFloat_eq_error.mp found
      rw [isInf_ofNat (moderate value rfl) le_rfl] at infinite
      cases infinite
  obtain ⟨value, nearest⟩ := nearest
  refine ⟨value, ?_⟩
  rw [Number.parse?, Text.trim_eq_self spelled.isBlank_eq_false,
    splitSign_of_unsigned spelled.unsigned]
  dsimp only
  rw [spelled.scan]
  dsimp only
  rw [nearest]
  rfl

end Number.Numeral

end MiniLua

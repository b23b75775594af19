import MiniLua.Proofs.Number.Written
import MiniLua.Proofs.Token.Cutting
import MiniLua.Value.Basic

/-!
# Numerals in programs and in strings

A string counts as a number if a numeral is what stands in it, apart from blanks around and one sign
in front. The same numerals, without these, are the number tokens of a program, and they mean the
same number.
-/

namespace MiniLua

open MiniLua.Text MiniLua.Lexer MiniLua.Number

/-- A text that neither starts with a sign nor has a blank at one of its ends. -/
structure Bare (cs : List Char) : Prop where
  unsigned : cs.head? ≠ some '-' ∧ cs.head? ≠ some '+'
  front : cs.head?.any isBlank = false
  back : cs.getLast?.any isBlank = false

def IsSign (c : Char) : Prop := c = '+' ∨ c = '-'

/-! ## Numbers in strings -/

namespace Number

variable {cs : List Char} {negative : Bool} {numeral : Numeral} {v : Float}

/-- At most one sign, and a numeral. -/
inductive Signed : List Char → (negative : Bool) → Numeral → Prop
  | bare {cs : List Char} {numeral : Numeral} (spelled : Numeral.Spelled cs numeral) :
      Signed cs false numeral
  | plus {cs : List Char} {numeral : Numeral} (spelled : Numeral.Spelled cs numeral) :
      Signed ('+' :: cs) false numeral
  | minus {cs : List Char} {numeral : Numeral} (spelled : Numeral.Spelled cs numeral) :
      Signed ('-' :: cs) true numeral

/-- A numeral with at most one sign, among blanks. -/
def Numerical (cs : List Char) (negative : Bool) (numeral : Numeral) : Prop :=
  ∃ before signed after, cs = before ++ (signed ++ after) ∧ Signed signed negative numeral ∧
    (∀ c ∈ before, isBlank c = true) ∧ ∀ c ∈ after, isBlank c = true

theorem Signed.solid (h : Signed cs negative numeral) : ∀ c ∈ cs, isBlank c = false := by
  cases h with
  | bare spelled => exact spelled.isBlank_eq_false
  | plus spelled => exact List.forall_mem_cons.mpr ⟨by decide, spelled.isBlank_eq_false⟩
  | minus spelled => exact List.forall_mem_cons.mpr ⟨by decide, spelled.isBlank_eq_false⟩

theorem Signed.splitSign (h : Signed cs negative numeral) :
    ∃ body, splitSign cs = (negative, body) ∧ Numeral.Spelled body numeral := by
  cases h with
  | bare spelled => exact ⟨cs, splitSign_of_unsigned spelled.unsigned, spelled⟩
  | plus spelled => exact ⟨_, rfl, spelled⟩
  | minus spelled => exact ⟨_, rfl, spelled⟩

theorem signed_of_splitSign (spelled : Numeral.Spelled (splitSign cs).2 numeral) :
    Signed cs (splitSign cs).1 numeral := by
  unfold Number.splitSign at spelled ⊢
  split at spelled
  next => exact .minus spelled
  next => exact .plus spelled
  next => exact .bare spelled

theorem Signed.ne_nil (h : Signed cs negative numeral) : cs ≠ [] := by
  rintro rfl
  cases h with
  | bare spelled =>
    obtain ⟨c, tail, same, -⟩ := spelled.head
    cases same

/-- In a string that has a numeral in this way, the numeral is what counts. -/
theorem Numerical.parse? (h : Numerical cs negative numeral) :
    parse? cs = numeral.toFloat.map fun x => some (if negative then -x else x) := by
  obtain ⟨before, signed, after, rfl, shape, blanks, blanks'⟩ := h
  obtain ⟨body, split, spelled⟩ := shape.splitSign
  rw [Number.parse?, trim_surrounded blanks blanks' shape.solid, split]
  dsimp only
  rw [spelled.scan]

/-- Any other string is no number. -/
theorem parse?_eq_none (h : ∀ negative numeral, ¬ Numerical cs negative numeral) :
    parse? cs = .ok none := by
  obtain ⟨before, after, same, blanks, blanks'⟩ := exists_trim cs
  unfold Number.parse?
  dsimp only
  split
  next numeral scanned =>
    have shape := signed_of_splitSign (Numeral.scan_eq_some_iff.mp scanned)
    exact absurd ⟨before, _, after, same, shape, blanks, blanks'⟩ (h _ numeral)
  next => rfl

theorem parse?_eq_some_iff : parse? cs = .ok (some v) ↔
    ∃ negative numeral x, Numerical cs negative numeral ∧ numeral.toFloat = .ok x ∧
      v = if negative then -x else x := by
  constructor
  · intro parsed
    by_cases some : ∃ negative numeral, Numerical cs negative numeral
    · obtain ⟨negative, numeral, shape⟩ := some
      rw [shape.parse?] at parsed
      cases nearest : numeral.toFloat with
      | error fault =>
        rw [nearest] at parsed
        cases parsed
      | ok x =>
        rw [nearest] at parsed
        cases parsed
        exact ⟨negative, numeral, x, shape, nearest, rfl⟩
    · rw [parse?_eq_none fun negative numeral shape => some ⟨negative, numeral, shape⟩] at parsed
      cases parsed
  · rintro ⟨negative, numeral, x, shape, nearest, rfl⟩
    rw [shape.parse?, nearest]
    rfl

/-- A numeral starts with neither a sign nor a blank. -/
theorem not_spelled_of_head {c : Char} {body after rest : List Char}
    (front : IsSign c ∨ isBlank c = true) (same : body ++ after = c :: rest) :
    ¬ Numeral.Spelled body numeral := by
  intro spelled
  obtain ⟨d, tail, rfl, -⟩ := spelled.head
  obtain ⟨rfl, -⟩ := List.cons.inj same
  have unsigned := spelled.unsigned
  simp only [List.head?_cons, ne_eq, Option.some.injEq] at unsigned
  rcases front with (plus | minus) | blank
  · exact unsigned.2 plus
  · exact unsigned.1 minus
  · rw [spelled.isBlank_eq_false d List.mem_cons_self] at blank
    cases blank

theorem Signed.parse?_surrounded {before after : List Char} (h : Signed cs negative numeral)
    (nearest : numeral.toFloat = .ok v) (blanks : ∀ c ∈ before, isBlank c = true)
    (blanks' : ∀ c ∈ after, isBlank c = true) :
    parse? (before ++ (cs ++ after)) = .ok (some (if negative then -v else v)) :=
  parse?_eq_some_iff.mpr
    ⟨negative, numeral, v, ⟨before, cs, after, rfl, h, blanks, blanks'⟩, nearest, rfl⟩

/-- Blanks, a sign, and a sign or a blank are not the front of a number. -/
theorem not_numerical {before rest : List Char} {sign next : Char}
    (blanks : ∀ c ∈ before, isBlank c = true) (marks : IsSign sign)
    (follows : IsSign next ∨ isBlank next = true) :
    ¬ Numerical (before ++ sign :: next :: rest) negative numeral := by
  rintro ⟨before', signed, after, same, shape, blanks', -⟩
  have solid : (sign :: next :: rest).head?.any isBlank = false := by
    change isBlank sign = false
    rcases marks with rfl | rfl <;> decide
  have solid' := any_head?_append shape.solid shape.ne_nil after
  -- without the blanks the two are the same text, and behind its sign no numeral starts
  have cut := congrArg (List.dropWhile isBlank) same
  rw [dropWhile_run blanks solid, dropWhile_run blanks' solid'] at cut
  cases shape with
  | bare spelled => exact not_spelled_of_head (.inl marks) cut.symm spelled
  | plus spelled => exact not_spelled_of_head follows (List.cons.inj cut).2.symm spelled
  | minus spelled => exact not_spelled_of_head follows (List.cons.inj cut).2.symm spelled

/-! ## Numbers in programs -/

/-- Without a sign and blanks a number is a numeral and nothing else. -/
theorem Numerical.spelled (h : Numerical cs negative numeral) (bare : Bare cs) :
    negative = false ∧ Numeral.Spelled cs numeral := by
  obtain ⟨before, signed, after, rfl, shape, blanks, blanks'⟩ := h
  obtain rfl : before = [] := by
    by_contra some
    obtain ⟨c, tail, rfl⟩ := List.exists_cons_of_ne_nil some
    have front := bare.front
    rw [List.cons_append, List.head?_cons, Option.any_some, blanks c List.mem_cons_self] at front
    cases front
  obtain rfl : after = [] := by
    by_contra some
    have back := bare.back
    rw [List.nil_append, List.getLast?_append_of_ne_nil _ some, List.getLast?_eq_some_getLast some,
      Option.any_some, blanks' _ (List.getLast_mem some)] at back
    cases back
  rw [List.nil_append, List.append_nil] at bare ⊢
  cases shape with
  | bare spelled => exact ⟨rfl, spelled⟩
  | plus => exact absurd rfl bare.unsigned.2
  | minus => exact absurd rfl bare.unsigned.1

theorem Numeral.Spelled.bare (h : Numeral.Spelled cs numeral) : Bare cs where
  unsigned := h.unsigned
  front := by
    obtain ⟨c, tail, rfl, -⟩ := h.head
    exact h.isBlank_eq_false c List.mem_cons_self
  back := by
    cases last : cs.getLast? with
    | none => rfl
    | some c => exact h.isBlank_eq_false c (List.mem_of_getLast? last)

/-- The tokenizer reads a whole text as a number if and only if it is a numeral of that value. -/
theorem step_number_iff :
    Step isBlank cs (some (.number v)) cs.length ↔
      ∃ numeral, Numeral.Spelled cs numeral ∧ numeral.toFloat = .ok v := by
  constructor
  · intro step
    have whole : Step isBlank (cs ++ []) (some (.number v)) cs.length := by rwa [List.append_nil]
    cases whole.splitsOff.1 with
    | @number _ _ numeral _ scanned _ nearest =>
      rw [List.append_nil] at scanned
      exact ⟨numeral, Numeral.scan_eq_some_iff.mp scanned, nearest⟩
  · rintro ⟨numeral, spelled, nearest⟩
    obtain ⟨-, -, -, starts⟩ := Numeral.scan_prefix spelled.scan
    obtain ⟨c, tail, rfl, -⟩ := spelled.head
    obtain ⟨solid, uncommented, -⟩ := readToken_of_startsNumber starts
    exact .token solid uncommented (readToken_eq_ok_iff.mpr (.number spelled.scan rfl nearest))

theorem parse?_bare_iff (bare : Bare cs) : parse? cs = .ok (some v) ↔
    ∃ numeral, Numeral.Spelled cs numeral ∧ numeral.toFloat = .ok v := by
  rw [parse?_eq_some_iff]
  constructor
  · rintro ⟨negative, numeral, x, shape, nearest, rfl⟩
    obtain ⟨rfl, spelled⟩ := shape.spelled bare
    exact ⟨numeral, spelled, nearest⟩
  · rintro ⟨numeral, spelled, nearest⟩
    exact ⟨false, numeral, v, ⟨[], cs, [], by simp, .bare spelled, nofun, nofun⟩, nearest, rfl⟩

theorem tokenize_of_step_number (h : Step isBlank cs (some (.number v)) cs.length) :
    tokenize cs = .ok [⟨.number v, 1⟩, ⟨.endOfText, 1⟩] := by
  obtain ⟨numeral, spelled, -⟩ := step_number_iff.mp h
  have unbroken : cs.count '\n' = 0 := by
    refine List.count_eq_zero_of_not_mem fun member => ?_
    exact absurd (spelled.isBlank_eq_false _ member) (by decide)
  refine tokenize_eq_ok.mpr ⟨[⟨.number v, 1⟩], 1, .read h ?_, rfl⟩
  rw [List.take_length, List.drop_length, unbroken]
  exact .refl

end Number

/-- The texts read as one number token are the numerals that give a double. They are also the texts
without a sign and blanks that count as numbers, for the same number. Blanks and one sign can be put
around them, and two signs, or a sign and a blank, start no number. -/
theorem numerals_agree (s : List Char) :
    (∀ v, Step isBlank s (some (.number v)) s.length ↔
      ∃ numeral, Numeral.Spelled s numeral ∧ numeral.toFloat = .ok v) ∧
    (∀ v, Step isBlank s (some (.number v)) s.length ↔
      Bare s ∧ (Value.string (String.ofList s)).toNumber? = .ok (some v)) ∧
    (∀ v, Bare s → parse? s = .ok (some v) →
      tokenize s = .ok [⟨.number v, 1⟩, ⟨.endOfText, 1⟩] ∧
      ∀ before after, (∀ c ∈ before, isBlank c = true) → (∀ c ∈ after, isBlank c = true) →
        parse? (before ++ (s ++ after)) = .ok (some v) ∧
        parse? (before ++ ('+' :: s ++ after)) = .ok (some v) ∧
        parse? (before ++ ('-' :: s ++ after)) = .ok (some (-v))) ∧
    ∀ before sign next, (∀ c ∈ before, isBlank c = true) → IsSign sign →
      IsSign next ∨ isBlank next = true → parse? (before ++ sign :: next :: s) = .ok none := by
  have reads : ∀ v, Step isBlank s (some (.number v)) s.length ↔
      Bare s ∧ parse? s = .ok (some v) := by
    intro v
    constructor
    · intro step
      obtain ⟨numeral, spelled, nearest⟩ := step_number_iff.mp step
      exact ⟨spelled.bare, (parse?_bare_iff spelled.bare).mpr ⟨numeral, spelled, nearest⟩⟩
    · rintro ⟨bare, parsed⟩
      exact step_number_iff.mpr ((parse?_bare_iff bare).mp parsed)
  refine ⟨fun v => step_number_iff, fun v => ?_, fun v bare parsed => ⟨?_, ?_⟩, ?_⟩
  · rw [reads, Value.toNumber?, String.toList_ofList]
  · exact tokenize_of_step_number ((reads v).mpr ⟨bare, parsed⟩)
  · intro before after blanks blanks'
    obtain ⟨numeral, spelled, nearest⟩ := (parse?_bare_iff bare).mp parsed
    exact ⟨Signed.parse?_surrounded (.bare spelled) nearest blanks blanks',
      Signed.parse?_surrounded (.plus spelled) nearest blanks blanks',
      Signed.parse?_surrounded (.minus spelled) nearest blanks blanks'⟩
  · intro before sign next blanks marks follows
    exact parse?_eq_none fun _ _ => not_numerical blanks marks follows

/-- Digits of another script, a no-break space and a tab. -/
theorem numerals_agree_arabicIndic :
    let s := "٣.5e+2".toList
    Bare s ∧ parse? s = .ok (some 350) ∧ Step isBlank s (some (.number 350)) 6 ∧
      tokenize s = .ok [⟨.number 350, 1⟩, ⟨.endOfText, 1⟩] ∧
      parse? (['\u00a0'] ++ ('-' :: s ++ ['\t'])) = .ok (some (-350)) ∧
      parse? ([' '] ++ '+' :: '-' :: s) = .ok none ∧
      parse? ([] ++ '-' :: '\t' :: s) = .ok none := by
  intro s
  have bare : Bare s := ⟨by decide, by decide, by decide⟩
  have parsed : parse? s = .ok (some 350) := by decide +kernel
  obtain ⟨-, reads, written, refused⟩ := numerals_agree s
  obtain ⟨token, around⟩ := written 350 bare parsed
  have counts : (Value.string (String.ofList s)).toNumber? = .ok (some 350) := by
    rwa [Value.toNumber?, String.toList_ofList]
  exact ⟨bare, parsed, (reads 350).mpr ⟨bare, counts⟩, token,
    (around ['\u00a0'] ['\t'] (List.forall_mem_singleton.mpr (by decide))
      (List.forall_mem_singleton.mpr (by decide))).2.2,
    refused [' '] '+' '-' (List.forall_mem_singleton.mpr (by decide)) (.inl rfl) (.inl (.inr rfl)),
    refused [] '-' '\t' nofun (.inr rfl) (.inr (by decide))⟩

end MiniLua

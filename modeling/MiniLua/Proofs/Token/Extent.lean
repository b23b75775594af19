import Mathlib.Data.List.TakeWhile
import MiniLua.Token.Lexer

/-!
# How far a scanner reads

Every scanner takes a prefix of the text that is not empty.
-/

namespace MiniLua

open MiniLua.Text

/-! ## Runs of characters -/

theorem any_head?_dropWhile (p : Char → Bool) (cs : List Char) :
    (cs.dropWhile p).head?.any p = false := by
  have := List.head?_dropWhile_not p cs
  cases h : (cs.dropWhile p).head? with
  | none => rfl
  | some d => simpa [h] using this

theorem takeWhile_append_of_head {p : Char → Bool} {tail : List Char}
    (h : tail.head?.any p = false) (cs : List Char) :
    (cs ++ tail).takeWhile p = cs.takeWhile p := by
  induction cs with
  | nil =>
    cases tail with
    | nil => rfl
    | cons c tail => exact List.takeWhile_cons_of_neg (by simpa using h)
  | cons c cs ih => rw [List.cons_append, List.takeWhile_cons, List.takeWhile_cons, ih]

theorem dropWhile_append_of_head {p : Char → Bool} {tail : List Char}
    (h : tail.head?.any p = false) (cs : List Char) :
    (cs ++ tail).dropWhile p = cs.dropWhile p ++ tail := by
  induction cs with
  | nil =>
    cases tail with
    | nil => rfl
    | cons c tail => exact List.dropWhile_cons_of_neg (by simpa using h)
  | cons c cs ih =>
    rw [List.cons_append, List.dropWhile_cons, List.dropWhile_cons, ih]
    split <;> rfl

section

variable {p : Char → Bool} {run tail : List Char} (all : ∀ c ∈ run, p c = true)
  (ends : tail.head?.any p = false)
include all ends

theorem takeWhile_run : (run ++ tail).takeWhile p = run := by
  rw [takeWhile_append_of_head ends, List.takeWhile_eq_self_iff.mpr all]

theorem dropWhile_run : (run ++ tail).dropWhile p = tail := by
  rw [dropWhile_append_of_head ends, List.dropWhile_eq_nil_iff.mpr all, List.nil_append]

end

namespace Spelling

variable {cs body : List Char}

/-! ## Strings -/

theorem shortBody?_prefix {quote : Char} (h : shortBody? quote cs = some body) :
    ∃ rest, cs = body ++ quote :: rest := by
  fun_induction shortBody? quote cs generalizing body with
  | case1 => cases h
  | case2 =>
    cases h
    exact ⟨[], rfl⟩
  | case3 => cases h
  | case4 d cs =>
    cases h
    exact ⟨d :: cs, rfl⟩
  | case5 => cases h
  | case6 => cases h
  | case7 d cs =>
    rename_i ih
    obtain ⟨inner, found, rfl⟩ := Option.map_eq_some_iff.mp h
    obtain ⟨rest, rfl⟩ := ih found
    exact ⟨rest, rfl⟩
  | case8 c d cs _ _ _ ih =>
    obtain ⟨inner, found, rfl⟩ := Option.map_eq_some_iff.mp h
    obtain ⟨rest, same⟩ := ih found
    exact ⟨rest, by rw [same]; rfl⟩

theorem longBody?_prefix {level : Nat} (h : longBody? level cs = some body) :
    ∃ rest, cs = body ++ closer level ++ rest := by
  fun_induction longBody? level cs generalizing body with
  | case1 => cases h
  | case2 c cs closes =>
    cases h
    obtain ⟨rest, same⟩ := List.isPrefixOf_iff_prefix.mp closes
    exact ⟨rest, by rw [List.nil_append, same]⟩
  | case3 c cs _ ih =>
    obtain ⟨inner, found, rfl⟩ := Option.map_eq_some_iff.mp h
    obtain ⟨rest, rfl⟩ := ih found
    exact ⟨rest, rfl⟩

/-- What opens a long bracket. -/
def opener (level : Nat) : List Char := '[' :: List.replicate level '=' ++ ['[']

theorem length_opener (level : Nat) : (opener level).length = level + 2 := by
  simp [opener]

theorem length_closer (level : Nat) : (closer level).length = level + 2 := by
  simp [closer]

theorem takeWhile_eq_replicate (c : Char) (cs : List Char) :
    cs.takeWhile (· = c) = List.replicate (cs.takeWhile (· = c)).length c := by
  rw [List.eq_replicate_iff]
  refine ⟨rfl, fun d hd => ?_⟩
  simpa using List.mem_takeWhile_imp hd

theorem bracketLevel?_prefix {level : Nat} (h : bracketLevel? cs = some level) :
    ∃ rest, cs = opener level ++ rest := by
  unfold bracketLevel? at h
  split at h
  next cs =>
    split at h
    next rest opens =>
      cases h
      refine ⟨rest, ?_⟩
      rw [opener, List.cons_append, ← takeWhile_eq_replicate, List.cons_append, List.append_assoc,
        List.singleton_append, ← opens, List.takeWhile_append_dropWhile]
    next => cases h
  next => cases h

/-- A long bracket from its opener to its closer. -/
theorem longBracket?_prefix {level n : Nat} (opens : bracketLevel? cs = some level)
    (h : longBracket? level cs = some (body, n)) :
    ∃ rest, cs = opener level ++ body ++ closer level ++ rest ∧
      n = (opener level ++ body ++ closer level).length := by
  obtain ⟨inner, found, same⟩ := Option.map_eq_some_iff.mp h
  cases same
  obtain ⟨tail, rfl⟩ := bracketLevel?_prefix opens
  rw [← length_opener level, List.drop_left] at found
  obtain ⟨rest, rfl⟩ := longBody?_prefix found
  refine ⟨rest, by simp only [List.append_assoc], ?_⟩
  simp only [List.length_append, length_opener, length_closer]
  omega

/-! ## Words -/

/-- A name goes on as long as it can. -/
theorem nameChars_prefix (cs : List Char) : ∃ rest, cs = nameChars cs ++ rest ∧
    (nameChars cs ≠ [] → rest.head?.any isNameChar = false) := by
  cases cs with
  | nil => exact ⟨[], rfl, fun _ => rfl⟩
  | cons c cs =>
    by_cases starts : isNameStart c = true
    · refine ⟨cs.dropWhile isNameChar, ?_, fun _ => any_head?_dropWhile _ _⟩
      rw [nameChars, if_pos starts, List.cons_append, List.takeWhile_append_dropWhile]
    · have none : nameChars (c :: cs) = [] := by rw [nameChars, if_neg starts]
      exact ⟨c :: cs, by rw [none, List.nil_append], fun h => absurd none h⟩

/-- A word is read to where it does not go on. -/
theorem nameChars_append_eq_iff {read rest : List Char} :
    nameChars (read ++ rest) = read ∧ read ≠ [] ↔
      ∃ c tail, read = c :: tail ∧ isNameStart c = true ∧ (∀ d ∈ tail, isNameChar d = true) ∧
        rest.head?.any isNameChar = false := by
  constructor
  · rintro ⟨whole, nonempty⟩
    obtain ⟨c, tail, rfl⟩ := List.exists_cons_of_ne_nil nonempty
    rw [List.cons_append, nameChars] at whole
    split at whole
    next start =>
      have run : (tail ++ rest).takeWhile isNameChar = tail := (List.cons.inj whole).2
      have behind := List.takeWhile_append_dropWhile (p := isNameChar) (l := tail ++ rest)
      rw [run] at behind
      refine ⟨c, tail, rfl, start, fun d member => ?_, ?_⟩
      · rw [← run] at member
        exact List.mem_takeWhile_imp member
      · rw [← List.append_cancel_left behind]
        exact any_head?_dropWhile _ _
    next => cases whole
  · rintro ⟨c, tail, rfl, start, goesOn, ends⟩
    refine ⟨?_, List.cons_ne_nil _ _⟩
    rw [List.cons_append, nameChars, if_pos start, takeWhile_run goesOn ends]

/-! ## Comments -/

/-- A line goes on to a line feed or to the end of the text. -/
theorem firstLine_prefix (cs : List Char) : ∃ rest, cs = firstLine cs ++ rest ∧
    '\n' ∉ firstLine cs ∧ (rest = [] ∨ rest.head? = some '\n') := by
  refine ⟨cs.dropWhile (· ≠ '\n'), (List.takeWhile_append_dropWhile ..).symm, fun member => ?_, ?_⟩
  · simpa using List.mem_takeWhile_imp member
  · have ends := any_head?_dropWhile (fun c => decide (c ≠ '\n')) cs
    cases behind : cs.dropWhile (· ≠ '\n') with
    | nil => exact .inl rfl
    | cons c rest =>
      rw [behind] at ends
      exact .inr (by simpa using ends)

theorem opensComment_prefix (h : opensComment cs = true) : ∃ rest, cs = '-' :: '-' :: rest := by
  unfold opensComment at h
  split at h
  next rest => exact ⟨rest, rfl⟩
  next => cases h

end Spelling

/-! ## Numerals -/

namespace Number.Numeral

variable {cs rest : List Char}

theorem scanHex_cons (x : Char) (cs : List Char) : scanHex ('0' :: x :: cs) =
    if x = 'x' || x = 'X' then
      match cs.takeWhile isHex with
      | [] => none
      | digits => some (.hex (ofDigits 16 (digits.filterMap hexValue?)), cs.dropWhile isHex)
    else none := rfl

theorem scanHex_of_head (h : cs.head? ≠ some '0') : scanHex cs = none := by
  unfold scanHex
  split
  next => exact absurd rfl h
  next => rfl

theorem scanHex_prefix {n : Numeral} (h : scanHex cs = some (n, rest)) :
    ∃ read, cs = '0' :: read ++ rest := by
  unfold scanHex at h
  split at h
  next x cs =>
    split at h
    next =>
      split at h
      next => cases h
      next digits _ =>
        cases h
        exact ⟨x :: cs.takeWhile isHex, by simp⟩
    next => cases h
  next => cases h

theorem scanExponent_prefix (cs : List Char) : ∃ read, cs = read ++ (scanExponent cs).2 := by
  unfold scanExponent
  split
  next => exact ⟨[], rfl⟩
  next e rest =>
    split
    next =>
      have sign : ∀ signed : Bool × List Char, (∃ s, rest = s ++ signed.2) →
          ∃ read, e :: rest = read ++ (match signed.2.takeWhile isDecimal with
            | [] => ((0, e :: rest) : Int × List Char)
            | digits =>
              let value := ofDigits 10 (decimalsOf digits)
              (if signed.1 then -(value : Int) else value, signed.2.dropWhile isDecimal)).2 := by
        rintro ⟨negative, body⟩ ⟨s, same⟩
        dsimp only at same ⊢
        split
        next => exact ⟨[], rfl⟩
        next =>
          refine ⟨e :: s ++ body.takeWhile isDecimal, ?_⟩
          rw [List.append_assoc, List.takeWhile_append_dropWhile, same]
          rfl
      refine sign _ ?_
      split
      next body => exact ⟨['-'], rfl⟩
      next body => exact ⟨['+'], rfl⟩
      next => exact ⟨[], rfl⟩
    next => exact ⟨[], rfl⟩

theorem scanMantissa_of_point (h : cs.dropWhile isDecimal = '.' :: rest) :
    scanMantissa cs =
      if (cs.takeWhile isDecimal).isEmpty && (rest.takeWhile isDecimal).isEmpty then none
      else some (cs.takeWhile isDecimal, rest.takeWhile isDecimal, rest.dropWhile isDecimal) := by
  simp only [scanMantissa, h]

theorem scanMantissa_of_other (h : (cs.dropWhile isDecimal).head? ≠ some '.') :
    scanMantissa cs = if (cs.takeWhile isDecimal).isEmpty then none
      else some (cs.takeWhile isDecimal, [], cs.dropWhile isDecimal) := by
  unfold scanMantissa
  dsimp only
  split
  next same =>
    rw [same] at h
    exact absurd rfl h
  next => rfl

theorem scanMantissa_prefix {whole part : List Char}
    (h : scanMantissa cs = some (whole, part, rest)) :
    ∃ read, cs = read ++ rest ∧ read ≠ [] ∧ (cs.head?.any isDecimal = true ∨
      ∃ d tail, cs = '.' :: d :: tail ∧ isDecimal d = true) := by
  have whole_rest := List.takeWhile_append_dropWhile (p := isDecimal) (l := cs)
  have starts : cs.takeWhile isDecimal ≠ [] → cs.head?.any isDecimal = true := by
    intro some
    cases cs with
    | nil => exact absurd rfl some
    | cons c cs =>
      by_contra hc
      exact some (List.takeWhile_cons_of_neg hc)
  unfold scanMantissa at h
  dsimp only at h
  split at h
  next after dot =>
    rw [dot] at whole_rest
    split at h
    next => cases h
    next digits =>
      cases h
      refine ⟨cs.takeWhile isDecimal ++ '.' :: after.takeWhile isDecimal, ?_, by simp, ?_⟩
      · rw [List.append_assoc, List.cons_append, List.takeWhile_append_dropWhile, whole_rest]
      · by_cases empty : cs.takeWhile isDecimal = []
        · rw [empty, List.nil_append] at whole_rest
          cases after with
          | nil => simp [empty] at digits
          | cons d tail =>
            refine .inr ⟨d, tail, whole_rest.symm, ?_⟩
            by_contra hd
            rw [empty, List.takeWhile_cons_of_neg hd] at digits
            exact digits rfl
        · exact .inl (starts empty)
  next =>
    split at h
    next => cases h
    next digits =>
      cases h
      have some : cs.takeWhile isDecimal ≠ [] := fun none => digits (by rw [none]; rfl)
      exact ⟨_, whole_rest.symm, some, .inl (starts some)⟩

/-- A numeral starts with a digit, or with a point and a digit. -/
theorem scan_prefix {n : Numeral} (h : scan cs = some (n, rest)) :
    ∃ read, cs = read ++ rest ∧ read ≠ [] ∧ Lexer.startsNumber cs = true := by
  rcases Option.or_eq_some_iff.mp h with hex | ⟨-, decimal⟩
  · obtain ⟨read, rfl⟩ := scanHex_prefix hex
    refine ⟨'0' :: read, rfl, List.cons_ne_nil _ _, ?_⟩
    change isDigit '0' = true
    decide
  · obtain ⟨⟨whole, part, tail⟩, found, same⟩ := Option.map_eq_some_iff.mp decimal
    obtain ⟨mantissa, rfl, nonempty, starts⟩ := scanMantissa_prefix found
    obtain ⟨exponent, taken⟩ := scanExponent_prefix tail
    have ends : (scanExponent tail).2 = rest := (Prod.mk.inj same).2
    rw [ends] at taken
    refine ⟨mantissa ++ exponent, by rw [List.append_assoc, ← taken],
      fun none => nonempty (List.append_eq_nil_iff.mp none).1, ?_⟩
    rcases starts with first | ⟨d, tail, dotted, hd⟩
    · cases h : mantissa ++ tail with
      | nil => simp [h] at first
      | cons c cs =>
        have hc : isDecimal c = true := by simpa [h] using first
        unfold Lexer.startsNumber
        split
        next same =>
          cases same
          exact absurd hc (by decide)
        next same =>
          cases same
          rw [isDigit, hc, Bool.true_or]
        next same => cases same
    · rw [dotted, Lexer.startsNumber, isDigit, hd, Bool.true_or]

end Number.Numeral

end MiniLua

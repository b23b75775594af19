import MiniLua.Proofs.Number.Written

/-!
# Texts cut behind a token

A token is read as the same token when the text is cut somewhere behind it: a scanner that stops in
front of a character stops there as well if the text has come to its end.
-/

namespace MiniLua

open MiniLua.Text MiniLua.Spelling MiniLua.Parser MiniLua.Lexer

variable {cs read front back : List Char}

/-- What is said of the next character, or of there being none, stays true in front of a cut. -/
theorem head?_cut {P : Option Char → Prop} (ended : P none) (h : P (front ++ back).head?) :
    P front.head? := by
  cases front with
  | nil => exact ended
  | cons c front => exact h

/-! ## Numerals -/

namespace Number.Numeral

variable {numeral : Numeral}

theorem scanHex_cut (h : scanHex (read ++ (front ++ back)) = some (numeral, front ++ back)) :
    scanHex (read ++ front) = some (numeral, front) := by
  obtain ⟨x, digits, same, letter, some, all, ends, rfl⟩ := scanHex_eq_some_iff.mp h
  rw [← List.cons_append, ← List.cons_append] at same
  rw [List.append_cancel_right same]
  exact scanHex_eq_some_iff.mpr ⟨x, digits, rfl, letter, some, all,
    head?_cut (P := fun c => c.any isHex = false) rfl ends, rfl⟩

theorem scanHex_append_ne_none (h : scanHex cs ≠ none) (tail : List Char) :
    scanHex (cs ++ tail) ≠ none := by
  obtain ⟨⟨numeral, rest⟩, found⟩ := Option.ne_none_iff_exists'.mp h
  obtain ⟨x, digits, rfl, letter, some, all, -⟩ := scanHex_eq_some_iff.mp found
  obtain ⟨d, digits, rfl⟩ := List.exists_cons_of_ne_nil some
  have digit : isHex d = true := all d List.mem_cons_self
  rw [List.cons_append, List.cons_append, scanHex_cons, if_pos (by simpa using letter),
    List.cons_append, List.cons_append, List.takeWhile_cons_of_pos digit]
  exact Option.some_ne_none _

theorem scanMantissa_cut {whole part : List Char}
    (h : scanMantissa (read ++ (front ++ back)) = some (whole, part, front ++ back)) :
    scanMantissa (read ++ front) = some (whole, part, front) := by
  obtain ⟨ends, digits, shape⟩ := scanMantissa_eq_some_iff.mp h
  refine scanMantissa_eq_some_iff.mpr
    ⟨head?_cut (P := fun c => c.any isDecimal = false) rfl ends, digits, ?_⟩
  rcases shape with ⟨none, pointless, same⟩ | same
  · rw [List.append_cancel_right same]
    exact .inl ⟨none, head?_cut (P := (· ≠ some '.')) nofun pointless, rfl⟩
  · have spelled : read ++ (front ++ back) = whole ++ '.' :: part ++ (front ++ back) := by
      rw [same, List.append_assoc, List.cons_append]
    rw [List.append_cancel_right spelled, List.append_assoc, List.cons_append]
    exact .inr rfl

theorem StartsExponent.append (h : StartsExponent cs) (tail : List Char) :
    StartsExponent (cs ++ tail) := by
  obtain ⟨e, sign, d, behind, rfl, letter, optional, digit⟩ := h
  exact ⟨e, sign, d, behind ++ tail, by simp, letter, optional, digit⟩

theorem scanExponent_cut {value : Int}
    (h : scanExponent (read ++ (front ++ back)) = (value, front ++ back)) :
    scanExponent (read ++ front) = (value, front) := by
  rcases scanExponent_eq_iff.mp h with
    ⟨e, sign, digits, same, letter, optional, some, ends, rfl⟩ | ⟨other, rfl, same⟩
  · have spelled : read ++ (front ++ back) = e :: (sign ++ digits) ++ (front ++ back) := by
      rw [same, List.cons_append, List.append_assoc]
    rw [List.append_cancel_right spelled]
    refine scanExponent_eq_iff.mpr (.inl ⟨e, sign, digits, ?_, letter, optional, some,
      head?_cut (P := fun c => c.any isDecimal = false) rfl ends, rfl⟩)
    rw [List.cons_append, List.append_assoc]
  · rw [List.append_left_eq_self.mp same.symm] at other ⊢
    exact scanExponent_eq_iff.mpr (.inr ⟨fun starts => other (starts.append back), rfl, rfl⟩)

/-- A numeral is read the same in front of a cut. -/
theorem scan_cut (h : scan (read ++ (front ++ back)) = some (numeral, front ++ back)) :
    scan (read ++ front) = some (numeral, front) := by
  rcases Option.or_eq_some_iff.mp h with hex | ⟨none, decimal⟩
  · rw [scan, scanHex_cut hex, Option.some_or]
  · have hexless : scanHex (read ++ front) = .none := by
      by_contra found
      have longer := scanHex_append_ne_none found back
      rw [List.append_assoc] at longer
      exact longer none
    obtain ⟨whole, part, behind, value, found, ended, rfl⟩ := scanDecimal_eq_some_iff.mp decimal
    obtain ⟨mantissa, covered, -⟩ := scanMantissa_prefix found
    obtain ⟨exponent, taken⟩ := scanExponent_prefix behind
    rw [ended] at taken
    subst taken
    have spelled : read ++ (front ++ back) = mantissa ++ exponent ++ (front ++ back) := by
      rw [covered, List.append_assoc]
    obtain rfl := List.append_cancel_right spelled
    dsimp only at found ended
    rw [List.append_assoc, ← List.append_assoc exponent] at found
    rw [scan, hexless, Option.none_or, List.append_assoc]
    exact scanDecimal_eq_some_iff.mpr
      ⟨whole, part, _, value, scanMantissa_cut found, scanExponent_cut ended, rfl⟩

end Number.Numeral

/-! ## Words and symbols -/

/-- A word is read the same in front of a cut. -/
theorem nameChars_cut (whole : nameChars (read ++ (front ++ back)) = read) (nonempty : read ≠ []) :
    nameChars (read ++ front) = read := by
  obtain ⟨c, tail, spelled, start, goesOn, ends⟩ := nameChars_append_eq_iff.mp ⟨whole, nonempty⟩
  have ends' := head?_cut (P := fun c => c.any isNameChar = false) rfl ends
  exact (nameChars_append_eq_iff.mpr ⟨c, tail, spelled, start, goesOn, ends'⟩).1

theorem bracketLevel?_cut (h : bracketLevel? (front ++ back) = none) :
    bracketLevel? front = none := by
  by_contra some
  obtain ⟨level, opens⟩ := Option.ne_none_iff_exists'.mp some
  obtain ⟨rest, rfl⟩ := bracketLevel?_prefix opens
  rw [List.append_assoc, bracketLevel?_eq_some_iff.mpr ⟨_, rfl⟩] at h
  cases h

theorem opensComment_cut (h : opensComment (front ++ back) = false) :
    opensComment front = false := by
  by_contra opens
  obtain ⟨rest, rfl⟩ := opensComment_prefix (Bool.not_eq_false _ ▸ opens)
  cases h

theorem startsNumber_cut (h : startsNumber (front ++ back) = false) :
    startsNumber front = false := by
  match front with
  | [] => rfl
  | c :: front =>
    by_cases point : c = '.'
    · subst point
      cases front with
      | nil => decide
      | cons d front => exact h
    · rw [List.cons_append, startsNumber_of_ne point] at h
      rwa [startsNumber_of_ne point]

theorem endsNumber_cut (h : endsNumber (front ++ back) = true) : endsNumber front = true := by
  cases front with
  | nil => rfl
  | cons c front => exact h

theorem symbol?_cut {s : String} (h : symbol? (s.toList ++ (front ++ back)) = some s) :
    symbol? (s.toList ++ front) = some s := by
  obtain ⟨-, before, later, split, refused⟩ := List.find?_eq_some_iff_append.mp h
  refine List.find?_eq_some_iff_append.mpr ⟨?_, before, later, split, fun t member => ?_⟩
  · exact List.isPrefixOf_iff_prefix.mpr (List.prefix_append _ _)
  · have refused := refused t member
    rw [Bool.not_eq_true', startsWith, Bool.eq_false_iff, Ne, List.isPrefixOf_iff_prefix]
      at refused ⊢
    refine fun starts => refused (starts.trans ?_)
    rw [← List.append_assoc]
    exact List.prefix_append _ _

/-- A long bracket from its opener to the closer that is the first behind it. -/
theorem longBracket?_split {level n : Nat} {body : List Char} (opens : bracketLevel? cs = some level)
    (h : longBracket? level cs = some (body, n)) :
    ∃ rest, cs = opener level ++ body ++ closer level ++ rest ∧
      n = (opener level ++ body ++ closer level).length ∧
      longBody? level (body ++ closer level ++ rest) = some body := by
  obtain ⟨rest, rfl, width⟩ := longBracket?_prefix opens h
  obtain ⟨inner, found, same⟩ := Option.map_eq_some_iff.mp h
  obtain ⟨rfl, -⟩ := Prod.mk.inj same
  rw [List.append_assoc, List.append_assoc, ← length_opener level, List.drop_left,
    ← List.append_assoc] at found
  exact ⟨rest, rfl, width, found⟩

theorem longBracket?_of_longBody? {level : Nat} {body rest : List Char}
    (h : longBody? level (body ++ closer level ++ rest) = some body) :
    longBracket? level (opener level ++ body ++ closer level ++ rest) =
      some (body, (opener level ++ body ++ closer level).length) := by
  rw [longBracket?, List.append_assoc, List.append_assoc, ← length_opener level, List.drop_left,
    ← List.append_assoc, h, Option.map_some]
  simp only [List.length_append, length_opener, length_closer, Option.some.injEq, Prod.mk.injEq,
    true_and]
  omega

/-! ## Tokens -/

namespace Lexer

/-- A rule that reads a token, with the characters of the token apart from those that follow. -/
inductive SplitsOff : List Char → List Char → Lexeme → Prop
  | short {quote : Char} {body text rest : List Char} (quoted : quote = '"' ∨ quote = '\'')
      (inside : shortBody? quote (body ++ quote :: rest) = some body)
      (decoded : decodeEscapes body = .ok text) :
      SplitsOff (quote :: body ++ [quote]) rest (.string (String.ofList text))
  | long {level : Nat} {body rest : List Char}
      (inside : longBody? level (body ++ closer level ++ rest) = some body) :
      SplitsOff (opener level ++ body ++ closer level) rest
        (.string (String.ofList (dropFirstNewline body)))
  | number {read rest : List Char} {numeral : Number.Numeral} {value : Float}
      (scanned : Number.Numeral.scan (read ++ rest) = some (numeral, rest))
      (ends : endsNumber rest = true) (nearest : numeral.toFloat = .ok value) :
      SplitsOff read rest (.number value)
  | symbol {s : String} {rest : List Char} (unopened : bracketLevel? (s.toList ++ rest) = none)
      (digitless : startsNumber (s.toList ++ rest) = false)
      (longest : symbol? (s.toList ++ rest) = some s) : SplitsOff s.toList rest (.symbol s)
  | keyword {read rest : List Char} (nonempty : read ≠ [])
      (whole : nameChars (read ++ rest) = read) (known : String.ofList read ∈ keywords) :
      SplitsOff read rest (.keyword (String.ofList read))
  | name {read rest : List Char} (nonempty : read ≠ [])
      (whole : nameChars (read ++ rest) = read) (unknown : String.ofList read ∉ keywords) :
      SplitsOff read rest (.name (String.ofList read))

variable {rest : List Char} {lexeme : Lexeme}

theorem Rule.splitsOff (h : Rule (read ++ rest) lexeme read.length) : SplitsOff read rest lexeme := by
  generalize whole : read ++ rest = cs at h
  generalize length : read.length = n at h
  cases h with
  | @short quote tail body text here quoted inside decoded =>
    obtain ⟨after, rfl⟩ := shortBody?_prefix inside
    have split : read ++ rest = (quote :: body ++ [quote]) ++ after := by
      rw [whole, here, List.append_assoc, List.cons_append, List.singleton_append]
    obtain ⟨rfl, rfl⟩ := List.append_inj split (by simpa using length)
    exact .short quoted inside decoded
  | @long level n body opens inside =>
    obtain ⟨after, split, width, first⟩ := longBracket?_split opens inside
    obtain ⟨rfl, rfl⟩ := List.append_inj (whole.trans split) (length.trans width)
    exact .long first
  | @number numeral after value scanned ends nearest =>
    subst whole
    obtain ⟨read', split, -⟩ := Number.Numeral.scan_prefix scanned
    have lengths := congrArg List.length split
    simp only [List.length_append] at lengths length
    obtain ⟨rfl, rfl⟩ := List.append_inj split (by omega)
    exact .number scanned ends nearest
  | @symbol s unopened digitless longest =>
    subst whole
    obtain ⟨after, split⟩ := startsWith_prefix (symbol?_mem longest).2
    obtain ⟨rfl, rfl⟩ := List.append_inj split (length.trans String.length_toList.symm)
    exact .symbol unopened digitless longest
  | keyword starts known =>
    subst whole
    obtain ⟨after, split, -⟩ := nameChars_prefix (read ++ rest)
    obtain ⟨same, -⟩ := List.append_inj split length
    rw [← same] at starts known ⊢
    exact .keyword starts same.symm known
  | name starts unknown =>
    subst whole
    obtain ⟨after, split, -⟩ := nameChars_prefix (read ++ rest)
    obtain ⟨same, -⟩ := List.append_inj split length
    rw [← same] at starts unknown ⊢
    exact .name starts same.symm unknown

theorem SplitsOff.rule (h : SplitsOff read rest lexeme) : Rule (read ++ rest) lexeme read.length := by
  cases h with
  | @short quote body text rest quoted inside decoded =>
    have rule : Rule (quote :: (body ++ quote :: rest)) _ _ := .short rfl quoted inside decoded
    simpa using rule
  | @long level body rest inside =>
    have opens : bracketLevel? (opener level ++ body ++ closer level ++ rest) = some level := by
      rw [List.append_assoc, List.append_assoc]
      exact bracketLevel?_eq_some_iff.mpr ⟨_, rfl⟩
    exact .long opens (longBracket?_of_longBody? inside)
  | @number read rest numeral value scanned ends nearest =>
    have length : read.length = (read ++ rest).length - rest.length := by
      rw [List.length_append, Nat.add_sub_cancel]
    rw [length]
    exact .number scanned ends nearest
  | symbol unopened digitless longest =>
    rw [String.length_toList]
    exact .symbol unopened digitless longest
  | keyword nonempty whole known =>
    have rule := Rule.keyword (by rwa [whole]) (by rwa [whole])
    rwa [whole] at rule
  | name nonempty whole unknown =>
    have rule := Rule.name (by rwa [whole]) (by rwa [whole])
    rwa [whole] at rule

theorem Step.splitsOff {blank : Char → Bool}
    (h : Step blank (read ++ rest) (some lexeme) read.length) :
    SplitsOff read rest lexeme ∧ opensComment (read ++ rest) = false := by
  suffices both : Rule (read ++ rest) lexeme read.length ∧ opensComment (read ++ rest) = false from
    ⟨both.1.splitsOff, both.2⟩
  generalize read ++ rest = cs at h ⊢
  cases h with
  | token solid uncommented reads => exact ⟨rule_of_readToken reads, uncommented⟩

/-- A token is read the same in front of a cut. -/
theorem SplitsOff.cut (h : SplitsOff read (front ++ back) lexeme) : SplitsOff read front lexeme := by
  cases h with
  | short quoted inside decoded => exact .short quoted (shortBody?_congr inside _) decoded
  | long inside => exact .long (longBody?_congr inside _)
  | number scanned ends nearest =>
    exact .number (Number.Numeral.scan_cut scanned) (endsNumber_cut ends) nearest
  | symbol unopened digitless longest =>
    rw [← List.append_assoc] at unopened digitless
    exact .symbol (bracketLevel?_cut unopened) (startsNumber_cut digitless) (symbol?_cut longest)
  | keyword nonempty whole known => exact .keyword nonempty (nameChars_cut whole nonempty) known
  | name nonempty whole unknown => exact .name nonempty (nameChars_cut whole nonempty) unknown

/-- A token in front of a gap is the token at the end of the text. -/
theorem Rule.append_iff {tail : List Char} {n : Nat} (h : Separates tail) (nonempty : cs ≠ []) :
    Rule cs lexeme n ↔ Rule (cs ++ tail) lexeme n ∧ n ≤ cs.length := by
  constructor
  · intro rule
    refine ⟨rule.append h nonempty, ?_⟩
    obtain ⟨read, rest, rfl, -, rfl, -⟩ := rule.extent
    simp
  · rintro ⟨rule, short⟩
    obtain ⟨read, rest, split, -, rfl, -⟩ := rule.extent
    have within : read <+: cs :=
      List.prefix_of_prefix_length_le ⟨rest, split.symm⟩ (List.prefix_append cs tail) short
    obtain ⟨front, rfl⟩ := within
    rw [List.append_assoc] at rule
    exact rule.splitsOff.cut.rule

theorem SplitsOff.ne_nil (h : SplitsOff read rest lexeme) : read ≠ [] := by
  obtain ⟨covered, -, -, some, length, -⟩ := h.rule.extent
  exact List.ne_nil_of_length_pos (length ▸ List.length_pos_iff.mpr some)

/-- A token that opens no long bracket alone opens none with what follows. -/
theorem SplitsOff.bracketLevel?_eq_none (h : SplitsOff read rest lexeme)
    (alone : bracketLevel? read = none) : bracketLevel? (read ++ rest) = none := by
  by_cases text : ∃ text, lexeme = .string text
  · obtain ⟨text, rfl⟩ := text
    cases h with
    | short quoted => rcases quoted with rfl | rfl <;> rfl
    | @long level body rest inside =>
      rw [List.append_assoc, bracketLevel?_eq_some_iff.mpr ⟨_, rfl⟩] at alone
      cases alone
  · exact h.rule.bracketLevel?_eq_none (not_exists.mp text)

/-- A token is read the same if the text goes on differently from a gap on. -/
theorem Step.change_gap {blank : Char → Bool} {gap : List Char}
    (h : Step blank (read ++ (front ++ back)) (some lexeme) read.length) (apart : Separates gap) :
    Step blank (read ++ (front ++ gap)) (some lexeme) read.length := by
  obtain ⟨reads, uncommented⟩ := h.splitsOff
  rw [← List.append_assoc] at uncommented ⊢
  have nonempty : read ++ front ≠ [] := List.append_ne_nil_of_left_ne_nil reads.ne_nil front
  have rule := reads.cut.rule.append apart nonempty
  have uncommented := (opensComment_append apart (read ++ front)).trans (opensComment_cut uncommented)
  obtain ⟨c, tail, rfl⟩ := List.exists_cons_of_ne_nil reads.ne_nil
  cases h with
  | token solid => exact .token solid uncommented (readToken_eq_ok_iff.mpr rule)

end Lexer

end MiniLua

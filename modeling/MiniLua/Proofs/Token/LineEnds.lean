import MiniLua.Proofs.Token.Cutting

/-!
# Tokens and line ends

Dropping the carriage returns before line feeds moves no token: what the tokenizer covers in one
step it covers in one step afterwards. Only the text inside long brackets changes, and that in the
same way wherever it stands.
-/

namespace MiniLua

open MiniLua.Text MiniLua.Spelling MiniLua.Parser MiniLua.Lexer

namespace Text

theorem joinCrLf_crLf (cs : List Char) : joinCrLf ('\r' :: '\n' :: cs) = '\n' :: joinCrLf cs := rfl

theorem joinCrLf_cons {c : Char} {cs : List Char} (h : ¬ (c = '\r' ∧ cs.head? = some '\n')) :
    joinCrLf (c :: cs) = c :: joinCrLf cs := by
  rw [joinCrLf]
  rintro rest rfl rfl
  exact h ⟨rfl, rfl⟩

/-- Two texts are joined one by one, unless a line end is cut between them. -/
theorem joinCrLf_append {read rest : List Char}
    (h : ¬ (read.getLast? = some '\r' ∧ rest.head? = some '\n')) :
    joinCrLf (read ++ rest) = joinCrLf read ++ joinCrLf rest := by
  fun_induction joinCrLf read with
  | case1 cs ih =>
    rw [List.cons_append, List.cons_append, joinCrLf_crLf, List.cons_append, ih]
    rintro ⟨last, first⟩
    refine h ⟨?_, first⟩
    cases cs with
    | nil => cases last
    | cons d cs => rw [List.getLast?_cons_cons, List.getLast?_cons_cons, last]
  | case2 c cs other ih =>
    have uncut : ¬ (c = '\r' ∧ (cs ++ rest).head? = some '\n') := by
      rintro ⟨rfl, first⟩
      cases cs with
      | nil => exact h ⟨rfl, first⟩
      | cons d cs =>
        cases first
        exact other cs rfl rfl
    rw [List.cons_append, joinCrLf_cons uncut, List.cons_append, ih]
    rintro ⟨last, first⟩
    refine h ⟨?_, first⟩
    cases cs with
    | nil => cases last
    | cons d cs => rw [List.getLast?_cons_cons, last]
  | case3 => rfl

theorem joinCrLf_of_not_mem {cs : List Char} (h : '\n' ∉ cs) : joinCrLf cs = cs := by
  induction cs with
  | nil => rfl
  | cons c cs ih =>
    rw [List.mem_cons, not_or] at h
    rw [joinCrLf_cons, ih h.2]
    rintro ⟨-, first⟩
    exact h.2 (List.mem_of_mem_head? first)

theorem count_joinCrLf (cs : List Char) : (joinCrLf cs).count '\n' = cs.count '\n' := by
  fun_induction joinCrLf cs with
  | case1 cs ih => simp [ih]
  | case2 c cs _ ih => rw [List.count_cons, List.count_cons, ih]
  | case3 => rfl

/-- The text up to the first line end with a carriage return is kept; what follows begins with a
blank before and after. -/
theorem joinCrLf_split (cs : List Char) : ∃ read rest, cs = read ++ rest ∧
    joinCrLf cs = read ++ joinCrLf rest ∧ Separates rest ∧ Separates (joinCrLf rest) := by
  fun_induction joinCrLf cs with
  | case1 cs ih =>
    exact ⟨[], '\r' :: '\n' :: cs, rfl, rfl, .of_isBlank (by decide), .of_isBlank (by decide)⟩
  | case2 c cs _ ih =>
    obtain ⟨read, rest, same, joined, before, after⟩ := ih
    exact ⟨c :: read, rest, by rw [same]; rfl, by rw [joined]; rfl, before, after⟩
  | case3 => exact ⟨[], [], rfl, rfl, .nil, .nil⟩

section

variable {p : Char → Bool}

theorem takeWhile_joinCrLf (cr : p '\r' = false) (lf : p '\n' = false) (cs : List Char) :
    (joinCrLf cs).takeWhile p = cs.takeWhile p := by
  fun_induction joinCrLf cs with
  | case1 cs ih =>
    rw [List.takeWhile_cons_of_neg (by simp [lf]), List.takeWhile_cons_of_neg (by simp [cr])]
  | case2 c cs _ ih => rw [List.takeWhile_cons, List.takeWhile_cons, ih]
  | case3 => rfl

theorem dropWhile_joinCrLf (lf : p '\n' = false) (cs : List Char) :
    (joinCrLf cs).dropWhile p = joinCrLf (cs.dropWhile p) := by
  fun_induction joinCrLf cs with
  | case1 cs ih =>
    rw [List.dropWhile_cons_of_neg (by simp [lf]), List.dropWhile_cons]
    split
    · rw [List.dropWhile_cons_of_neg (by simp [lf]), joinCrLf_cons (by simp)]
    · rfl
  | case2 c cs other ih =>
    rw [List.dropWhile_cons, List.dropWhile_cons]
    split
    · exact ih
    · rw [joinCrLf_cons]
      rintro ⟨rfl, first⟩
      obtain ⟨rest, same⟩ := List.head?_eq_some_iff.mp first
      exact other rest rfl same
  | case3 => rfl

end

/-- A text without line ends is in front before just when it is after. -/
theorem isPrefixOf_joinCrLf {w : List Char} (cr : '\r' ∉ w) (lf : '\n' ∉ w) (cs : List Char) :
    w.isPrefixOf (joinCrLf cs) = w.isPrefixOf cs := by
  fun_induction joinCrLf cs generalizing w with
  | case1 cs ih =>
    cases w with
    | nil => rfl
    | cons d w =>
      rw [List.mem_cons, not_or] at cr lf
      simp [List.isPrefixOf, beq_eq_false_iff_ne.mpr (Ne.symm cr.1),
        beq_eq_false_iff_ne.mpr (Ne.symm lf.1)]
  | case2 c cs _ ih =>
    cases w with
    | nil => rfl
    | cons d w =>
      rw [List.mem_cons, not_or] at cr lf
      simp only [List.isPrefixOf, ih cr.2 lf.2]
  | case3 => rfl

end Text

namespace Spelling

theorem opensComment_joinCrLf (cs : List Char) :
    opensComment (joinCrLf cs) = opensComment cs := by
  rw [opensComment_eq, opensComment_eq, isPrefixOf_joinCrLf (by decide) (by decide)]

theorem bracketLevel?_joinCrLf (cs : List Char) :
    bracketLevel? (joinCrLf cs) = bracketLevel? cs := by
  by_cases opens : cs.head? = some '['
  · obtain ⟨rest, rfl⟩ := List.head?_eq_some_iff.mp opens
    rw [joinCrLf_cons (by simp), bracketLevel?_cons, bracketLevel?_cons,
      takeWhile_joinCrLf (by decide) (by decide),
      dropWhile_joinCrLf (by decide)]
    have head : ∀ cs : List Char, (joinCrLf cs).head? = some '[' ↔ cs.head? = some '[' := by
      intro cs
      fun_cases joinCrLf cs <;> simp
    simp only [head]
  · rw [bracketLevel?_of_head opens, bracketLevel?_of_head]
    fun_cases joinCrLf cs with
    | case1 => simp
    | case2 => simpa using opens
    | case3 => simp

theorem not_mem_closer {c : Char} (level : Nat) (bracket : c ≠ ']') (equals : c ≠ '=') :
    c ∉ closer level := by
  simp [closer, bracket, equals]

theorem longBody?_joinCrLf (level : Nat) (cs : List Char) :
    longBody? level (joinCrLf cs) = (longBody? level cs).map joinCrLf := by
  have starts := isPrefixOf_joinCrLf (not_mem_closer level (by decide) (by decide))
    (not_mem_closer level (c := '\n') (by decide) (by decide))
  fun_induction joinCrLf cs with
  | case1 cs ih =>
    have unclosed : ∀ (c : Char) rest, c ≠ ']' → ¬ (closer level).isPrefixOf (c :: rest) = true := by
      intro c rest other prefixed
      simp [closer, List.isPrefixOf, Ne.symm other] at prefixed
    rw [longBody?, if_neg (unclosed _ _ (by decide)), ih, longBody?,
      if_neg (unclosed _ _ (by decide)), longBody?, if_neg (unclosed _ _ (by decide))]
    cases longBody? level cs <;> rfl
  | case2 c cs other ih =>
    have first := starts (c :: cs)
    have kept : ¬ (c = '\r' ∧ cs.head? = some '\n') := by
      rintro ⟨cr, lf⟩
      obtain ⟨rest, same⟩ := List.head?_eq_some_iff.mp lf
      exact other rest cr same
    rw [joinCrLf_cons kept] at first
    rw [longBody?, first, ih, longBody?]
    split
    · rfl
    · cases body : longBody? level cs with
      | none => rfl
      | some body =>
        refine congrArg some (joinCrLf_cons ?_).symm
        rintro ⟨rfl, lf⟩
        obtain ⟨rest, rfl⟩ := longBody?_prefix body
        obtain ⟨more, rfl⟩ := List.head?_eq_some_iff.mp lf
        exact other _ rfl rfl
  | case3 => rfl

theorem joinCrLf_opener (level : Nat) (rest : List Char) :
    joinCrLf (opener level ++ rest) = opener level ++ joinCrLf rest := by
  rw [joinCrLf_append, joinCrLf_of_not_mem (by simp [opener])]
  rintro ⟨last, -⟩
  rw [opener, List.getLast?_concat] at last
  cases last

theorem longBracket?_joinCrLf {level : Nat} {cs : List Char} (opens : bracketLevel? cs = some level) :
    longBracket? level (joinCrLf cs) = (longBracket? level cs).map fun closed =>
      (joinCrLf closed.1, (joinCrLf closed.1).length + 2 * (level + 2)) := by
  obtain ⟨rest, rfl⟩ := bracketLevel?_prefix opens
  have drop : ∀ rest, (opener level ++ rest).drop (level + 2) = rest := by
    intro rest
    rw [← length_opener, List.drop_left]
  rw [longBracket?, longBracket?, joinCrLf_opener, drop, drop, longBody?_joinCrLf]
  cases longBody? level rest <;> rfl

/-- What follows a long bracket follows it afterwards. -/
theorem joinCrLf_longBracket {level n : Nat} {cs body : List Char}
    (opens : bracketLevel? cs = some level) (inside : longBracket? level cs = some (body, n)) :
    joinCrLf cs = joinCrLf (cs.take n) ++ joinCrLf (cs.drop n) ∧
      (joinCrLf (cs.take n)).length = (joinCrLf body).length + 2 * (level + 2) := by
  obtain ⟨rest, rfl, rfl⟩ := longBracket?_prefix opens inside
  have last : (opener level ++ body ++ closer level).getLast? ≠ some '\r' := by
    rw [closer, ← List.append_assoc, List.getLast?_concat]
    simp
  rw [List.take_left, List.drop_left]
  refine ⟨joinCrLf_append fun cut => last cut.1, ?_⟩
  have closed : joinCrLf (closer level) = closer level :=
    joinCrLf_of_not_mem (not_mem_closer level (by decide) (by decide))
  have split : joinCrLf (body ++ closer level) = joinCrLf body ++ joinCrLf (closer level) :=
    joinCrLf_append fun cut => by cases cut.2
  rw [List.append_assoc, joinCrLf_opener, split, closed, List.length_append, List.length_append,
    length_opener, length_closer]
  omega

theorem drop_firstLine (cs : List Char) :
    cs.drop (firstLine cs).length = cs.dropWhile (· ≠ '\n') := by
  have split : firstLine cs ++ cs.dropWhile (· ≠ '\n') = cs := List.takeWhile_append_dropWhile
  calc cs.drop (firstLine cs).length
    _ = (firstLine cs ++ cs.dropWhile (· ≠ '\n')).drop (firstLine cs).length := by rw [split]
    _ = cs.dropWhile (· ≠ '\n') := List.drop_left

/-- What follows a comment follows it afterwards. -/
theorem commentLength_joinCrLf {cs : List Char} {n : Nat} (opens : opensComment cs = true)
    (length : commentLength cs = .ok n) : ∃ m, commentLength (joinCrLf cs) = .ok m ∧
      (joinCrLf cs).drop m = joinCrLf (cs.drop n) := by
  obtain ⟨rest, rfl⟩ := opensComment_prefix opens
  have whole : joinCrLf ('-' :: '-' :: rest) = '-' :: '-' :: joinCrLf rest := by
    rw [joinCrLf_cons (by simp), joinCrLf_cons (by simp)]
  have bracket : bracketLevel? ((joinCrLf ('-' :: '-' :: rest)).drop 2) = bracketLevel? rest := by
    rw [whole]
    exact bracketLevel?_joinCrLf rest
  cases level : bracketLevel? rest with
  | none =>
    have line : commentLength ('-' :: '-' :: rest) = .ok _ := commentLength_of_bracketless level
    cases line.symm.trans length
    refine ⟨_, commentLength_of_bracketless (bracket.trans level), ?_⟩
    rw [drop_firstLine, drop_firstLine, dropWhile_joinCrLf (by decide)]
  | some level' =>
    have opened : bracketLevel? (('-' :: '-' :: rest).drop 2) = some level' := level
    obtain ⟨body, m, inside, rfl⟩ := (commentLength_eq_ok_iff opened).mp length
    change longBracket? level' rest = some (body, m) at inside
    obtain ⟨split, width⟩ := joinCrLf_longBracket level inside
    have joined := longBracket?_joinCrLf level
    rw [inside, Option.map_some, ← width] at joined
    refine ⟨(joinCrLf (rest.take m)).length + 2,
      (commentLength_eq_ok_iff (bracket.trans level)).mpr ⟨joinCrLf body, _, ?_, rfl⟩, ?_⟩
    · rw [whole]
      exact joined
    · rw [whole]
      change (joinCrLf rest).drop _ = joinCrLf (rest.drop m)
      rw [split, List.drop_left]

end Spelling

/-! ## Tokens -/

namespace Lexer

variable {cs : List Char} {lexeme : Lexeme} {n : Nat}

theorem solid_of_isNameStart {c : Char} (h : isNameStart c = true) : isBlank c = false :=
  isBlank_of_isNameChar (isNameChar_of_isNameStart h)

theorem solid_nameChars (cs : List Char) : ∀ c ∈ nameChars cs, isBlank c = false := by
  intro c member
  cases cs with
  | nil => cases member
  | cons d cs =>
    rw [nameChars] at member
    split at member
    next start =>
      rcases List.mem_cons.mp member with rfl | inner
      · exact solid_of_isNameStart start
      · exact isBlank_of_isNameChar (List.mem_takeWhile_imp inner)
    next => cases member

theorem take_nameChars (cs : List Char) : cs.take (nameChars cs).length = nameChars cs := by
  obtain ⟨rest, same, -⟩ := nameChars_prefix cs
  calc cs.take (nameChars cs).length
    _ = (nameChars cs ++ rest).take (nameChars cs).length := by rw [← same]
    _ = nameChars cs := List.take_left

/-- Only strings hold blanks. -/
theorem Rule.solid (h : Rule cs lexeme n) (other : ∀ text, lexeme ≠ .string text) :
    ∀ c ∈ cs.take n, isBlank c = false := by
  cases h with
  | short => exact absurd rfl (other _)
  | long => exact absurd rfl (other _)
  | @number numeral rest value scanned ends nearest =>
    intro c member
    by_contra blank
    have blank := Bool.not_eq_false _ ▸ blank
    obtain ⟨read, rfl, -, -⟩ := Number.Numeral.scan_prefix scanned
    rw [List.length_append, Nat.add_sub_cancel, List.take_left] at member
    obtain ⟨before, after, rfl⟩ := List.append_of_mem member
    -- the numeral would end before the blank
    rw [List.append_assoc, List.cons_append, Number.Numeral.scan_append (.of_isBlank blank),
      Option.map_eq_some_iff] at scanned
    obtain ⟨⟨numeral, rest'⟩, -, same⟩ := scanned
    have lengths := congrArg List.length (Prod.mk.inj same).2
    simp only [List.length_append, List.length_cons] at lengths
    omega
  | @symbol s unopened digitless longest =>
    obtain ⟨known, starts⟩ := symbol?_mem longest
    obtain ⟨rest, rfl⟩ := startsWith_prefix starts
    rw [← String.length_toList, List.take_left]
    have solid := List.all_eq_true.mp
      (forall_symbols (fun w => w.all (!isBlank ·) = true) (by decide) s known)
    exact fun c member => by simpa using solid c member
  | keyword =>
    rw [take_nameChars]
    exact solid_nameChars cs
  | name =>
    rw [take_nameChars]
    exact solid_nameChars cs

theorem newline_not_mem_shortBody? {quote : Char} {body : List Char}
    (h : shortBody? quote cs = some body) : '\n' ∉ body := by
  fun_induction shortBody? quote cs generalizing body with
  | case1 => cases h
  | case2 => cases h; simp
  | case3 => cases h
  | case4 => cases h; simp
  | case5 => cases h
  | case6 => cases h
  | case7 d cs printed _ _ ih =>
    obtain ⟨inner, found, rfl⟩ := Option.map_eq_some_iff.mp h
    simp [ih found, Ne.symm printed]
  | case8 c d cs _ printed _ ih =>
    obtain ⟨inner, found, rfl⟩ := Option.map_eq_some_iff.mp h
    simp [ih found, Ne.symm printed]

/-- A token without line ends is read as before. -/
theorem Rule.joinCrLf_of_not_mem {read rest : List Char} (h : Rule (read ++ rest) lexeme read.length)
    (lf : '\n' ∉ read) (cr : read.getLast? ≠ some '\r') :
    Rule (joinCrLf (read ++ rest)) lexeme (joinCrLf read).length ∧
      joinCrLf (read ++ rest) = joinCrLf read ++ joinCrLf rest := by
  have split : Text.joinCrLf (read ++ rest) = Text.joinCrLf read ++ Text.joinCrLf rest :=
    joinCrLf_append fun cut => cr cut.1
  refine ⟨?_, split⟩
  obtain ⟨before, after, rfl, joined, gap, gap'⟩ := joinCrLf_split rest
  have nonempty : read ++ before ≠ [] := by
    obtain ⟨covered, -, -, some, length, -⟩ := h.extent
    intro none
    rw [(List.append_eq_nil_iff.mp none).1] at length
    exact some (List.length_eq_zero_iff.mp length.symm)
  rw [split, joined, Text.joinCrLf_of_not_mem lf, ← List.append_assoc]
  rw [← List.append_assoc] at h
  have alone := (Rule.append_iff gap nonempty).mpr ⟨h, by simp⟩
  exact ((Rule.append_iff gap' nonempty).mp alone).1

/-- A token stays one token, the same wherever it stands. -/
theorem Rule.joinCrLf {read rest : List Char} (h : Rule (read ++ rest) lexeme read.length) :
    ∃ lexeme', ∀ rest', Rule (read ++ rest') lexeme read.length →
      Rule (joinCrLf (read ++ rest')) lexeme' (joinCrLf read).length ∧
        joinCrLf (read ++ rest') = joinCrLf read ++ joinCrLf rest' := by
  by_cases text : ∃ text, lexeme = .string text
  · obtain ⟨text, rfl⟩ := text
    cases h.splitsOff with
    | @long level body rest inside =>
      refine ⟨.string (String.ofList (dropFirstNewline (Text.joinCrLf body))), fun rest' _ => ?_⟩
      have opens : bracketLevel? (opener level ++ body ++ closer level ++ rest') = some level := by
        rw [List.append_assoc, List.append_assoc]
        exact bracketLevel?_eq_some_iff.mpr ⟨_, rfl⟩
      have closed := longBracket?_of_longBody? (longBody?_congr inside rest')
      obtain ⟨split, width⟩ := joinCrLf_longBracket opens closed
      rw [List.take_left, List.drop_left] at split
      rw [List.take_left] at width
      refine ⟨?_, split⟩
      have joined := longBracket?_joinCrLf opens
      rw [closed, Option.map_some, ← width] at joined
      exact .long ((bracketLevel?_joinCrLf _).trans opens) joined
    | @short quote body text rest quoted inside decoded =>
      refine ⟨.string (String.ofList text), fun rest' rule => rule.joinCrLf_of_not_mem ?_ ?_⟩
      · have := newline_not_mem_shortBody? inside
        rcases quoted with rfl | rfl <;> simp [this]
      · rw [List.getLast?_concat]
        rcases quoted with rfl | rfl <;> decide
  · refine ⟨lexeme, fun rest' rule => ?_⟩
    have solid := rule.solid (not_exists.mp text)
    rw [List.take_left] at solid
    refine rule.joinCrLf_of_not_mem (fun lf => ?_) fun cr => ?_
    · exact absurd (solid _ lf) (by decide)
    · exact absurd (solid _ (List.mem_of_getLast? cr)) (by decide)

end Lexer

end MiniLua

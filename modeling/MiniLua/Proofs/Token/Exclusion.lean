import MiniLua.Proofs.Token.Rule

/-!
# How the rules exclude each other

What stands at the front of a token tells which rule reads it.
-/

namespace MiniLua.Lexer

open MiniLua.Text MiniLua.Spelling MiniLua.Parser

variable {cs : List Char} {lexeme : Lexeme} {n : Nat}

theorem head_of_startsNumber (h : startsNumber cs = true) :
    ∃ c tail, cs = c :: tail ∧ (isDigit c = true ∨ c = '.') := by
  unfold startsNumber at h
  split at h
  · exact ⟨_, _, rfl, .inr rfl⟩
  · exact ⟨_, _, rfl, .inl h⟩
  · cases h

theorem startsNumber_of_ne {c : Char} (point : c ≠ '.') : startsNumber (c :: cs) = isDigit c := by
  unfold startsNumber
  split
  next same => exact absurd (List.cons.inj same).1 point
  next same => rw [(List.cons.inj same).1]
  next same => cases same

theorem not_startsNumber {c : Char} {tail : List Char} (digitless : isDigit c = false)
    (pointless : c ≠ '.') : startsNumber (c :: tail) = false := by
  rw [startsNumber_of_ne pointless, digitless]

theorem head_of_bracketLevel? {level : Nat} (h : bracketLevel? cs = some level) :
    ∃ tail, cs = '[' :: tail := by
  obtain ⟨rest, rfl⟩ := bracketLevel?_prefix h
  exact ⟨_, rfl⟩

theorem head_of_nameChars (h : nameChars cs ≠ []) :
    ∃ c tail, cs = c :: tail ∧ isNameStart c = true := by
  cases cs with
  | nil => exact absurd rfl h
  | cons c tail =>
    rw [ne_eq, nameChars_eq_nil_iff, Bool.not_eq_false] at h
    exact ⟨c, tail, rfl, h⟩

theorem not_startsNumber_of_nameChars (h : nameChars cs ≠ []) : startsNumber cs = false := by
  obtain ⟨c, tail, rfl, start⟩ := head_of_nameChars h
  refine not_startsNumber (isDigit_of_isNameStart start) ?_
  rintro rfl
  exact absurd start (by decide)

theorem bracketLevel?_eq_none_of_nameChars (h : nameChars cs ≠ []) : bracketLevel? cs = none := by
  by_contra some
  obtain ⟨level, opens⟩ := Option.ne_none_iff_exists'.mp some
  obtain ⟨tail, rfl⟩ := head_of_bracketLevel? opens
  exact h (nameChars_eq_nil_iff.mpr (by decide))

theorem not_quoted_of_nameChars {quote : Char} {tail : List Char}
    (h : nameChars (quote :: tail) ≠ []) : ¬ (quote = '"' ∨ quote = '\'') := by
  rintro (rfl | rfl) <;> exact h (nameChars_eq_nil_iff.mpr (by decide))

theorem head_of_symbol {s : String} (known : s ∈ symbols) (h : startsWith s cs = true) :
    ∃ c tail, cs = c :: tail ∧ s.toList.head? = some c := by
  obtain ⟨rest, rfl⟩ := startsWith_prefix h
  have nonempty := forall_symbols (fun w => w ≠ []) (by decide)
  cases same : s.toList with
  | nil => exact absurd same (nonempty s known)
  | cons c tail => exact ⟨c, tail ++ rest, rfl, rfl⟩

theorem Rule.startsNumber_eq_false (h : Rule cs lexeme n)
    (other : ∀ value, lexeme ≠ .number value) : startsNumber cs = false := by
  cases h with
  | short here quoted inside decoded =>
    subst here
    rcases quoted with rfl | rfl <;> exact not_startsNumber (by decide) (by decide)
  | long opens inside =>
    obtain ⟨tail, rfl⟩ := head_of_bracketLevel? opens
    exact not_startsNumber (by decide) (by decide)
  | number scanned ends nearest => exact absurd rfl (other _)
  | symbol unopened digitless longest => exact digitless
  | keyword starts => exact not_startsNumber_of_nameChars starts
  | name starts => exact not_startsNumber_of_nameChars starts

theorem Rule.bracketLevel?_eq_none (h : Rule cs lexeme n)
    (other : ∀ text, lexeme ≠ .string text) : bracketLevel? cs = none := by
  by_contra some
  obtain ⟨level, opens⟩ := Option.ne_none_iff_exists'.mp some
  obtain ⟨tail, rfl⟩ := head_of_bracketLevel? opens
  cases h with
  | short here quoted inside decoded => exact absurd rfl (other _)
  | long opens inside => exact absurd rfl (other _)
  | number scanned ends nearest =>
    obtain ⟨-, -, -, starts⟩ := Number.Numeral.scan_prefix scanned
    rw [not_startsNumber (by decide) (by decide)] at starts
    cases starts
  | symbol unopened digitless longest => exact some unopened
  | keyword starts => exact some (bracketLevel?_eq_none_of_nameChars starts)
  | name starts => exact some (bracketLevel?_eq_none_of_nameChars starts)

theorem Rule.not_quoted (h : Rule cs lexeme n) (other : ∀ text, lexeme ≠ .string text) :
    ∀ quote tail, cs = quote :: tail → ¬ (quote = '"' ∨ quote = '\'') := by
  rintro quote tail rfl quoted
  cases h with
  | short here quoted inside decoded => exact absurd rfl (other _)
  | long opens inside => exact absurd rfl (other _)
  | number scanned ends nearest =>
    obtain ⟨-, -, -, starts⟩ := Number.Numeral.scan_prefix scanned
    rw [not_startsNumber (by rcases quoted with rfl | rfl <;> decide)
      (by rcases quoted with rfl | rfl <;> decide)] at starts
    cases starts
  | symbol unopened digitless longest =>
    obtain ⟨known, starts⟩ := symbol?_mem longest
    obtain ⟨c, tail, same, head⟩ := head_of_symbol known starts
    cases same
    have unquoted := forall_symbols (fun w => w.head? ≠ some '"' ∧ w.head? ≠ some '\'') (by decide)
    rcases quoted with rfl | rfl
    · exact (unquoted _ known).1 head
    · exact (unquoted _ known).2 head
  | keyword starts => exact not_quoted_of_nameChars starts quoted
  | name starts => exact not_quoted_of_nameChars starts quoted

theorem Rule.nameChars_eq_nil (h : Rule cs lexeme n) (keyword : ∀ word, lexeme ≠ .keyword word)
    (name : ∀ word, lexeme ≠ .name word) : nameChars cs = [] := by
  by_contra starts
  cases h with
  | short here quoted inside decoded =>
    subst here
    exact not_quoted_of_nameChars starts quoted
  | long opens inside =>
    rw [bracketLevel?_eq_none_of_nameChars starts] at opens
    cases opens
  | number scanned ends nearest =>
    obtain ⟨-, -, -, number⟩ := Number.Numeral.scan_prefix scanned
    rw [not_startsNumber_of_nameChars starts] at number
    cases number
  | symbol unopened digitless longest =>
    obtain ⟨c, tail, rfl, start⟩ := head_of_nameChars starts
    obtain ⟨known, begins⟩ := symbol?_mem longest
    obtain ⟨d, tail, same, head⟩ := head_of_symbol known begins
    cases same
    exact head?_ne_of_isNameStart start _ known head
  | keyword starts known => exact keyword _ rfl
  | name starts unknown => exact name _ rfl

/-- Where a name starts, the whole of it is read. -/
theorem Rule.of_nameChars (h : Rule cs lexeme n) (starts : nameChars cs ≠ []) :
    n = (nameChars cs).length ∧
      ((lexeme = .keyword (String.ofList (nameChars cs)) ∧
          String.ofList (nameChars cs) ∈ keywords) ∨
        (lexeme = .name (String.ofList (nameChars cs)) ∧
          String.ofList (nameChars cs) ∉ keywords)) := by
  by_cases word : (∃ w, lexeme = .keyword w) ∨ ∃ w, lexeme = .name w
  · rcases word with ⟨w, rfl⟩ | ⟨w, rfl⟩
    · cases h with
      | keyword starts known => exact ⟨rfl, .inl ⟨rfl, known⟩⟩
    · cases h with
      | name starts unknown => exact ⟨rfl, .inr ⟨rfl, unknown⟩⟩
  · rw [not_or, not_exists, not_exists] at word
    exact absurd (h.nameChars_eq_nil word.1 word.2) starts

/-- Where a long bracket opens, the whole of it is read. -/
theorem Rule.of_bracketLevel? {level : Nat} (h : Rule cs lexeme n)
    (opens : bracketLevel? cs = some level) : ∃ body, longBracket? level cs = some (body, n) ∧
      lexeme = .string (String.ofList (dropFirstNewline body)) := by
  by_cases text : ∃ text, lexeme = .string text
  · obtain ⟨text, rfl⟩ := text
    cases h with
    | short here quoted inside decoded =>
      obtain ⟨tail, same⟩ := head_of_bracketLevel? opens
      rw [here] at same
      cases same
      exact absurd quoted (by decide)
    | @long level' n body opens' inside =>
      rw [opens] at opens'
      cases opens'
      exact ⟨body, inside, rfl⟩
  · rw [h.bracketLevel?_eq_none (not_exists.mp text)] at opens
    cases opens

theorem startsNumber_point {tail : List Char} (h : startsNumber ('.' :: tail) = true) :
    ∃ d rest, tail = d :: rest ∧ isDigit d = true := by
  cases tail with
  | nil =>
    change isDigit '.' = true at h
    exact absurd h (by decide)
  | cons d rest => exact ⟨d, rest, rfl, h⟩

/-- No symbol begins with a later one. -/
theorem symbols_sorted : symbols.Pairwise fun s t => ¬ s.toList <+: t.toList := by
  have sorted : symbolTexts.Pairwise fun v w => ¬ v <+: w := by decide
  rwa [← toList_symbols, List.pairwise_map] at sorted

theorem symbol?_longest {cs : List Char} {s t : String} (h : symbol? cs = some t)
    (known : s ∈ symbols) (starts : startsWith s cs = true) :
    s = t ∨ (s ≠ t ∧ s.toList <+: t.toList) := by
  obtain ⟨-, before, later, split, refused⟩ := List.find?_eq_some_iff_append.mp h
  have whole : t.toList <+: cs := List.isPrefixOf_iff_prefix.mp (symbol?_mem h).2
  have part : s.toList <+: cs := List.isPrefixOf_iff_prefix.mp starts
  have sorted := symbols_sorted
  rw [split, List.pairwise_append, List.pairwise_cons] at sorted
  rw [split, List.mem_append, List.mem_cons] at known
  rcases known with early | rfl | late
  · have := refused s early
    rw [starts] at this
    cases this
  · exact .inl rfl
  · have shorter : ¬ t.toList <+: s.toList := sorted.2.1.1 s late
    rcases List.prefix_or_prefix_of_prefix part whole with begins | begins
    · refine .inr ⟨?_, begins⟩
      rintro rfl
      exact shorter (List.prefix_refl _)
    · exact absurd begins shorter

theorem symbol?_of_nameChars {cs : List Char} (h : nameChars cs ≠ []) : symbol? cs = none := by
  obtain ⟨c, tail, rfl, start⟩ := head_of_nameChars h
  rw [symbol?, List.find?_eq_none]
  intro s known starts
  obtain ⟨d, rest, same, head⟩ := head_of_symbol known starts
  cases same
  exact head?_ne_of_isNameStart start s known head

/-- Where a number starts, the rule for numbers reads it. -/
theorem readToken_of_startsNumber {c : Char} (h : startsNumber (c :: cs) = true) :
    isBlank c = false ∧ opensComment (c :: cs) = false ∧
      readToken c (c :: cs) = readNumber (c :: cs) := by
  obtain ⟨d, tail, same, digit⟩ := head_of_startsNumber h
  obtain ⟨rfl, rfl⟩ := List.cons.inj same
  have other : ∀ ch, isDigit ch = false → ch ≠ '.' → ch ≠ c := by
    rintro ch digitless pointless rfl
    rcases digit with digit | point
    · rw [digitless] at digit
      cases digit
    · exact pointless point
  have unquoted : ¬ (c = '"' || c = '\'') = true := by
    rw [Bool.or_eq_true, decide_eq_true_eq, decide_eq_true_eq]
    rintro (rfl | rfl)
    · exact other '"' (by decide) (by decide) rfl
    · exact other '\'' (by decide) (by decide) rfl
  have unopened : bracketLevel? (c :: cs) = none := by
    by_contra some
    obtain ⟨level, opens⟩ := Option.ne_none_iff_exists'.mp some
    obtain ⟨tail, same⟩ := head_of_bracketLevel? opens
    exact other '[' (by decide) (by decide) (List.cons.inj same).1.symm
  refine ⟨?_, ?_, ?_⟩
  · by_contra blank
    have blank := Bool.not_eq_false _ ▸ blank
    refine other c (isDigit_of_isBlank blank) ?_ rfl
    rintro rfl
    exact absurd blank (by decide)
  · by_contra opens
    obtain ⟨tail, same⟩ := opensComment_prefix (Bool.not_eq_false _ ▸ opens)
    exact other '-' (by decide) (by decide) (List.cons.inj same).1.symm
  · rw [readToken, if_neg unquoted, unopened]
    exact if_pos h

theorem readWord_of_nameChars {c : Char} (h : nameChars cs ≠ []) : readWord c cs =
    .ok (if keywords.contains (String.ofList (nameChars cs))
      then .keyword (String.ofList (nameChars cs)) else .name (String.ofList (nameChars cs)),
      (nameChars cs).length) := by
  unfold readWord
  split
  next none => exact absurd none h
  next => rfl

/-- What a rule reads is what the tokenizer reads. -/
theorem readToken_eq_ok_iff {c : Char} :
    readToken c (c :: cs) = .ok (lexeme, n) ↔ Rule (c :: cs) lexeme n := by
  refine ⟨rule_of_readToken, fun rule => ?_⟩
  have unquoted : (∀ text, lexeme ≠ .string text) → ¬ (c = '"' || c = '\'') = true := by
    intro other quoted
    exact rule.not_quoted other c cs rfl (by simpa using quoted)
  cases rule with
  | short here quoted inside decoded =>
    cases here
    rw [readToken, if_pos (by simpa using quoted), readShortString, List.drop_one, List.tail_cons,
      inside]
    dsimp only
    rw [decoded]
  | long opens inside =>
    obtain ⟨tail, same⟩ := head_of_bracketLevel? opens
    cases same
    rw [readToken, if_neg (by decide), opens]
    dsimp only
    rw [readLongString, inside]
  | number scanned ends nearest =>
    obtain ⟨-, -, -, starts⟩ := Number.Numeral.scan_prefix scanned
    rw [(readToken_of_startsNumber starts).2.2, readNumber, scanned]
    dsimp only
    rw [if_neg (by simp [ends]), nearest]
  | symbol unopened digitless longest =>
    rw [readToken, if_neg (unquoted fun _ => Lexeme.noConfusion), unopened]
    dsimp only
    rw [if_neg (by simp [digitless]), longest]
  | keyword starts known =>
    rw [readToken, if_neg (unquoted fun _ => Lexeme.noConfusion),
      bracketLevel?_eq_none_of_nameChars starts]
    dsimp only
    rw [if_neg (by simp [not_startsNumber_of_nameChars starts]), symbol?_of_nameChars starts]
    dsimp only
    rw [readWord_of_nameChars starts, if_pos (List.contains_iff_mem.mpr known)]
  | name starts unknown =>
    rw [readToken, if_neg (unquoted fun _ => Lexeme.noConfusion),
      bracketLevel?_eq_none_of_nameChars starts]
    dsimp only
    rw [if_neg (by simp [not_startsNumber_of_nameChars starts]), symbol?_of_nameChars starts]
    dsimp only
    rw [readWord_of_nameChars starts,
      if_neg fun known => unknown (List.contains_iff_mem.mp known)]

end MiniLua.Lexer

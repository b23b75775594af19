import MiniLua.Proofs.Token.Rule

/-!
# The tokenizer step by step

The tokenizer goes over a text in steps, each of which passes a blank, passes a comment or reads a
token. Where no step is possible the text ends or is refused; which of the two, and where, does not
depend on how the steps are counted.
-/

namespace MiniLua

open MiniLua.Text MiniLua.Spelling MiniLua.Parser

namespace Lexer

variable {blank : Char → Bool} {cs rest : List Char} {line line' n : Nat} {ts ts' : List Token}

/-- How many characters the tokenizer covers at the front of a text, and the token it reads there
if they are one. -/
inductive Step (blank : Char → Bool) : List Char → Option Lexeme → Nat → Prop
  | blank {c : Char} {cs : List Char} (blanks : blank c = true) : Step blank (c :: cs) none 1
  | comment {cs : List Char} {n : Nat} (opens : opensComment cs = true)
      (length : commentLength cs = .ok n) : Step blank cs none n
  | token {c : Char} {cs : List Char} {lexeme : Lexeme} {n : Nat} (solid : isBlank c = false)
      (uncommented : opensComment (c :: cs) = false)
      (read : readToken c (c :: cs) = .ok (lexeme, n)) : Step blank (c :: cs) (some lexeme) n

/-- The tokenizer cannot go on at the front of a text. -/
inductive Refused : List Char → Refusal → Prop
  | comment {cs : List Char} {e : LexError} (opens : opensComment cs = true)
      (length : commentLength cs = .error e) : Refused cs (.error e)
  | token {c : Char} {cs : List Char} {why : Refusal} (solid : isBlank c = false)
      (uncommented : opensComment (c :: cs) = false) (read : readToken c (c :: cs) = .error why) :
      Refused (c :: cs) why

/-- From a text at a line the tokenizer gets to the rest of the text at a later line, giving the
tokens between. -/
inductive Scans (blank : Char → Bool) : Nat → List Char → List Token → Nat → List Char → Prop
  | refl {line : Nat} {cs : List Char} : Scans blank line cs [] line cs
  | pass {line line' n : Nat} {cs rest : List Char} {ts : List Token} (step : Step blank cs none n)
      (others : Scans blank (line + (cs.take n).count '\n') (cs.drop n) ts line' rest) :
      Scans blank line cs ts line' rest
  | read {line line' n : Nat} {cs rest : List Char} {lexeme : Lexeme} {ts : List Token}
      (step : Step blank cs (some lexeme) n)
      (others : Scans blank (line + (cs.take n).count '\n') (cs.drop n) ts line' rest) :
      Scans blank line cs (⟨lexeme, line⟩ :: ts) line' rest

/-! ## Single steps -/

/-- A step covers a prefix of the text and cuts no word in two. -/
theorem Step.extent {lexeme? : Option Lexeme} (h : Step isBlank cs lexeme? n) :
    ∃ read rest, cs = read ++ rest ∧ read ≠ [] ∧ n = read.length ∧ Parted read rest := by
  cases h with
  | @blank c cs blanks =>
    exact ⟨[c], cs, rfl, List.cons_ne_nil _ _, rfl,
      .of_getLast? c rfl (not_touchesWord_of_isBlank blanks)⟩
  | comment opens length => exact commentLength_extent opens length
  | token solid uncommented read => exact (rule_of_readToken read).extent

theorem Step.mono {lexeme? : Option Lexeme} (h : Step blank cs lexeme? n)
    (wider : ∀ c, blank c = true → isBlank c = true) : Step isBlank cs lexeme? n := by
  cases h with
  | blank blanks => exact .blank (wider _ blanks)
  | comment opens length => exact .comment opens length
  | token solid uncommented read => exact .token solid uncommented read

/-- Reading a token does not depend on the blanks between tokens. -/
theorem Step.read_congr {blank' : Char → Bool} {lexeme : Lexeme}
    (h : Step blank cs (some lexeme) n) : Step blank' cs (some lexeme) n := by
  cases h with
  | token solid uncommented read => exact .token solid uncommented read

theorem not_step_nil {lexeme? : Option Lexeme} : ¬ Step blank [] lexeme? n := by
  intro step
  cases step with
  | comment opens => cases opens

theorem isBlank_of_opensComment {c : Char} (h : opensComment (c :: cs) = true) :
    isBlank c = false := by
  obtain ⟨rest, same⟩ := opensComment_prefix h
  cases same
  decide

theorem Step.unique {lexeme? lexeme?' : Option Lexeme} {n' : Nat}
    (h : Step isBlank cs lexeme? n) (h' : Step isBlank cs lexeme?' n') :
    lexeme? = lexeme?' ∧ n = n' := by
  cases h with
  | blank blanks =>
    cases h' with
    | blank => exact ⟨rfl, rfl⟩
    | comment opens => rw [isBlank_of_opensComment opens] at blanks; cases blanks
    | token solid => rw [solid] at blanks; cases blanks
  | comment opens length =>
    cases h' with
    | blank blanks => rw [isBlank_of_opensComment opens] at blanks; cases blanks
    | comment opens' length' =>
      rw [length] at length'
      cases length'
      exact ⟨rfl, rfl⟩
    | token solid uncommented => rw [opens] at uncommented; cases uncommented
  | token solid uncommented read =>
    cases h' with
    | blank blanks => rw [solid] at blanks; cases blanks
    | comment opens => rw [opens] at uncommented; cases uncommented
    | token solid' uncommented' read' =>
      rw [read] at read'
      cases read'
      exact ⟨rfl, rfl⟩

theorem step_or_refused (nonempty : cs ≠ []) :
    (∃ lexeme? n, Step isBlank cs lexeme? n) ∨ ∃ why, Refused cs why := by
  obtain ⟨c, cs, rfl⟩ := List.exists_cons_of_ne_nil nonempty
  cases solid : isBlank c with
  | true => exact .inl ⟨_, _, .blank solid⟩
  | false =>
    cases opens : opensComment (c :: cs) with
    | true =>
      cases length : commentLength (c :: cs) with
      | ok n => exact .inl ⟨_, _, .comment opens length⟩
      | error e => exact .inr ⟨_, .comment opens length⟩
    | false =>
      cases read : readToken c (c :: cs) with
      | ok token => exact .inl ⟨_, _, .token solid opens read⟩
      | error why => exact .inr ⟨_, .token solid opens read⟩

/-- Where the text is refused there is no step. -/
theorem Refused.not_step {why : Refusal} (h : Refused cs why) {lexeme? : Option Lexeme} :
    ¬ Step isBlank cs lexeme? n := by
  intro step
  cases h with
  | comment opens length =>
    cases step with
    | blank blanks => rw [isBlank_of_opensComment opens] at blanks; cases blanks
    | comment opens' length' => rw [length] at length'; cases length'
    | token solid uncommented => rw [opens] at uncommented; cases uncommented
  | token solid uncommented read =>
    cases step with
    | blank blanks => rw [solid] at blanks; cases blanks
    | comment opens => rw [opens] at uncommented; cases uncommented
    | token solid' uncommented' read' => rw [read] at read'; cases read'

theorem Refused.unique {why why' : Refusal} (h : Refused cs why) (h' : Refused cs why') :
    why = why' := by
  cases h with
  | comment opens length =>
    cases h' with
    | comment opens' length' => rw [length] at length'; cases length'; rfl
    | token solid uncommented => rw [opens] at uncommented; cases uncommented
  | token solid uncommented read =>
    cases h' with
    | comment opens => rw [opens] at uncommented; cases uncommented
    | token solid' uncommented' read' => rw [read] at read'; cases read'; rfl

section

variable {lexeme? : Option Lexeme} {why : Refusal}

/-- In front of a token the tokenizer does what the reader of tokens does. -/
theorem step_solid_iff {c : Char} (solid : isBlank c = false)
    (uncommented : opensComment (c :: cs) = false) :
    Step isBlank (c :: cs) lexeme? n ↔
      ∃ lexeme, lexeme? = some lexeme ∧ readToken c (c :: cs) = .ok (lexeme, n) := by
  constructor
  · intro step
    cases step with
    | blank blanks => rw [solid] at blanks; cases blanks
    | comment opens => rw [uncommented] at opens; cases opens
    | token _ _ read => exact ⟨_, rfl, read⟩
  · rintro ⟨lexeme, rfl, read⟩
    exact .token solid uncommented read

theorem refused_solid_iff {c : Char} (solid : isBlank c = false)
    (uncommented : opensComment (c :: cs) = false) :
    Refused (c :: cs) why ↔ readToken c (c :: cs) = .error why := by
  refine ⟨fun refused => ?_, .token solid uncommented⟩
  cases refused with
  | comment opens => rw [uncommented] at opens; cases opens
  | token _ _ read => exact read

/-- In front of a comment the tokenizer does what measuring the comment says. -/
theorem step_comment_iff (opens : opensComment cs = true) :
    Step isBlank cs lexeme? n ↔ lexeme? = none ∧ commentLength cs = .ok n := by
  constructor
  · intro step
    cases step with
    | blank blanks => rw [isBlank_of_opensComment opens] at blanks; cases blanks
    | comment _ length => exact ⟨rfl, length⟩
    | token _ uncommented => rw [opens] at uncommented; cases uncommented
  · rintro ⟨rfl, length⟩
    exact .comment opens length

theorem refused_comment_iff (opens : opensComment cs = true) :
    Refused cs why ↔ ∃ e, why = .error e ∧ commentLength cs = .error e := by
  constructor
  · intro refused
    cases refused with
    | comment _ length => exact ⟨_, rfl, length⟩
    | token _ uncommented => rw [opens] at uncommented; cases uncommented
  · rintro ⟨e, rfl, length⟩
    exact .comment opens length

end

/-! ## Stretches of steps -/

namespace Scans

theorem mono (h : Scans blank line cs ts line' rest)
    (wider : ∀ c, blank c = true → isBlank c = true) : Scans isBlank line cs ts line' rest := by
  induction h with
  | refl => exact .refl
  | pass step others ih => exact .pass (step.mono wider) ih
  | read step others ih => exact .read (step.mono wider) ih

theorem trans {line'' : Nat} {rest' : List Char} (h : Scans blank line cs ts line' rest)
    (h' : Scans blank line' rest ts' line'' rest') :
    Scans blank line cs (ts ++ ts') line'' rest' := by
  induction h with
  | refl => exact h'
  | pass step others ih => exact .pass step (ih h')
  | read step others ih => exact .read step (ih h')

theorem concat_read {lexeme : Lexeme} (h : Scans blank line cs ts line' rest)
    (step : Step blank rest (some lexeme) n) :
    Scans blank line cs (ts ++ [⟨lexeme, line'⟩]) (line' + (rest.take n).count '\n')
      (rest.drop n) :=
  h.trans (.read step .refl)

theorem concat_pass (h : Scans blank line cs ts line' rest) (step : Step blank rest none n) :
    Scans blank line cs ts (line' + (rest.take n).count '\n') (rest.drop n) := by
  have whole := h.trans (.pass step .refl)
  rwa [List.append_nil] at whole

/-- There is nothing to scan in an empty text. -/
theorem of_nil (h : Scans blank line [] ts line' rest) : ts = [] ∧ line' = line ∧ rest = [] := by
  cases h with
  | refl => exact ⟨rfl, rfl, rfl⟩
  | pass step others => exact absurd step not_step_nil
  | read step others => exact absurd step not_step_nil

theorem of_blanks {run : List Char} (blanks : ∀ c ∈ run, blank c = true) :
    Scans blank line (run ++ rest) [] (line + run.count '\n') rest := by
  induction run generalizing line with
  | nil => exact .refl
  | cons c run ih =>
    have others : Scans blank (line + [c].count '\n') (run ++ rest) [] _ rest :=
      ih fun d member => blanks d (List.mem_cons_of_mem _ member)
    rw [Nat.add_assoc, ← List.count_append, List.singleton_append] at others
    exact .pass (.blank (blanks c List.mem_cons_self)) others

/-- The text is covered up to the rest, and the lines are those of what is covered. -/
theorem covers (h : Scans isBlank line cs ts line' rest) :
    ∃ read, cs = read ++ rest ∧ line' = line + read.count '\n' := by
  have extend : ∀ {cs rest : List Char} {n line line' : Nat} {lexeme? : Option Lexeme},
      Step isBlank cs lexeme? n →
      (∃ read, cs.drop n = read ++ rest ∧
        line' = line + (cs.take n).count '\n' + read.count '\n') →
      ∃ read, cs = read ++ rest ∧ line' = line + read.count '\n' := by
    rintro cs rest n line line' lexeme? - ⟨read, same, lines⟩
    refine ⟨cs.take n ++ read, ?_, ?_⟩
    · rw [List.append_assoc, ← same, List.take_append_drop]
    · rw [lines, List.count_append, Nat.add_assoc]
  induction h with
  | refl => exact ⟨[], rfl, rfl⟩
  | pass step others ih => exact extend step ih
  | read step others ih => exact extend step ih

/-- Every token covers a character. -/
theorem length_le (h : Scans isBlank line cs ts line' rest) : ts.length ≤ cs.length := by
  induction h with
  | refl => exact Nat.zero_le _
  | pass step others ih =>
    rw [List.length_drop] at ih
    omega
  | read step others ih =>
    obtain ⟨read, tail, rfl, nonempty, rfl, -⟩ := step.extent
    have := List.length_pos_iff.mpr nonempty
    rw [List.drop_left] at ih
    rw [List.length_append, List.length_cons]
    omega

theorem lexeme_ne_endOfText (h : Scans isBlank line cs ts line' rest) :
    ∀ t ∈ ts, t.lexeme ≠ .endOfText := by
  induction h with
  | refl => simp
  | pass step others ih => exact ih
  | read step others ih =>
    refine List.forall_mem_cons.mpr ⟨?_, ih⟩
    cases step with
    | token solid uncommented read => cases rule_of_readToken read <;> exact Lexeme.noConfusion

section

variable (wider : ∀ c, blank c = true → isBlank c = true)

include wider

/-- A scan from a blank or a comment stays there or goes on behind it. -/
theorem cases_pass (h : Scans blank line cs ts line' rest) (step : Step isBlank cs none n) :
    (ts = [] ∧ line = line' ∧ cs = rest) ∨
      Scans blank (line + (cs.take n).count '\n') (cs.drop n) ts line' rest := by
  cases h with
  | refl => exact .inl ⟨rfl, rfl, rfl⟩
  | pass step' others =>
    obtain ⟨-, rfl⟩ := step.unique (step'.mono wider)
    exact .inr others
  | read step' others => cases (step.unique (step'.mono wider)).1

/-- A scan from a token stays there or reads it. -/
theorem cases_read {lexeme : Lexeme} (h : Scans blank line cs ts line' rest)
    (step : Step isBlank cs (some lexeme) n) :
    (ts = [] ∧ line = line' ∧ cs = rest) ∨ ∃ ts', ts = ⟨lexeme, line⟩ :: ts' ∧
      Scans blank (line + (cs.take n).count '\n') (cs.drop n) ts' line' rest := by
  cases h with
  | refl => exact .inl ⟨rfl, rfl, rfl⟩
  | pass step' others => cases (step.unique (step'.mono wider)).1
  | read step' others =>
    obtain ⟨same, rfl⟩ := step.unique (step'.mono wider)
    cases same
    exact .inr ⟨_, rfl, others⟩

theorem of_pass (h : Scans blank line cs ts line' []) (step : Step isBlank cs none n) :
    Scans blank (line + (cs.take n).count '\n') (cs.drop n) ts line' [] := by
  rcases h.cases_pass wider step with ⟨-, -, rfl⟩ | others
  · exact absurd step not_step_nil
  · exact others

theorem of_read {lexeme : Lexeme} (h : Scans blank line cs ts line' [])
    (step : Step isBlank cs (some lexeme) n) : ∃ ts', ts = ⟨lexeme, line⟩ :: ts' ∧
      Scans blank (line + (cs.take n).count '\n') (cs.drop n) ts' line' [] := by
  rcases h.cases_read wider step with ⟨-, -, rfl⟩ | others
  · exact absurd step not_step_nil
  · exact others

end

/-- A scan to a place without a step passes every place that another scan gets to. -/
theorem through {line₁ line₂ : Nat} {rest₁ rest₂ : List Char} {ts₁ ts₂ : List Token}
    (h₁ : Scans isBlank line cs ts₁ line₁ rest₁)
    (h₂ : Scans blank line cs ts₂ line₂ rest₂) (wider : ∀ c, blank c = true → isBlank c = true)
    (last : ∀ lexeme? n, ¬ Step isBlank rest₂ lexeme? n) :
    ∃ ts, ts₂ = ts₁ ++ ts ∧ Scans blank line₁ rest₁ ts line₂ rest₂ := by
  induction h₁ generalizing ts₂ with
  | refl => exact ⟨ts₂, rfl, h₂⟩
  | pass step others ih =>
    rcases h₂.cases_pass wider step with ⟨-, -, rfl⟩ | others'
    · exact absurd step (last _ _)
    · exact ih others'
  | read step others ih =>
    rcases h₂.cases_read wider step with ⟨-, -, rfl⟩ | ⟨ts₂, rfl, others'⟩
    · exact absurd step (last _ _)
    · obtain ⟨ts, rfl, tail⟩ := ih others'
      exact ⟨ts, rfl, tail⟩

/-- Two scans that cannot go on end at the same place with the same tokens. -/
theorem unique {line₁ line₂ : Nat} {rest₁ rest₂ : List Char} {ts₁ ts₂ : List Token}
    (h₁ : Scans isBlank line cs ts₁ line₁ rest₁) (h₂ : Scans isBlank line cs ts₂ line₂ rest₂)
    (last₁ : ∀ lexeme? n, ¬ Step isBlank rest₁ lexeme? n)
    (last₂ : ∀ lexeme? n, ¬ Step isBlank rest₂ lexeme? n) :
    ts₁ = ts₂ ∧ line₁ = line₂ ∧ rest₁ = rest₂ := by
  obtain ⟨ts, rfl, tail⟩ := h₁.through h₂ (fun _ => id) last₂
  cases tail with
  | refl => exact ⟨(List.append_nil _).symm, rfl, rfl⟩
  | pass step others => exact absurd step (last₁ _ _)
  | read step others => exact absurd step (last₁ _ _)

end Scans

/-! ## The whole text -/

theorem tokensFrom_of_pass {fuel : Nat} {place : Cursor} (h : Step isBlank place.rest none n) :
    tokensFrom (fuel + 1) place = tokensFrom fuel (place.advance n) := by
  generalize same : place.rest = text at h
  cases h with
  | @blank c cs blanks =>
    rw [tokensFrom, same]
    exact if_pos blanks
  | comment opens length =>
    obtain ⟨tail, rfl⟩ := opensComment_prefix opens
    rw [tokensFrom, same]
    dsimp only
    rw [if_neg (by decide), if_pos opens, length]

theorem tokensFrom_of_read {fuel : Nat} {place : Cursor} {lexeme : Lexeme}
    (h : Step isBlank place.rest (some lexeme) n) :
    tokensFrom (fuel + 1) place =
      (tokensFrom fuel (place.advance n)).map (⟨lexeme, place.line⟩ :: ·) := by
  generalize same : place.rest = text at h
  cases h with
  | token solid uncommented read =>
    rw [tokensFrom, same]
    dsimp only
    rw [if_neg (by simp [solid]), if_neg (by simp [uncommented]), read]

theorem tokensFrom_of_refused {fuel : Nat} {place : Cursor} {why : Refusal}
    (h : Refused place.rest why) :
    tokensFrom (fuel + 1) place = .error (why.at place.line) := by
  generalize same : place.rest = text at h
  cases h with
  | comment opens length =>
    obtain ⟨tail, rfl⟩ := opensComment_prefix opens
    rw [tokensFrom, same]
    dsimp only
    rw [if_neg (by decide), if_pos opens, length]
    rfl
  | token solid uncommented read =>
    rw [tokensFrom, same]
    dsimp only
    rw [if_neg (by simp [solid]), if_neg (by simp [uncommented]), read]

/-- How the tokenizer ends: at the end of the text or where the text is refused. -/
inductive Ends (line : Nat) (cs : List Char) : Except LexFault (List Token) → Prop
  | finished {ts : List Token} {line' : Nat} (scans : Scans isBlank line cs ts line' []) :
      Ends line cs (.ok (ts ++ [⟨.endOfText, line'⟩]))
  | refused {ts : List Token} {line' : Nat} {rest : List Char} {why : Refusal}
      (scans : Scans isBlank line cs ts line' rest) (refused : Refused rest why) :
      Ends line cs (.error (why.at line'))

theorem ends_tokensFrom {fuel : Nat} {place : Cursor} (enough : place.rest.length ≤ fuel) :
    Ends place.line place.rest (tokensFrom fuel place) := by
  induction fuel generalizing place with
  | zero =>
    have finished : place.rest = [] := List.length_eq_zero_iff.mp (by omega)
    rw [tokensFrom, finished]
    exact .finished .refl
  | succ fuel ih =>
    by_cases nonempty : place.rest = []
    · rw [tokensFrom, nonempty]
      exact .finished .refl
    rcases step_or_refused nonempty with ⟨lexeme?, n, step⟩ | ⟨why, refused⟩
    · obtain ⟨read, rest, same, some, length, -⟩ := step.extent
      have positive := List.length_pos_iff.mpr some
      have shorter : (place.advance n).rest.length ≤ fuel := by
        rw [Cursor.rest_advance, same, length, List.drop_left]
        rw [same, List.length_append] at enough
        omega
      have tail := ih shorter
      rw [Cursor.line_advance, Cursor.rest_advance] at tail
      cases lexeme? with
      | none =>
        rw [tokensFrom_of_pass step]
        generalize tokensFrom fuel (place.advance n) = result at tail ⊢
        cases tail with
        | finished scans => exact .finished (.pass step scans)
        | refused scans refused => exact .refused (.pass step scans) refused
      | some lexeme =>
        rw [tokensFrom_of_read step]
        generalize tokensFrom fuel (place.advance n) = result at tail ⊢
        cases tail with
        | finished scans => exact .finished (.read step scans)
        | refused scans refused => exact .refused (.read step scans) refused
    · rw [tokensFrom_of_refused refused]
      exact .refused .refl refused

theorem ends_tokenize (text : List Char) : Ends 1 text (tokenize text) := by
  have short : (Cursor.ofChars text).rest.length ≤ text.length := le_rfl
  exact ends_tokensFrom short

/-- The tokens of a text are those that the tokenizer gives up to its end. -/
theorem tokenize_eq_ok {text : List Char} :
    tokenize text = .ok ts ↔
      ∃ ts' line, Scans isBlank 1 text ts' line [] ∧ ts = ts' ++ [⟨.endOfText, line⟩] := by
  have ends := ends_tokenize text
  constructor
  · intro same
    rw [same] at ends
    cases ends with
    | finished scans => exact ⟨_, _, scans, rfl⟩
  · rintro ⟨ts', line, scans, rfl⟩
    generalize tokenize text = result at ends
    cases ends with
    | finished others =>
      obtain ⟨rfl, rfl, -⟩ := scans.unique others (fun _ _ => not_step_nil) fun _ _ => not_step_nil
      rfl
    | refused others refused =>
      obtain ⟨-, -, rfl⟩ :=
        scans.unique others (fun _ _ => not_step_nil) fun _ _ => refused.not_step
      rcases refused with ⟨opens, -⟩
      cases opens

/-- A text is not cut into tokens if the tokenizer gets to a place where it is refused. -/
theorem tokenize_eq_error {text : List Char} {fault : LexFault} :
    tokenize text = .error fault ↔ ∃ ts line rest why, Scans isBlank 1 text ts line rest ∧
      Refused rest why ∧ fault = why.at line := by
  have ends := ends_tokenize text
  constructor
  · intro same
    rw [same] at ends
    cases ends with
    | refused scans refused => exact ⟨_, _, _, _, scans, refused, rfl⟩
  · rintro ⟨ts, line, rest, why, scans, refused, rfl⟩
    generalize tokenize text = result at ends
    cases ends with
    | finished others =>
      obtain ⟨-, -, rfl⟩ :=
        scans.unique others (fun _ _ => refused.not_step) fun _ _ => not_step_nil
      rcases refused with ⟨opens, -⟩
      cases opens
    | refused others refused' =>
      obtain ⟨-, rfl, rfl⟩ :=
        scans.unique others (fun _ _ => refused.not_step) fun _ _ => refused'.not_step
      rw [refused.unique refused']

theorem Scans.tokenize_of_refused {text : List Char} {why : Refusal}
    (h : Scans isBlank 1 text ts line rest) (refused : Refused rest why) :
    tokenize text = .error (why.at line) :=
  tokenize_eq_error.mpr ⟨ts, line, rest, why, h, refused, rfl⟩

end Lexer

open MiniLua.Lexer

/-! ## Texts that both scanners read alike -/

/-- A long string starts here, and a further long bracket opens at its second bracket and is closed
somewhere. -/
def Reopens (cs : List Char) : Prop :=
  bracketLevel? cs = some 0 ∧ ∃ level closed, bracketLevel? (cs.drop 1) = some level ∧
    longBracket? level (cs.drop 1) = some closed

/-- No long string of the text has a further long bracket at its second bracket. -/
def Steady (text : List Char) : Prop :=
  ∀ ts line rest, Scans isBlank 1 text ts line rest → ¬ Reopens rest

/-- All blanks between the tokens of the text are known to the grammar. -/
def Passable (text : List Char) : Prop :=
  ∃ ts line, Scans isGrammarBlank 1 text ts line []

end MiniLua

import MiniLua.Proofs.Token.Lockstep

/-!
# A parenthesis behind a text

A closing parenthesis behind a text is a token of its own, unless the text ends in a comment that
takes it in.
-/

namespace MiniLua

open MiniLua.Text MiniLua.Spelling MiniLua.Lexer

/-- The tokenizer gets to a comment that lasts to the end of the text. -/
def CommentedOut (text : List Char) : Prop :=
  ∃ ts line rest, Scans isBlank 1 text ts line rest ∧ OpenComment rest

theorem CommentedOut.dash_mem {text : List Char} (h : CommentedOut text) : '-' ∈ text := by
  obtain ⟨ts, line, rest, scan, comment⟩ := h
  obtain ⟨read, rfl, -⟩ := scan.covers
  obtain ⟨tail, rfl⟩ := opensComment_prefix comment.opens
  simp

theorem separates_paren : Separates [')'] := by
  rintro c ⟨⟩
  exact .inr rfl

variable {blank : Char → Bool} {cs : List Char} {line : Nat}

theorem reopens_append_paren (nonempty : cs ≠ []) : Reopens (cs ++ [')']) ↔ Reopens cs := by
  have closers : ∀ level rest, closer level <:+: rest ++ [')'] ↔ closer level <:+: rest ++ [] := by
    intro level rest
    rw [infix_append_cons_iff (closer_ne_nil level) (not_mem_closer level (by decide) (by decide)),
      List.append_nil, List.infix_nil]
    exact or_iff_left (closer_ne_nil level)
  constructor
  · intro h
    have alone := h.change_tail nonempty separates_paren .nil fun level rest =>
      (closers level rest).mp
    rwa [List.append_nil] at alone
  · intro h
    rw [← List.append_nil cs] at h
    exact h.change_tail nonempty .nil separates_paren fun level rest => (closers level rest).mpr

namespace OpenComment

theorem ne_nil (h : OpenComment cs) : cs ≠ [] := by
  rintro rfl
  cases h.opens

theorem step_all (h : OpenComment cs) : Step blank cs none cs.length := by
  have whole : Step blank (cs ++ []) none (cs.length + (firstLine []).length) := h.step .nil
  rwa [List.append_nil] at whole

theorem step_paren (h : OpenComment cs) : Step blank (cs ++ [')']) none (cs ++ [')']).length := by
  rw [List.length_append]
  exact h.step separates_paren

end OpenComment

namespace Lexer

theorem not_reopens_paren {line' last : Nat} {ts : List Token} {rest : List Char}
    (scan : Scans isBlank line' [')'] ts last rest) : ¬ Reopens rest := by
  have unopened : ∀ {cs}, bracketLevel? cs = none → ¬ Reopens cs := by
    rintro cs none ⟨opens, -⟩
    rw [none] at opens
    cases opens
  have step : Step isBlank [')'] (some (.symbol ")")) 1 := .token (by decide) (by decide) rfl
  rcases scan.cases_read (fun _ => id) step with ⟨-, -, rfl⟩ | ⟨ts', -, others⟩
  · exact unopened rfl
  · cases others with
    | refl => exact unopened rfl
    | pass step => exact absurd step not_step_nil
    | read step => exact absurd step not_step_nil

/-- A step stays as it is when a parenthesis is put behind the text, but for a comment that takes the
parenthesis in. -/
theorem Step.close {lexeme? : Option Lexeme} {n : Nat} (wider : ∀ c, blank c = true → isBlank c = true)
    (step : Step blank cs lexeme? n) :
    (n ≤ cs.length ∧ Step blank (cs ++ [')']) lexeme? n) ∨
      (lexeme? = none ∧ n = cs.length ∧ OpenComment cs) := by
  obtain ⟨read, rest, rfl, nonempty, rfl, -⟩ := (step.mono wider).extent
  have short : read.length ≤ (read ++ rest).length := by simp
  rw [← List.append_nil (read ++ rest)] at step
  rcases step.change_tail short (by simp [nonempty]) .nil separates_paren with
    step | ⟨none, length, -, comment, -⟩
  · exact .inl ⟨short, step⟩
  · exact .inr ⟨none, length, comment⟩

namespace Scans

variable {ts : List Token} {last : Nat}

theorem pass_append {n : Nat} {tail rest : List Char} (short : n ≤ cs.length)
    (step : Step blank (cs ++ tail) none n)
    (others : Scans blank (line + (cs.take n).count '\n') (cs.drop n ++ tail) ts last rest) :
    Scans blank line (cs ++ tail) ts last rest := by
  refine .pass step ?_
  rwa [List.take_append_of_le_length short, List.drop_append_of_le_length short]

theorem read_append {n : Nat} {lexeme : Lexeme} {tail rest : List Char} (short : n ≤ cs.length)
    (step : Step blank (cs ++ tail) (some lexeme) n)
    (others : Scans blank (line + (cs.take n).count '\n') (cs.drop n ++ tail) ts last rest) :
    Scans blank line (cs ++ tail) (⟨lexeme, line⟩ :: ts) last rest := by
  refine .read step ?_
  rwa [List.take_append_of_le_length short, List.drop_append_of_le_length short]

/-- The tokens of a text stay when a parenthesis is put behind it that no comment takes in. -/
theorem close (wider : ∀ c, blank c = true → isBlank c = true) {stop : List Char}
    (scan : Scans blank line cs ts last stop) (finished : stop = []) :
    Scans blank line (cs ++ [')']) ts last [')'] ∨
      ∃ seen line' rest, Scans blank line cs seen line' rest ∧ OpenComment rest := by
  induction scan with
  | refl =>
    subst finished
    exact .inl .refl
  | pass step others ih =>
    rcases step.close wider with ⟨short, step'⟩ | ⟨-, -, comment⟩
    · rcases ih finished with tail | ⟨seen, line', rest, inner, comment⟩
      · exact .inl (.pass_append short step' tail)
      · exact .inr ⟨seen, line', rest, .pass step inner, comment⟩
    · exact .inr ⟨[], _, _, .refl, comment⟩
  | read step others ih =>
    rcases step.close wider with ⟨short, step'⟩ | ⟨none, -⟩
    · rcases ih finished with tail | ⟨seen, line', rest, inner, comment⟩
      · exact .inl (.read_append short step' tail)
      · exact .inr ⟨_, line', rest, .read step inner, comment⟩
    · cases none

theorem pass_all {rest : List Char} (scan : Scans blank line cs ts last rest)
    (whole : Step blank rest none rest.length) : ∃ last', Scans blank line cs ts last' [] := by
  have finished : Scans blank last rest [] (last + (rest.take rest.length).count '\n') [] := by
    refine .pass whole ?_
    rw [List.drop_length]
    exact .refl
  exact ⟨_, by simpa using scan.trans finished⟩

/-- A place in a text is got to as well when a parenthesis is put behind the text. -/
theorem append_paren {rest : List Char} (wider : ∀ c, blank c = true → isBlank c = true)
    (scan : Scans blank line cs ts last rest) (more : rest ≠ []) :
    Scans blank line (cs ++ [')']) ts last (rest ++ [')']) := by
  induction scan with
  | refl => exact .refl
  | pass step others ih =>
    rcases step.close wider with ⟨short, step'⟩ | ⟨-, rfl, -⟩
    · exact .pass_append short step' (ih more)
    · rw [List.drop_length] at others
      exact absurd others.of_nil.2.2 more
  | read step others ih =>
    rcases step.close wider with ⟨short, step'⟩ | ⟨none, -⟩
    · exact .read_append short step' (ih more)
    · cases none

/-- A parenthesis behind a text where both scanners read the long strings alike changes nothing
about that. -/
theorem steady_close {stop : List Char} (scan : Scans isBlank line cs ts last stop)
    (finished : stop = [])
    (steady : ∀ ts last rest, Scans isBlank line cs ts last rest → ¬ Reopens rest) :
    ∀ ts last rest, Scans isBlank line (cs ++ [')']) ts last rest → ¬ Reopens rest := by
  have here : ∀ {line cs}, cs ≠ [] →
      (∀ ts last rest, Scans isBlank line cs ts last rest → ¬ Reopens rest) →
      ¬ Reopens (cs ++ [')']) := fun nonempty steady reopens =>
    steady [] _ _ .refl ((reopens_append_paren nonempty).mp reopens)
  have nonempty : ∀ {cs lexeme? n}, Step isBlank cs lexeme? n → cs ≠ [] := by
    rintro _ lexeme? n step rfl
    exact not_step_nil step
  induction scan with
  | refl =>
    subst finished
    exact fun ts last rest scan => not_reopens_paren scan
  | pass step others ih =>
    intro ts' last' rest' scan
    rcases step.close (fun _ => id) with ⟨short, step'⟩ | ⟨-, rfl, comment⟩
    · rcases scan.cases_pass (fun _ => id) step' with ⟨-, -, rfl⟩ | tail
      · exact here (nonempty step) steady
      · rw [List.take_append_of_le_length short, List.drop_append_of_le_length short] at tail
        exact ih finished (fun ts last rest inner => steady ts last rest (.pass step inner)) _ _ _ tail
    · rcases scan.cases_pass (fun _ => id) comment.step_paren with ⟨-, -, rfl⟩ | tail
      · exact here (nonempty step) steady
      · rw [List.drop_length] at tail
        obtain ⟨-, -, rfl⟩ := tail.of_nil
        exact fun reopens => by cases reopens.1
  | read step others ih =>
    intro ts' last' rest' scan
    rcases step.close (fun _ => id) with ⟨short, step'⟩ | ⟨none, -⟩
    · rcases scan.cases_read (fun _ => id) step' with ⟨-, -, rfl⟩ | ⟨ts'', rfl, tail⟩
      · exact here (nonempty step) steady
      · rw [List.take_append_of_le_length short, List.drop_append_of_le_length short] at tail
        exact ih finished (fun ts last rest inner => steady _ last rest (.read step inner)) _ _ _ tail
    · cases none

end Scans

end Lexer

end MiniLua

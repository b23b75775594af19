import MiniLua.Proofs.Reading.Steps
import MiniLua.Proofs.Token.Scan

/-!
# Where the two scanners stand together

The tokenizer cuts the whole text; the grammar moves over the same characters on its own. A place of
the grammar is aligned with the tokens that the tokenizer still gives there. Alignment survives every
blank and comment the grammar passes, and at the next terminal the grammar stands right before a
token, at the end, or before a blank that only the tokenizer knows.
-/

namespace MiniLua

open MiniLua.Text MiniLua.Spelling MiniLua.Parser MiniLua.Lexer

/-- The tokenizer gets to the place `c` of a text over blanks that the grammar knows, and from there
it gives the tokens `ts`. -/
structure Aligned (text : List Char) (c : Cursor) (ts : List Token) : Prop where
  reached : ∃ before, Scans isGrammarBlank 1 text before c.line c.rest
  parted : c.previous.any touchesWord = true → c.rest.head?.any isNameChar = false
  cut : ∃ ts' line, Scans isBlank c.line c.rest ts' line [] ∧ ts = ts' ++ [⟨.endOfText, line⟩]

/-- The token at the front of the place `c`, with the place and the tokens after it. -/
structure Front (text : List Char) (c : Cursor) (lexeme : Lexeme) (after : Cursor)
    (ts : List Token) : Prop where
  here : Aligned text c (⟨lexeme, c.line⟩ :: ts)
  read : ∃ n, Step isBlank c.rest (some lexeme) n ∧ after = c.advance n
  rest : Aligned text after ts

namespace Aligned

variable {text : List Char} {c : Cursor} {ts : List Token}

theorem start (h : tokenize text = .ok ts) : Aligned text (Cursor.ofChars text) ts where
  reached := ⟨[], .refl⟩
  parted := by
    intro touches
    cases touches
  cut := tokenize_eq_ok.mp h

theorem within (h : Aligned text c ts) : c.rest <:+ text := by
  obtain ⟨before, scans⟩ := h.reached
  obtain ⟨read, same, -⟩ := (scans.mono fun _ => isBlank_of_isGrammarBlank).covers
  exact ⟨read, same.symm⟩

/-- Over a stretch of text that the tokenizer covers in one step. -/
theorem advance {n : Nat} {lexeme? : Option Lexeme} {before ts' : List Token}
    (step : Step isBlank c.rest lexeme? n)
    (reached : Scans isGrammarBlank 1 text before (c.line + (c.rest.take n).count '\n')
      (c.rest.drop n))
    (cut : ∃ ts'' line, Scans isBlank (c.line + (c.rest.take n).count '\n') (c.rest.drop n)
      ts'' line [] ∧ ts' = ts'' ++ [⟨.endOfText, line⟩]) :
    Aligned text (c.advance n) ts' := by
  obtain ⟨read, rest, same, nonempty, rfl, parted⟩ := step.extent
  refine ⟨⟨before, ?_⟩, ?_, ?_⟩
  · rw [Cursor.line_advance, Cursor.rest_advance]
    exact reached
  · rw [Cursor.rest_advance_append same, Cursor.previous_advance same nonempty]
    exact parted
  · rw [Cursor.line_advance, Cursor.rest_advance]
    exact cut

/-- Over a blank or a comment. -/
theorem pass {n : Nat} (h : Aligned text c ts) (step : Step isGrammarBlank c.rest none n) :
    Aligned text (c.advance n) ts := by
  have known := step.mono fun _ => isBlank_of_isGrammarBlank
  obtain ⟨before, reached⟩ := h.reached
  obtain ⟨ts', line, cut, rfl⟩ := h.cut
  have passed : Scans isGrammarBlank 1 text (before ++ []) _ _ :=
    reached.trans (.pass step .refl)
  exact advance known passed ⟨ts', line, cut.of_pass (fun _ => id) known, rfl⟩

/-- Over a token. -/
theorem read {n : Nat} {lexeme : Lexeme} (h : Aligned text c ts)
    (step : Step isBlank c.rest (some lexeme) n) :
    ∃ ts', ts = ⟨lexeme, c.line⟩ :: ts' ∧ Aligned text (c.advance n) ts' := by
  obtain ⟨before, reached⟩ := h.reached
  obtain ⟨ts', line, cut, rfl⟩ := h.cut
  have passed := reached.trans (.read step.read_congr .refl)
  obtain ⟨ts'', rfl, others⟩ := cut.of_read (fun _ => id) step
  exact ⟨_, rfl, advance step passed ⟨ts'', line, others, rfl⟩⟩

/-- The comment that the grammar passes is one for the tokenizer as well. -/
theorem comment_step {n : Nat} (h : Aligned text c ts) (found : comment? c.rest = some n) :
    Step isGrammarBlank c.rest none n := by
  have opens : opensComment c.rest = true := by
    by_contra none
    rw [comment?_eq_none.mpr (by simpa using none)] at found
    cases found
  cases length : commentLength c.rest with
  | ok m =>
    rw [comment?_of_commentLength opens length] at found
    cases found
    exact .comment opens length
  | error e =>
    -- a comment that the tokenizer refuses is not before the end of an aligned text
    obtain ⟨ts', line, cut, -⟩ := h.cut
    generalize c.rest = text at cut opens length
    cases cut with
    | refl => cases opens
    | pass step others => exact absurd step (Refused.comment opens length).not_step
    | read step others => exact absurd step (Refused.comment opens length).not_step

section

variable {P : Cursor → Prop}

/-- What survives the passing of a single blank survives the passing of all of them. -/
theorem keeps_skipBlanks (pass : ∀ {c ch cs}, P c → c.rest = ch :: cs → isGrammarBlank ch = true →
    P (c.advance 1)) (h : P c) : P (Parser.skipBlanks c) := by
  have blanks : ∀ read rest, c.rest = read ++ rest → read.all isGrammarBlank = true →
      P (c.advance read.length) := by
    intro read
    induction read generalizing c with
    | nil => exact fun _ _ _ => h
    | cons ch read ih =>
      intro rest same all
      rw [List.all_cons, Bool.and_eq_true] at all
      refine ih (pass h same all.1) rest ?_ all.2
      rw [Cursor.rest_next, same]
      rfl
  exact blanks _ _ (List.takeWhile_append_dropWhile ..).symm List.all_takeWhile

variable (aligned : ∀ {c}, P c → ∃ ts, Aligned text c ts)
  (pass : ∀ {c n}, P c → Step isGrammarBlank c.rest none n → P (c.advance n))

include pass

theorem keeps_blanks (h : P c) : P (Parser.skipBlanks c) :=
  keeps_skipBlanks (fun h same blanks => pass h (same ▸ .blank blanks)) h

include aligned

theorem keeps_skipCommentsUpTo (fuel : Nat) (h : P c) : P (Parser.skipCommentsUpTo fuel c) := by
  induction fuel generalizing c with
  | zero => exact h
  | succ fuel ih =>
    cases found : comment? (Parser.skipBlanks c).rest with
    | none => simpa only [Parser.skipCommentsUpTo, found] using h
    | some length =>
      simp only [Parser.skipCommentsUpTo, found]
      have blanks := keeps_blanks pass h
      obtain ⟨ts, here⟩ := aligned blanks
      exact ih (pass blanks (here.comment_step found))

theorem keeps_skipComments (h : P c) : P (Parser.skipComments c) := by
  unfold Parser.skipComments
  split
  · exact h
  · exact keeps_skipCommentsUpTo aligned pass _ h

/-- What survives the passing of a blank or a comment survives a skip. -/
theorem keeps_skip (h : P c) : P (Parser.skip c) :=
  keeps_blanks pass (keeps_skipComments aligned pass h)

end

theorem skipComments (h : Aligned text c ts) : Aligned text (Parser.skipComments c) ts :=
  keeps_skipComments (P := (Aligned text · ts)) (fun h => ⟨ts, h⟩) Aligned.pass h

theorem skip (h : Aligned text c ts) : Aligned text (Parser.skip c) ts :=
  keeps_skip (P := (Aligned text · ts)) (fun h => ⟨ts, h⟩) Aligned.pass h

/-- Before the next terminal stands a token, unless the text is over or the tokenizer steps over a
blank that the grammar does not know. -/
theorem front (h : Aligned text c ts) {ch : Char} {cs : List Char}
    (same : (Parser.skip c).rest = ch :: cs) (solid : isBlank ch = false) :
    ∃ lexeme after ts', Front text (Parser.skip c) lexeme after ts' ∧
      ts = ⟨lexeme, (Parser.skip c).line⟩ :: ts' := by
  have aligned := h.skip
  have uncommented : opensComment (ch :: cs) = false := same ▸ (skip_solid c).1
  have step : ∃ lexeme n, Step isBlank (Parser.skip c).rest (some lexeme) n := by
    obtain ⟨ts', line, cut, -⟩ := aligned.cut
    rw [same] at cut ⊢
    cases read : readToken ch (ch :: cs) with
    | ok token => exact ⟨_, _, .token solid uncommented read⟩
    | error why =>
      cases cut with
      | pass step others => exact absurd step (Refused.token solid uncommented read).not_step
      | read step others => exact absurd step (Refused.token solid uncommented read).not_step
  obtain ⟨lexeme, n, step⟩ := step
  obtain ⟨ts', rfl, after⟩ := aligned.read step
  exact ⟨lexeme, _, ts', ⟨aligned, ⟨n, step, rfl⟩, after⟩, rfl⟩

end Aligned

namespace Front

variable {text : List Char} {c after : Cursor} {lexeme : Lexeme} {ts : List Token}

theorem within (h : Front text c lexeme after ts) : c.rest <:+ text := h.here.within

theorem rule (h : Front text c lexeme after ts) :
    ∃ n, Rule c.rest lexeme n ∧ after = c.advance n := by
  obtain ⟨n, step, same⟩ := h.read
  refine ⟨n, ?_, same⟩
  generalize c.rest = cs at step
  cases step with
  | token solid uncommented read => exact rule_of_readToken read

theorem parted (h : Front text c lexeme after ts) :
    c.previous.any touchesWord = true → c.rest.head?.any isNameChar = false :=
  h.here.parted

end Front

end MiniLua

import MiniLua.Proofs.Reading.Cuts

/-!
# The tokens ahead

In a text whose long strings both scanners read alike, the tokens ahead of a place settle what every
terminal of the grammar reads there. They end where the text is over or the grammar meets a blank
that it does not know.
-/

namespace MiniLua

open MiniLua.Text MiniLua.Spelling MiniLua.Parser MiniLua.Lexer

/-- The text is over, or goes on with a blank that the grammar does not know. -/
def Blocked (cs : List Char) : Prop := ∀ lexeme? n, ¬ Step isGrammarBlank cs lexeme? n

/-- From the place `c` the grammar can see the tokens `w`, and no more. -/
structure Ahead (text : List Char) (c : Cursor) (w : List Lexeme) : Prop where
  steady : Steady text
  aligned : ∃ ts, Aligned text c ts
  seen : ∃ ts line rest, Scans isGrammarBlank c.line c.rest ts line rest ∧ Blocked rest ∧
    w = ts.map Token.lexeme

theorem Blocked.of_scans {cs : List Char} {line last : Nat} {ts : List Token}
    (scan : Scans isBlank line cs ts last []) :
    ∃ seen line' rest, Scans isGrammarBlank line cs seen line' rest ∧ Blocked rest := by
  generalize finished : ([] : List Char) = stop at scan
  induction scan with
  | refl => exact ⟨[], _, _, .refl, fun _ _ => finished ▸ not_step_nil⟩
  | @pass line line' n cs rest ts step others ih =>
    cases step with
    | @blank c cs blanks =>
      cases known : isGrammarBlank c with
      | true =>
        obtain ⟨seen, last, rest, scan, blocked⟩ := ih finished
        exact ⟨seen, last, rest, .pass (.blank known) scan, blocked⟩
      | false =>
        refine ⟨[], _, _, .refl, fun lexeme? n step => ?_⟩
        cases step with
        | blank known' => rw [known] at known'; cases known'
        | comment opens => rw [isBlank_of_opensComment opens] at blanks; cases blanks
        | token solid => rw [solid] at blanks; cases blanks
    | comment opens length =>
      obtain ⟨seen, last, rest, scan, blocked⟩ := ih finished
      exact ⟨seen, last, rest, .pass (.comment opens length) scan, blocked⟩
  | read step others ih =>
    obtain ⟨seen, last, rest, scan, blocked⟩ := ih finished
    exact ⟨_ :: seen, last, rest, .read step.read_congr scan, blocked⟩

namespace Ahead

variable {text : List Char} {c : Cursor} {w : List Lexeme}

theorem start {ts : List Token} (steady : Steady text) (h : tokenize text = .ok ts) :
    ∃ w, Ahead text (Cursor.ofChars text) w := by
  obtain ⟨ts', last, scan, -⟩ := tokenize_eq_ok.mp h
  obtain ⟨seen, line, rest, visible, blocked⟩ := Blocked.of_scans scan
  exact ⟨_, steady, ⟨ts, Aligned.start h⟩, seen, line, rest, visible, blocked, rfl⟩

/-- In a text without other blanks than the grammar's all tokens can be seen from the start. -/
theorem start_of_scans {ts : List Token} {last : Nat} (steady : Steady text)
    (scan : Scans isGrammarBlank 1 text ts last []) :
    tokenize text = .ok (ts ++ [⟨.endOfText, last⟩]) ∧
      Ahead text (Cursor.ofChars text) (ts.map Token.lexeme) := by
  have tokens := tokenize_eq_ok.mpr ⟨ts, last, scan.mono fun _ => isBlank_of_isGrammarBlank, rfl⟩
  exact ⟨tokens, steady, ⟨_, Aligned.start tokens⟩, _, _, [], scan, fun _ _ => not_step_nil, rfl⟩

theorem start_of_passable {ts : List Token} (steady : Steady text) (h : tokenize text = .ok ts)
    (passable : Passable text) : Ahead text (Cursor.ofChars text) (ts.dropLast.map Token.lexeme) := by
  obtain ⟨all, last, scan⟩ := passable
  obtain ⟨tokens, start⟩ := start_of_scans steady scan
  rw [h] at tokens
  cases tokens
  rwa [List.dropLast_concat]

/-- Every token takes a character of the text. -/
theorem length_le (h : Ahead text c w) : w.length ≤ c.rest.length := by
  obtain ⟨ts, line, rest, scan, -, rfl⟩ := h.seen
  rw [List.length_map]
  exact (scan.mono fun _ => isBlank_of_isGrammarBlank).length_le

theorem pass {n : Nat} (h : Ahead text c w) (step : Step isGrammarBlank c.rest none n) :
    Ahead text (c.advance n) w where
  steady := h.steady
  aligned := by
    obtain ⟨ts, aligned⟩ := h.aligned
    exact ⟨ts, aligned.pass step⟩
  seen := by
    obtain ⟨ts, line, rest, scan, blocked, rfl⟩ := h.seen
    refine ⟨ts, line, rest, ?_, blocked, rfl⟩
    rw [Cursor.line_advance, Cursor.rest_advance]
    rcases scan.cases_pass (fun _ => isBlank_of_isGrammarBlank)
      (step.mono fun _ => isBlank_of_isGrammarBlank) with ⟨-, -, rfl⟩ | others
    · exact absurd step (blocked _ _)
    · exact others

theorem skipComments (h : Ahead text c w) : Ahead text (Parser.skipComments c) w :=
  Aligned.keeps_skipComments (P := (Ahead text · w)) aligned pass h

theorem skip (h : Ahead text c w) : Ahead text (Parser.skip c) w :=
  Aligned.keeps_skip (P := (Ahead text · w)) aligned pass h

/-- Where no token is ahead no terminal starts. -/
theorem stuck (h : Ahead text c []) : Stuck (Parser.skip c) := by
  obtain ⟨ts, aligned⟩ := h.aligned
  rcases aligned.stuck_or_front with stuck | ⟨lexeme, after, ts', front, -⟩
  · exact stuck
  · obtain ⟨seen, line, rest, scan, blocked, none⟩ := h.skip.seen
    obtain rfl := List.map_eq_nil_iff.mp none.symm
    obtain ⟨n, step, -⟩ := front.read
    rcases scan.cases_read (fun _ => isBlank_of_isGrammarBlank) step with
      ⟨-, -, rfl⟩ | ⟨ts, same, -⟩
    · exact absurd step.read_congr (blocked _ _)
    · cases same

/-- The first token ahead stands at the next terminal. -/
theorem front {l : Lexeme} (h : Ahead text c (l :: w)) :
    ∃ after ts, Front text (Parser.skip c) l after ts ∧ Ahead text after w := by
  obtain ⟨ts, aligned⟩ := h.aligned
  obtain ⟨seen, line, rest, scan, blocked, same⟩ := h.skip.seen
  rcases aligned.stuck_or_front with stuck | ⟨lexeme, after, ts', front, -⟩
  · exfalso
    obtain ⟨uncommented, solid⟩ := skip_solid c
    generalize (Parser.skip c).line = line at scan
    unfold Stuck at stuck
    generalize (Parser.skip c).rest = cs at stuck uncommented solid scan
    cases scan with
    | refl => cases same
    | pass step others =>
      cases step with
      | blank blanks => rw [List.head?_cons, Option.any_some, blanks] at solid; cases solid
      | comment opens => rw [opens] at uncommented; cases uncommented
    | read step others =>
      cases step with
      | token solid' => rw [stuck _ _ rfl] at solid'; cases solid'
  · obtain ⟨n, step, rfl⟩ := front.read
    rcases scan.cases_read (fun _ => isBlank_of_isGrammarBlank) step with
      ⟨rfl, -, -⟩ | ⟨seen, rfl, others⟩
    · cases same
    · obtain ⟨rfl, rfl⟩ := List.cons.inj same
      refine ⟨_, _, front, h.steady, ⟨_, front.rest⟩, seen, line, rest, ?_, blocked, rfl⟩
      rw [Cursor.line_advance, Cursor.rest_advance]
      exact others

theorem eq_nil_of_ended (h : Ahead text c w) (ended : (Parser.skip c).rest = []) : w = [] := by
  cases w with
  | nil => rfl
  | cons l w =>
    obtain ⟨after, ts, front, -⟩ := h.front
    obtain ⟨n, step, -⟩ := front.read
    rw [ended] at step
    exact absurd step not_step_nil

theorem passable_of_ended (h : Ahead text c w) (ended : (Parser.skip c).rest = []) :
    Passable text := by
  obtain ⟨ts, aligned⟩ := h.skip.aligned
  obtain ⟨before, reached⟩ := aligned.reached
  rw [ended] at reached
  exact ⟨before, _, reached⟩

/-- The grammar gets to the end of a text without other blanks than its own. -/
theorem ended_of_passable (h : Ahead text c []) (passable : Passable text) :
    (Parser.skip c).rest = [] := by
  obtain ⟨ts, aligned⟩ := h.skip.aligned
  obtain ⟨before, reached⟩ := aligned.reached
  obtain ⟨all, last, whole⟩ := passable
  obtain ⟨others, -, scan⟩ := (reached.mono fun _ => isBlank_of_isGrammarBlank).through whole
    (fun _ => isBlank_of_isGrammarBlank) fun _ _ => not_step_nil
  have stuck := h.stuck
  obtain ⟨uncommented, solid⟩ := skip_solid c
  unfold Stuck at stuck
  generalize (Parser.skip c).line = line at scan
  generalize (Parser.skip c).rest = cs at stuck uncommented solid scan ⊢
  cases scan with
  | refl => rfl
  | pass step others =>
    cases step with
    | blank blanks => rw [List.head?_cons, Option.any_some, blanks] at solid; cases solid
    | comment opens => rw [opens] at uncommented; cases uncommented
  | read step others =>
    cases step with
    | token solid' => rw [stuck _ _ rfl] at solid'; cases solid'

end Ahead

/-! ## What is read from the tokens ahead -/

/-- `p` reads one token, as `reads` takes it, and goes on as `next`; where `reads` takes no token it
fails. -/
structure Takes {α β : Type} (text : List Char) (p : Parser β) (reads : Lexeme → Option α)
    (next : α → Parser β) : Prop where
  nothing : ∀ {c}, Ahead text c [] → p c = .fail
  other : ∀ {c l w}, Ahead text c (l :: w) → reads l = none → p c = .fail
  token : ∀ {c l w a}, Ahead text c (l :: w) → reads l = some a →
    ∃ c', Ahead text c' w ∧ p c = next a c'

/-- Takes this token alone. -/
def Lexeme.only (l : Lexeme) : Lexeme → Option Unit := fun l' => if l' = l then some () else none

theorem Lexeme.only_eq_none {l l' : Lexeme} : l.only l' = none ↔ l' ≠ l := by
  simp [Lexeme.only]

theorem Lexeme.only_eq_some {l l' : Lexeme} {u : Unit} : l.only l' = some u ↔ l' = l := by
  simp [Lexeme.only]

section

variable {text : List Char} {α β γ : Type}

theorem Takes.bind {p : Parser β} {reads : Lexeme → Option α} {next : α → Parser β}
    (h : Takes text p reads next) (f : β → Parser γ) :
    Takes text (p >>= f) reads fun a => next a >>= f where
  nothing ahead := bind_of_fail (h.nothing ahead)
  other ahead none := bind_of_fail (h.other ahead none)
  token ahead some := by
    obtain ⟨c', ahead', same⟩ := h.token ahead some
    exact ⟨c', ahead', bind_congr same⟩

/-- A terminal: it reads a token and is done. -/
theorem Takes.then {p : Parser α} {reads : Lexeme → Option α} (h : Takes text p reads pure)
    (f : α → Parser γ) : Takes text (p >>= f) reads f := h.bind f

theorem Takes.of_front {p : Parser α} {reads : Lexeme → Option α}
    (stuck : ∀ {c}, Stuck (Parser.skip c) → p c = .fail)
    (front : ∀ {c l after ts}, Front text (Parser.skip c) l after ts →
      p c = .ofOption after (reads l)) : Takes text p reads pure where
  nothing ahead := stuck ahead.stuck
  other ahead none := by
    obtain ⟨after, ts, front', -⟩ := ahead.front
    rw [front front', none]
    rfl
  token ahead some := by
    obtain ⟨after, ts, front', ahead'⟩ := ahead.front
    refine ⟨after, ahead', ?_⟩
    rw [front front', some]
    rfl

theorem Front.keyword_only {word : String} {c after : Cursor} {l : Lexeme} {ts : List Token}
    (h : Front text (skip c) l after ts) (known : word ∈ keywords) :
    keyword word c = .ofOption after (Lexeme.only (.keyword word) l) := by
  rw [h.keyword_eq known, Lexeme.only]
  split <;> rfl

theorem takes_keyword {word : String} (known : word ∈ keywords) :
    Takes text (keyword word) (Lexeme.only (.keyword word)) pure :=
  .of_front (fun stuck => stuck.keyword_eq known) fun front => front.keyword_only known

theorem takes_name : Takes text name Lexeme.name? pure :=
  .of_front (fun stuck => stuck.name_eq) fun front => front.name_eq

theorem takes_number : Takes text number Lexeme.number? pure :=
  .of_front (fun stuck => stuck.number_eq) fun front => front.number_eq

theorem takes_string : Takes text string Lexeme.string? pure :=
  .of_front (fun stuck => stuck.string_eq) fun front => front.string_eq

/-! ## Symbols -/

/-- A symbol with what comes next, where a symbol that is cut off a token leads nowhere. -/
theorem Takes.symbol {s : String} (known : s ∈ symbols) {f : Unit → Parser α}
    (uncut : ∀ {c l after ts}, Steady text → Front text c l after ts → Cut c.rest s →
      f () (c.advance s.length) = .fail) :
    Takes text (Parser.symbol s >>= f) (Lexeme.only (.symbol s)) f where
  nothing ahead := bind_of_fail (ahead.stuck.symbol_eq known)
  other {c l w} ahead none := by
    obtain ⟨after, ts, front, -⟩ := ahead.front
    cases starts : startsWith s (Parser.skip c).rest with
    | false =>
      refine bind_of_fail ?_
      simp only [Parser.symbol, starts, Bool.false_eq_true, if_false]
    | true =>
      have read : Parser.symbol s c = .ok () ((Parser.skip c).advance s.length) := by
        simp only [Parser.symbol, starts, if_true]
      rw [bind_of_ok read]
      rcases front.symbol_or_cut known starts with ⟨rfl, -⟩ | cut
      · exact absurd rfl (Lexeme.only_eq_none.mp none)
      · exact uncut ahead.steady front cut
  token ahead some := by
    obtain rfl := Lexeme.only_eq_some.mp some
    obtain ⟨after, ts, front, ahead'⟩ := ahead.front
    exact ⟨after, ahead', bind_of_ok front.symbol_eq⟩

theorem takes_symbol {s : String} (whole : Whole s) :
    Takes text (symbol s) (Lexeme.only (.symbol s)) pure := by
  obtain ⟨known, uncut⟩ := whole.not_cut
  have h : Takes text (symbol s >>= pure) (Lexeme.only (.symbol s)) pure :=
    .symbol known fun _ _ cut => absurd cut uncut
  rwa [Parser.bind_pure] at h

theorem Grammar.Refuses.of_cut_equals {p : Parser α} (refuses : Grammar.Refuses p) {c : Cursor}
    (cut : Cut c.rest "=") : p (c.advance "=".length) = .fail := by
  obtain ⟨barren, unquoted⟩ := barren_of_cut_equals cut
  exact refuses _ barren unquoted

/-- In a steady text no string starts at the second bracket of a long string. -/
theorem Grammar.Refuses.of_cut_bracket {p : Parser α} (refuses : Grammar.Refuses p)
    (steady : Steady text) {c after : Cursor} {l : Lexeme} {ts : List Token}
    (front : Front text c l after ts) (cut : Cut c.rest "[") :
    p (c.advance "[".length) = .fail := by
  obtain ⟨depth, opens⟩ := bracketLevel?_of_cut cut
  obtain ⟨barren, unquoted | ⟨level, inner, n, rfl, reopens, inside, -⟩⟩ :=
    barren_of_bracketLevel? opens
  · exact refuses _ barren unquoted
  · obtain ⟨before, reached⟩ := front.here.reached
    refine absurd ⟨opens, level, _, reopens, inside⟩ (steady before _ _
      (reached.mono fun _ => isBlank_of_isGrammarBlank))

theorem takes_equals {f : Unit → Parser α} (refuses : Grammar.Refuses (f ())) :
    Takes text (symbol "=" >>= f) (Lexeme.only (.symbol "=")) f :=
  .symbol (by decide) fun _ _ cut => refuses.of_cut_equals cut

theorem takes_point {f : Unit → Parser α}
    (refuses : ∀ {c}, Parser.name c = .fail → f () c = .fail) :
    Takes text (symbol "." >>= f) (Lexeme.only (.symbol ".")) f :=
  .symbol (by decide) fun _ _ cut => refuses (name_fail_of_cut_point cut)

theorem takes_bracket {f : Unit → Parser α} (refuses : Grammar.Refuses (f ())) :
    Takes text (symbol "[" >>= f) (Lexeme.only (.symbol "[")) f :=
  .symbol (by decide) fun steady front cut => refuses.of_cut_bracket steady front cut

theorem takes_operatorOf {ops : List BinaryOp} (guarded : Grammar.Guarded ops) :
    Takes text (Grammar.operatorOf ops) (fun l => ops.find? (l = .symbol ·.symbol)) pure :=
  .of_front (fun stuck => stuck.operatorOf_eq guarded) fun front => front.operatorOf_eq guarded

end

end MiniLua

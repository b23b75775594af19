import MiniLua.Proofs.Token.LineEnds
import MiniLua.Proofs.Token.Scan

/-!
# Texts that differ between their tokens

Two texts are in lockstep if they spell the same tokens on the same lines with other blanks and
comments between. Texts in lockstep give the same tokens; they stay in lockstep when their line ends
are joined. Replacing a run of blanks by another with as many line feeds gives a text in lockstep
with the first.
-/

namespace MiniLua

open MiniLua.Text MiniLua.Spelling MiniLua.Parser MiniLua.Lexer

theorem Reopens.joinCrLf_iff {cs : List Char} : Reopens (joinCrLf cs) ↔ Reopens cs := by
  unfold Reopens
  rw [bracketLevel?_joinCrLf]
  refine and_congr_right fun opens => ?_
  obtain ⟨rest, rfl⟩ := bracketLevel?_prefix opens
  have drop : (joinCrLf (opener 0 ++ rest)).drop 1 = joinCrLf ((opener 0 ++ rest).drop 1) := by
    rw [joinCrLf_opener]
    change '[' :: joinCrLf rest = joinCrLf ('[' :: rest)
    rw [joinCrLf_cons (by simp)]
  rw [drop, bracketLevel?_joinCrLf]
  refine exists_congr fun level => ?_
  constructor
  · rintro ⟨closed, reopens, inside⟩
    rw [longBracket?_joinCrLf reopens, Option.map_eq_some_iff] at inside
    obtain ⟨closed, inside, -⟩ := inside
    exact ⟨closed, reopens, inside⟩
  · rintro ⟨closed, reopens, inside⟩
    exact ⟨_, reopens, by rw [longBracket?_joinCrLf reopens, inside]; rfl⟩

theorem not_reopens_of_pass {cs : List Char} {n : Nat} (h : Step isBlank cs none n) :
    ¬ Reopens cs := by
  rintro ⟨opens, -⟩
  obtain ⟨rest, rfl⟩ := bracketLevel?_prefix opens
  cases h with
  | blank blanks => exact absurd blanks (by decide)
  | comment dashes => cases dashes

/-! ## Steps finished joined line ends -/

theorem count_of_drop_eq {s s' : List Char} {m n : Nat} (whole : s'.count '\n' = s.count '\n')
    (rest : (s'.drop m).count '\n' = (s.drop n).count '\n') :
    (s'.take m).count '\n' = (s.take n).count '\n' := by
  have split : ∀ (cs : List Char) k, cs.count '\n' =
      (cs.take k).count '\n' + (cs.drop k).count '\n' := by
    intro cs k
    rw [← List.count_append, List.take_append_drop]
  have := split s n
  have := split s' m
  omega

/-- A token stays one token, whatever follows, with another content at most. -/
theorem Lexer.Step.joinCrLf {read s : List Char} {lexeme : Lexeme}
    (h : Step isBlank (read ++ s) (some lexeme) read.length) :
    ∃ lexeme', ∀ rest, Step isBlank (read ++ rest) (some lexeme) read.length →
      Step isBlank (Text.joinCrLf (read ++ rest)) (some lexeme') (Text.joinCrLf read).length ∧
        Text.joinCrLf (read ++ rest) = Text.joinCrLf read ++ Text.joinCrLf rest := by
  have rule : ∀ {cs}, Step isBlank cs (some lexeme) read.length →
      Rule cs lexeme read.length := by
    intro cs step
    cases step with
    | token solid uncommented read => exact rule_of_readToken read
  obtain ⟨lexeme', joined⟩ := (rule h).joinCrLf
  refine ⟨lexeme', fun rest step => ?_⟩
  obtain ⟨rule', split⟩ := joined rest (rule step)
  refine ⟨?_, split⟩
  generalize read ++ rest = cs at step rule'
  cases step with
  | @token c cs _ _ solid uncommented read =>
    have head : Text.joinCrLf (c :: cs) = c :: Text.joinCrLf cs := by
      refine joinCrLf_cons ?_
      rintro ⟨rfl, -⟩
      exact absurd solid (by decide)
    have uncommented' := (opensComment_joinCrLf (c :: cs)).trans uncommented
    rw [head] at rule' uncommented' ⊢
    exact .token solid uncommented' (readToken_eq_ok_iff.mpr rule')

/-- A blank or a comment is passed in one step, unless it is taken in by the line feed behind it. -/
theorem Lexer.Step.pass_joinCrLf {blank : Char → Bool} {s : List Char} {n : Nat}
    (step : Step blank s none n) :
    (Text.joinCrLf s = Text.joinCrLf (s.drop n) ∧ (s.take n).count '\n' = 0) ∨
      ∃ m, Step blank (Text.joinCrLf s) none m ∧
        (Text.joinCrLf s).drop m = Text.joinCrLf (s.drop n) ∧
        ((Text.joinCrLf s).take m).count '\n' = (s.take n).count '\n' := by
  cases step with
  | @blank c cs blanks =>
    by_cases cut : c = '\r' ∧ cs.head? = some '\n'
    · obtain ⟨rfl, head⟩ := cut
      obtain ⟨rest, rfl⟩ := List.head?_eq_some_iff.mp head
      refine .inl ⟨?_, rfl⟩
      rw [joinCrLf_crLf, List.drop_one, List.tail_cons, joinCrLf_cons (by simp)]
    · rw [joinCrLf_cons cut]
      exact .inr ⟨1, .blank blanks, rfl, rfl⟩
  | comment opens length =>
    obtain ⟨m, length', rest⟩ := commentLength_joinCrLf opens length
    refine .inr ⟨m, .comment ((opensComment_joinCrLf s).trans opens) length', rest, ?_⟩
    exact count_of_drop_eq (count_joinCrLf s) (by rw [rest, count_joinCrLf])

/-- The tokenizer gets to the same places when the line ends are joined. -/
theorem Lexer.Scans.joinCrLf {s rest : List Char} {line last : Nat} {ts : List Token}
    (h : Scans isBlank line s ts last rest) :
    ∃ ts', Scans isBlank line (Text.joinCrLf s) ts' last (Text.joinCrLf rest) := by
  induction h with
  | refl => exact ⟨[], .refl⟩
  | @pass line last n s rest ts step others ih =>
    obtain ⟨ts', ih⟩ := ih
    rcases step.pass_joinCrLf with ⟨same, lines⟩ | ⟨m, step', same, lines⟩
    · rw [lines, Nat.add_zero] at ih
      exact ⟨ts', by rwa [same]⟩
    · exact ⟨ts', .pass step' (by rwa [same, lines])⟩
  | @read line last n s rest lexeme ts step others ih =>
    obtain ⟨ts', ih⟩ := ih
    obtain ⟨read, tail, rfl, nonempty, rfl, -⟩ := step.extent
    obtain ⟨lexeme', joined⟩ := step.joinCrLf
    obtain ⟨step', split⟩ := joined tail step
    refine ⟨⟨lexeme', line⟩ :: ts', ?_⟩
    rw [List.take_left, List.drop_left] at ih
    rw [split] at step' ⊢
    refine .read step' ?_
    rw [List.take_left, List.drop_left, count_joinCrLf]
    exact ih

/-- Two texts at their lines spell the same tokens on the same lines. A blank outside `blank` stands
in both. -/
inductive Lockstep (blank : Char → Bool) : Nat → List Char → Nat → List Char → Prop
  | same {line : Nat} {cs : List Char} : Lockstep blank line cs line cs
  | left {line line' n : Nat} {s t : List Char} (step : Step blank s none n)
      (others : Lockstep blank (line + (s.take n).count '\n') (s.drop n) line' t) :
      Lockstep blank line s line' t
  | right {line line' n : Nat} {s t : List Char} (step : Step blank t none n)
      (others : Lockstep blank line s (line' + (t.take n).count '\n') (t.drop n)) :
      Lockstep blank line s line' t
  | both {line line' : Nat} {c : Char} {s t : List Char} (blanks : isBlank c = true)
      (unknown : blank c = false)
      (others : Lockstep blank (line + [c].count '\n') s (line' + [c].count '\n') t) :
      Lockstep blank line (c :: s) line' (c :: t)
  | token {line : Nat} {read s t : List Char} {lexeme : Lexeme}
      (first : Step isBlank (read ++ s) (some lexeme) read.length)
      (second : Step isBlank (read ++ t) (some lexeme) read.length)
      (steady : Reopens (read ++ s) ↔ Reopens (read ++ t))
      (others : Lockstep blank (line + read.count '\n') s (line + read.count '\n') t) :
      Lockstep blank line (read ++ s) line (read ++ t)

namespace Lockstep

variable {blank : Char → Bool} {line line' : Nat} {s t : List Char}

theorem symm (h : Lockstep blank line s line' t) : Lockstep blank line' t line s := by
  induction h with
  | same => exact .same
  | left step others ih => exact .right step ih
  | right step others ih => exact .left step ih
  | both blanks unknown others ih => exact .both blanks unknown ih
  | token first second steady others ih => exact .token second first steady.symm ih

/-- The scans of texts in lockstep give the same tokens. -/
theorem scans {blank' : Char → Bool} (h : Lockstep blank line s line' t)
    (wider : ∀ c, blank c = true → blank' c = true)
    (known : ∀ c, blank' c = true → isBlank c = true) {ts : List Token} {last : Nat}
    (scan : Scans blank' line s ts last []) : Scans blank' line' t ts last [] := by
  have pass : ∀ {cs n}, Step blank cs none n → Step blank' cs none n := by
    intro cs n step
    cases step with
    | blank blanks => exact .blank (wider _ blanks)
    | comment opens length => exact .comment opens length
  induction h generalizing ts with
  | same => exact scan
  | left step others ih => exact ih (scan.of_pass known ((pass step).mono known))
  | right step others ih => exact .pass (pass step) (ih scan)
  | both blanks unknown others ih =>
    have tail := scan.of_pass known (.blank blanks)
    cases scan with
    | pass step' others' =>
      cases step' with
      | blank blanks' => exact .pass (.blank blanks') (ih tail)
      | comment opens => rw [isBlank_of_opensComment opens] at blanks; cases blanks
    | read step' others' => cases (Step.unique (.blank blanks) (step'.mono known)).1
  | token first second steady others ih =>
    obtain ⟨ts', rfl, tail⟩ := scan.of_read known first
    rw [List.take_left, List.drop_left] at tail
    refine .read second.read_congr ?_
    rw [List.take_left, List.drop_left]
    exact ih tail

/-- Where one of two texts in lockstep is steady, the other is. -/
theorem steady (h : Lockstep blank line s line' t)
    (wider : ∀ c, blank c = true → isBlank c = true)
    (steady : ∀ ts last rest, Scans isBlank line s ts last rest → ¬ Reopens rest) :
    ∀ ts last rest, Scans isBlank line' t ts last rest → ¬ Reopens rest := by
  induction h with
  | same => exact steady
  | left step others ih =>
    exact ih fun ts last rest scan => steady ts last rest (.pass (step.mono wider) scan)
  | right step others ih =>
    intro ts last rest scan
    rcases scan.cases_pass (fun _ => id) (step.mono wider) with ⟨-, -, rfl⟩ | tail
    · exact not_reopens_of_pass (step.mono wider)
    · exact ih steady ts last rest tail
  | both blanks unknown others ih =>
    intro ts last rest scan
    rcases scan.cases_pass (fun _ => id) (.blank blanks) with ⟨-, -, rfl⟩ | tail
    · exact not_reopens_of_pass (.blank blanks)
    · exact ih (fun ts last rest scan => steady ts last rest (.pass (.blank blanks) scan))
        ts last rest tail
  | token first second same others ih =>
    intro ts last rest scan
    rcases scan.cases_read (fun _ => id) second with ⟨-, -, rfl⟩ | ⟨ts', rfl, tail⟩
    · exact fun reopens => steady _ _ _ .refl (same.mpr reopens)
    · rw [List.take_left, List.drop_left] at tail
      refine ih (fun ts last rest scan => ?_) ts' last rest tail
      refine steady (⟨_, _⟩ :: ts) last rest (.read first ?_)
      rw [List.take_left, List.drop_left]
      exact scan

theorem tokenize_eq (h : Lockstep blank 1 s 1 t) (wider : ∀ c, blank c = true → isBlank c = true)
    {ts : List Token} (tokens : tokenize s = .ok ts) : tokenize t = .ok ts := by
  obtain ⟨ts', last, scan, rfl⟩ := tokenize_eq_ok.mp tokens
  exact tokenize_eq_ok.mpr ⟨ts', last, h.scans wider (fun _ => id) scan, rfl⟩

/-! ### Line ends -/

theorem left_joinCrLf {n : Nat} {u : List Char} {last : Nat} (step : Step blank s none n)
    (others : Lockstep blank (line + (s.take n).count '\n') (Text.joinCrLf (s.drop n)) last u) :
    Lockstep blank line (Text.joinCrLf s) last u := by
  rcases step.pass_joinCrLf with ⟨same, lines⟩ | ⟨m, step', same, lines⟩
  · rwa [lines, Nat.add_zero, ← same] at others
  · exact .left step' (by rwa [same, lines])

/-- Texts in lockstep stay so when their line ends are joined. -/
theorem joinCrLf (h : Lockstep blank line s line' t) (cr : blank '\r' = true) :
    Lockstep blank line (joinCrLf s) line' (joinCrLf t) := by
  induction h with
  | same => exact .same
  | left step others ih => exact left_joinCrLf step ih
  | right step others ih => exact (left_joinCrLf step ih.symm).symm
  | @both line line' c s t blanks unknown others ih =>
    have other : c ≠ '\r' := by
      rintro rfl
      rw [cr] at unknown
      cases unknown
    rw [joinCrLf_cons fun cut => other cut.1, joinCrLf_cons fun cut => other cut.1]
    exact .both blanks unknown ih
  | @token line read s t lexeme first second steady others ih =>
    obtain ⟨lexeme', joined⟩ := first.joinCrLf
    obtain ⟨first', split⟩ := joined s first
    obtain ⟨second', split'⟩ := joined t second
    have steady' : Reopens (Text.joinCrLf (read ++ s)) ↔ Reopens (Text.joinCrLf (read ++ t)) :=
      Reopens.joinCrLf_iff.trans (steady.trans Reopens.joinCrLf_iff.symm)
    rw [split] at first' steady' ⊢
    rw [split'] at second' steady' ⊢
    refine .token first' second' steady' ?_
    rw [count_joinCrLf]
    exact ih

end Lockstep

/-! ## Runs of blanks -/

section

variable {blank : Char → Bool}

theorem infix_append_cons_iff {w : List Char} {c : Char} (nonempty : w ≠ []) (free : c ∉ w)
    (before after : List Char) : w <:+: before ++ c :: after ↔ w <:+: before ∨ w <:+: after := by
  have uncut : ∀ before, w <+: before ++ c :: after → w <+: before := by
    intro before starts
    rcases List.prefix_or_prefix_of_prefix starts (List.prefix_append before (c :: after)) with
      within | ⟨more, rfl⟩
    · exact within
    · cases more with
      | nil => simp
      | cons d more =>
        obtain ⟨rest, split⟩ := (List.prefix_append_right_inj _).mp starts
        cases split
        exact absurd (by simp) free
  induction before with
  | nil =>
    rw [List.nil_append, List.infix_cons_iff, List.infix_nil]
    have first := uncut []
    rw [List.nil_append, List.prefix_nil] at first
    exact or_congr_left ⟨first, fun none => absurd none nonempty⟩
  | cons d before ih =>
    rw [List.cons_append, List.infix_cons_iff, List.infix_cons_iff, or_assoc]
    exact or_congr ⟨uncut (d :: before),
      fun starts => starts.trans (List.prefix_append (d :: before) _)⟩ ih

theorem infix_append_blanks_iff {w run : List Char} (nonempty : w ≠ [])
    (solid : ∀ c ∈ w, isBlank c = false) (gap : run ≠ []) (blanks : ∀ c ∈ run, isBlank c = true)
    (before after : List Char) :
    w <:+: before ++ (run ++ after) ↔ w <:+: before ∨ w <:+: after := by
  have free : ∀ c ∈ run, c ∉ w := by
    intro c member inner
    have := blanks c member
    rw [solid c inner] at this
    cases this
  induction run generalizing before with
  | nil => exact absurd rfl gap
  | cons c run ih =>
    rw [List.cons_append, infix_append_cons_iff nonempty (free c List.mem_cons_self)]
    by_cases last : run = []
    · rw [last, List.nil_append]
    · have tail := ih last (fun d member => blanks d (List.mem_cons_of_mem _ member)) []
        (fun d member => free d (List.mem_cons_of_mem _ member))
      refine or_congr_right (tail.trans (or_iff_right fun inner => ?_))
      exact nonempty (List.infix_nil.mp inner)

theorem isSome_longBody? {level : Nat} (cs : List Char) :
    (longBody? level cs).isSome = true ↔ closer level <:+: cs := by
  induction cs with
  | nil => simp [longBody?, closer]
  | cons c cs ih =>
    rw [longBody?, List.infix_cons_iff]
    split
    next starts => simp [List.isPrefixOf_iff_prefix.mp starts]
    next starts =>
      rw [Option.isSome_map, ih]
      have : ¬ closer level <+: c :: cs := fun within =>
        starts (List.isPrefixOf_iff_prefix.mpr within)
      simp [this]

theorem solid_closer (level : Nat) : ∀ c ∈ closer level, isBlank c = false := by
  intro c member
  have either : c = ']' ∨ c = '=' := by
    by_contra other
    rw [not_or] at other
    exact not_mem_closer level other.1 other.2 member
  rcases either with rfl | rfl <;> decide

theorem Separates.of_blanks {run : List Char} (nonempty : run ≠ [])
    (blanks : ∀ c ∈ run, isBlank c = true) (after : List Char) : Separates (run ++ after) := by
  obtain ⟨c, run, rfl⟩ := List.exists_cons_of_ne_nil nonempty
  exact .of_isBlank (blanks c List.mem_cons_self)

/-- Whether a long bracket is closed does not depend on what follows its opener, as long as that
neither goes on a token nor adds a closer or takes one away. -/
theorem Reopens.change_tail {before tail tail' : List Char} (nonempty : before ≠ [])
    (apart : Separates tail) (apart' : Separates tail')
    (closers : ∀ level rest, closer level <:+: rest ++ tail → closer level <:+: rest ++ tail')
    (h : Reopens (before ++ tail)) : Reopens (before ++ tail') := by
  have drop : ∀ rest, (before ++ rest).drop 1 = before.drop 1 ++ rest := fun rest =>
    List.drop_append_of_le_length (List.length_pos_iff.mpr nonempty)
  obtain ⟨opens, level, closed, reopens, inside⟩ := h
  rw [drop] at reopens inside
  rw [bracketLevel?_append apart] at opens reopens
  obtain ⟨rest, same⟩ := bracketLevel?_prefix reopens
  have body : ∀ tail, longBracket? level (before.drop 1 ++ tail) =
      (longBody? level (rest ++ tail)).map fun body => (body, body.length + 2 * (level + 2)) := by
    intro tail
    rw [same, List.append_assoc, longBracket?, ← length_opener, List.drop_left]
  have closes : closer level <:+: rest ++ tail := by
    rw [body, Option.map_eq_some_iff] at inside
    obtain ⟨text, inside, -⟩ := inside
    exact (isSome_longBody? _).mp (Option.isSome_of_mem inside)
  obtain ⟨text, found⟩ :=
    Option.isSome_iff_exists.mp ((isSome_longBody? _).mpr (closers level rest closes))
  refine ⟨(bracketLevel?_append apart' _).trans opens, level,
    (text, text.length + 2 * (level + 2)), ?_, ?_⟩
  · rw [drop]
    exact (bracketLevel?_append apart' _).trans reopens
  · rw [drop, body, found]
    rfl

theorem closer_ne_nil (level : Nat) : closer level ≠ [] := by simp [closer]

theorem reopens_append_blanks {before run run' after : List Char} (nonempty : before ≠ [])
    (gap : run ≠ []) (blanks : ∀ c ∈ run, isBlank c = true) (gap' : run' ≠ [])
    (blanks' : ∀ c ∈ run', isBlank c = true) (h : Reopens (before ++ (run ++ after))) :
    Reopens (before ++ (run' ++ after)) := by
  refine h.change_tail nonempty (.of_blanks gap blanks after) (.of_blanks gap' blanks' after)
    fun level rest closes => ?_
  have solid := solid_closer level
  rw [infix_append_blanks_iff (closer_ne_nil level) solid gap blanks] at closes
  exact (infix_append_blanks_iff (closer_ne_nil level) solid gap' blanks' _ _).mpr closes

theorem Lockstep.of_blanks {line line' : Nat} {run s t : List Char}
    (blanks : ∀ c ∈ run, blank c = true)
    (h : Lockstep blank (line + run.count '\n') s line' t) :
    Lockstep blank line (run ++ s) line' t := by
  induction run generalizing line with
  | nil => exact h
  | cons c run ih =>
    refine .left (.blank (blanks c List.mem_cons_self)) (ih ?_ ?_)
    · exact fun d member => blanks d (List.mem_cons_of_mem _ member)
    · rw [← List.singleton_append, List.count_append, ← Nat.add_assoc] at h
      exact h

/-- A comment without a bracket that no line feed ends. -/
structure OpenComment (cs : List Char) : Prop where
  opens : opensComment cs = true
  bracketless : bracketLevel? (cs.drop 2) = none
  unended : '\n' ∉ cs

theorem OpenComment.step {cs tail : List Char} (h : OpenComment cs) (gap : Separates tail) :
    Step blank (cs ++ tail) none (cs.length + (firstLine tail).length) := by
  have bracketless : bracketLevel? ((cs ++ tail).drop 2) = none := by
    rw [drop_two_append h.opens, bracketLevel?_append gap, h.bracketless]
  refine .comment ((opensComment_append gap cs).trans h.opens) ?_
  rw [commentLength_of_bracketless bracketless, firstLine_append_of_not_mem h.unended,
    List.length_append]

/-- What is covered in front of a gap does not depend on what follows, but for a comment that lasts
to the end of its line. -/
theorem Lexer.Step.change_tail {before rest rest' : List Char} {lexeme? : Option Lexeme} {n : Nat}
    (step : Step blank (before ++ rest) lexeme? n) (short : n ≤ before.length)
    (nonempty : before ≠ []) (gap : Separates rest) (gap' : Separates rest') :
    Step blank (before ++ rest') lexeme? n ∨
      (lexeme? = none ∧ n = before.length ∧ firstLine rest = [] ∧ OpenComment before ∧
        Step blank (before ++ rest') none (before.length + (firstLine rest').length)) := by
  generalize whole : before ++ rest = cs at step
  cases step with
  | @blank c cs blanks =>
    obtain ⟨d, before, rfl⟩ := List.exists_cons_of_ne_nil nonempty
    obtain ⟨rfl, -⟩ := List.cons.inj whole
    exact .inl (.blank blanks)
  | comment opens length =>
    subst whole
    rw [opensComment_append gap] at opens
    have opens' := (opensComment_append gap' before).trans opens
    cases level : bracketLevel? (before.drop 2) with
    | some level' =>
      have alone := (commentLength_append_iff gap opens level).mpr ⟨length, short⟩
      exact .inl (.comment opens' ((commentLength_append_iff gap' opens level).mp alone).1)
    | none =>
      have bracketless : ∀ {rest}, Separates rest → bracketLevel? ((before ++ rest).drop 2) = none := by
        intro rest gap
        rw [drop_two_append opens, bracketLevel?_append gap, level]
      rw [commentLength_of_bracketless (bracketless gap)] at length
      cases length
      by_cases ends : '\n' ∈ before
      · have length' := commentLength_of_bracketless (bracketless gap')
        rw [firstLine_append_of_mem ends] at length' ⊢
        exact .inl (.comment opens' length')
      · have comment : OpenComment before := ⟨opens, level, ends⟩
        rw [firstLine_append_of_not_mem ends, List.length_append] at short ⊢
        have finished : firstLine rest = [] := List.length_eq_zero_iff.mp (by omega)
        rw [finished, List.length_nil, Nat.add_zero]
        exact .inr ⟨rfl, rfl, rfl, comment, comment.step gap'⟩
  | @token c cs lexeme n solid uncommented read =>
    obtain ⟨d, before, rfl⟩ := List.exists_cons_of_ne_nil nonempty
    obtain ⟨rfl, rfl⟩ := List.cons.inj whole
    have rule := rule_of_readToken read
    change Rule (d :: before ++ rest) lexeme n at rule
    change opensComment (d :: before ++ rest) = false at uncommented
    have alone := (Rule.append_iff gap nonempty).mpr ⟨rule, short⟩
    rw [opensComment_append gap] at uncommented
    exact .inl (.token solid ((opensComment_append gap' _).trans uncommented)
      (readToken_eq_ok_iff.mpr ((Rule.append_iff gap' nonempty).mp alone).1))

/-- A step before a place that the tokenizer gets to stays before it. -/
theorem Lexer.Step.split_of_scans {before rest : List Char} {lexeme? : Option Lexeme}
    {n line line' : Nat} {ts : List Token} (step : Step isBlank (before ++ rest) lexeme? n)
    (others : Scans isBlank line ((before ++ rest).drop n) ts line' rest) :
    ∃ read after, before = read ++ after ∧ read ≠ [] ∧ n = read.length := by
  obtain ⟨read, tail, same, nonempty, rfl, -⟩ := step.extent
  obtain ⟨inner, covered, -⟩ := others.covers
  rw [same, List.drop_left] at covered
  rw [covered, ← List.append_assoc] at same
  exact ⟨read, inner, List.append_cancel_right same, nonempty, rfl⟩

theorem firstLine_eq_nil {run after : List Char} (h : firstLine (run ++ after) = [])
    (nonempty : run ≠ []) : ∃ run', run = '\n' :: run' := by
  obtain ⟨c, run, rfl⟩ := List.exists_cons_of_ne_nil nonempty
  refine ⟨run, ?_⟩
  by_contra other
  have printed : c ≠ '\n' := fun same => other (by rw [same])
  rw [List.cons_append, firstLine, List.takeWhile_cons_of_pos (by simpa using printed)] at h
  cases h

/-- A blank or comment is known, or it is a blank that is not. -/
theorem Lexer.Step.known_or_exotic {cs : List Char} {n : Nat} (step : Step isBlank cs none n) :
    Step blank cs none n ∨
      ∃ c tail, cs = c :: tail ∧ isBlank c = true ∧ blank c = false ∧ n = 1 := by
  cases step with
  | @blank c cs blanks =>
    cases known : blank c with
    | true => exact .inl (.blank known)
    | false => exact .inr ⟨c, cs, rfl, blanks, known, rfl⟩
  | comment opens length => exact .inl (.comment opens length)

/-- A comment that lasts to the end of its line may take blanks in before the line feed. -/
theorem Lockstep.of_comment {read run run' after : List Char} {line : Nat}
    (blanks : ∀ c ∈ run, blank c = true) (blanks' : ∀ c ∈ run', blank c = true)
    (lines : run.count '\n' = run'.count '\n') (gap : run ≠ [])
    (finished : firstLine (run ++ after) = [])
    (step : Step blank (read ++ (run ++ after)) none read.length)
    (step' : Step blank (read ++ (run' ++ after)) none
      (read.length + (firstLine (run' ++ after)).length)) :
    Lockstep blank line (read ++ (run ++ after)) line (read ++ (run' ++ after)) := by
  have feeds : '\n' ∈ run' := by
    obtain ⟨rest, rfl⟩ := firstLine_eq_nil finished gap
    rw [← List.count_pos_iff, ← lines]
    simp
  have covered : firstLine (run' ++ after) = firstLine run' := firstLine_append_of_mem feeds _
  obtain ⟨rest, split⟩ : ∃ rest, run' = firstLine run' ++ rest :=
    ⟨_, List.takeWhile_append_dropWhile.symm⟩
  have printed : (firstLine run').count '\n' = 0 := by
    refine List.count_eq_zero.mpr fun member => ?_
    simpa using List.mem_takeWhile_imp member
  rw [covered] at step'
  generalize firstLine run' = line' at step' split printed
  subst split
  rw [List.append_assoc, ← List.append_assoc, ← List.length_append] at step'
  rw [List.append_assoc, ← List.append_assoc read line']
  refine .left step (.right step' ?_)
  rw [List.take_left, List.take_left, List.drop_left, List.drop_left, List.count_append, printed,
    Nat.add_zero]
  refine .of_blanks blanks (Lockstep.symm (.of_blanks ?_ ?_))
  · exact fun c member => blanks' c (List.mem_append_right _ member)
  · rw [List.count_append, printed, Nat.zero_add] at lines
    rw [lines]
    exact .same

/-- Replacing a run of blanks by another with as many line feeds gives a text in lockstep. -/
theorem Lockstep.of_respaced {before run run' after : List Char} {line line' : Nat}
    {ts : List Token} (wider : ∀ c, blank c = true → isBlank c = true)
    (gap : run ≠ []) (blanks : ∀ c ∈ run, blank c = true)
    (gap' : run' ≠ []) (blanks' : ∀ c ∈ run', blank c = true)
    (lines : run.count '\n' = run'.count '\n')
    (scan : Scans isBlank line (before ++ (run ++ after)) ts line' (run ++ after)) :
    Lockstep blank line (before ++ (run ++ after)) line (before ++ (run' ++ after)) := by
  have apart := Separates.of_blanks gap (fun c member => wider c (blanks c member)) after
  have apart' := Separates.of_blanks gap' (fun c member => wider c (blanks' c member)) after
  have respaced : ∀ line, Lockstep blank line (run ++ after) line (run' ++ after) := by
    intro line
    refine .of_blanks blanks (Lockstep.symm (.of_blanks blanks' ?_))
    rw [lines]
    exact .same
  generalize whole : before ++ (run ++ after) = cs at scan
  generalize stop : run ++ after = rest at scan
  induction scan generalizing before with
  | @refl line cs =>
    rw [← stop] at whole
    rw [List.append_left_eq_self.mp whole, ← stop]
    exact respaced line
  | @pass line line' n cs rest ts step others ih =>
    subst whole stop
    obtain ⟨read, tail, rfl, nonempty, rfl⟩ := step.split_of_scans others
    rcases step.known_or_exotic with known | ⟨c, cs, same, exotic, unknown, single⟩
    · rcases known.change_tail (by simp) (by simp [nonempty]) apart apart' with
        step' | ⟨-, length, finished, -, step'⟩
      · refine .left known (.right step' ?_)
        rw [List.append_assoc, List.append_assoc, List.take_left, List.take_left, List.drop_left,
          List.drop_left]
        rw [List.append_assoc, List.take_left, List.drop_left] at ih
        exact ih rfl rfl
      · obtain rfl : tail = [] := by simpa using length
        rw [List.append_nil] at known step' ⊢
        exact .of_comment blanks blanks' lines gap finished known step'
    · obtain ⟨d, rfl⟩ := List.length_eq_one_iff.mp single
      obtain rfl : d = c := (List.cons.inj same).1
      refine .both exotic unknown (ih ?_ rfl)
      simp
  | @read line line' n cs rest lexeme ts step others ih =>
    subst whole stop
    obtain ⟨read, tail, rfl, nonempty, rfl⟩ := step.split_of_scans others
    rcases step.change_tail (by simp) (by simp [nonempty]) apart apart' with step' | ⟨none, -⟩
    · have same : Reopens (read ++ tail ++ (run ++ after)) ↔
          Reopens (read ++ tail ++ (run' ++ after)) := by
        have nonempty : read ++ tail ≠ [] := by simp [nonempty]
        have known := fun c member => wider c (blanks c member)
        have known' := fun c member => wider c (blanks' c member)
        exact ⟨reopens_append_blanks nonempty gap known gap' known',
          reopens_append_blanks nonempty gap' known' gap known⟩
      rw [List.append_assoc] at step same ⊢
      rw [List.append_assoc] at step' same ⊢
      refine .token step step' same ?_
      rw [List.append_assoc, List.take_left, List.drop_left] at ih
      exact ih rfl rfl
    · cases none

end

end MiniLua

import MiniLua.Proofs.Reading.Agreement
import MiniLua.Proofs.Token.Lockstep
import MiniLua.Proofs.Twins.Statements

/-!
# Other blanks between the tokens

Which blanks stand between two tokens does not matter to the tokenizer. It does not matter to the
grammar either as long as the grammar knows them.
-/

namespace MiniLua

open MiniLua.Text MiniLua.Spelling MiniLua.Parser MiniLua.Grammar MiniLua.Lexer

variable {α γ : Type} {view : α → γ} {strict : Bool}

/-! ## Whole texts -/

/-- A text that is read to its end has no blanks but those of the grammar, and its parentheses are
balanced. -/
theorem parseAll_ok {text : List Char} {p : Parser α} {a : α} {w : List Lexeme}
    (h : Alike ⟨text, text, []⟩ (w.length + 1) strict view p p)
    (start : Ahead text (Cursor.ofChars text) w) (read : parseAll p text = .ok a) :
    Passable text ∧ Lexeme.Balanced w := by
  obtain ⟨c, read, ended⟩ := parseAll_eq_ok read
  have twins : Twins ⟨text, text, []⟩ (Cursor.ofChars text) (Cursor.ofChars text) w :=
    ⟨start, by rwa [List.append_nil], .inl rfl⟩
  have agree := h _ _ w (Nat.lt_succ_self _) twins
  rw [read] at agree
  cases agree with
  | ok same split balanced moved twins' =>
    obtain rfl := twins'.left.eq_nil_of_ended ended
    rw [List.append_nil] at split
    exact ⟨twins'.left.passable_of_ended ended, split ▸ balanced⟩

theorem isEmpty_skip {text : List Char} {c : Cursor} {w : List Lexeme} (h : Ahead text c w)
    (passable : Passable text) : (skip c).rest.isEmpty = w.isEmpty := by
  cases w with
  | nil => rw [h.ended_of_passable passable]; rfl
  | cons l w =>
    by_contra ended
    have ended := List.isEmpty_iff.mp ((Bool.not_eq_false _).mp ended)
    cases h.eq_nil_of_ended ended

theorem parseAll_alike {one two : List Char} {p q : Parser α} {w : List Lexeme}
    (h : Alike ⟨one, two, []⟩ (w.length + 1) strict view p q)
    (left : Ahead one (Cursor.ofChars one) w) (right : Ahead two (Cursor.ofChars two) w)
    (passable : Passable one) (passable' : Passable two) :
    (parseAll p one).toOption.map view = (parseAll q two).toOption.map view := by
  have twins : Twins ⟨one, two, []⟩ (Cursor.ofChars one) (Cursor.ofChars two) w :=
    ⟨left, by rwa [List.append_nil], .inl rfl⟩
  have agree := h _ _ w (Nat.lt_succ_self _) twins
  unfold parseAll
  generalize p (Cursor.ofChars one) = r at agree
  generalize q (Cursor.ofChars two) = r' at agree
  cases agree with
  | @ok a b c d u w' same split balanced moved twins' =>
    have right := twins'.right
    rw [List.append_nil] at right
    simp only [isEmpty_skip twins'.left passable, isEmpty_skip right passable']
    cases w' with
    | nil => exact congrArg some same
    | cons l w' => rfl
  | fail => rfl
  | stop => rfl

/-- A steady text that is a program has no blanks but those of the grammar. -/
theorem passable_of_parseProgram {text : List Char} {program : Block} (steady : Steady text)
    (read : parseProgram text = .ok program) : Passable text := by
  unfold parseProgram at read
  split at read
  next => cases read
  next ts cut =>
    obtain ⟨w, start⟩ := Ahead.start steady cut
    have enough : w.length + 1 ≤ text.length + 1 := Nat.succ_le_succ start.length_le
    exact (parseAll_ok (alike_unary_block enough enough).2 start read).1

/-- Steady texts with the same tokens are the same program up to lines, if the grammar can pass the
blanks of both, or of neither. -/
theorem parseProgram_alike {one two : List Char} {ts : List Token} (steady : Steady one)
    (steady' : Steady two) (cut : tokenize one = .ok ts) (cut' : tokenize two = .ok ts)
    (both : Passable one ↔ Passable two) :
    (parseProgram one).toOption.map Block.erase = (parseProgram two).toOption.map Block.erase := by
  by_cases passable : Passable one
  · have left := Ahead.start_of_passable steady cut passable
    have right := Ahead.start_of_passable steady' cut' (both.mp passable)
    simp only [parseProgram, cut, cut']
    exact parseAll_alike (alike_unary_block (Nat.succ_le_succ left.length_le)
      (Nat.succ_le_succ right.length_le)).2 left right passable (both.mp passable)
  · have none : ∀ {text}, Steady text → ¬ Passable text →
        (parseProgram text).toOption.map Block.erase = none := by
      intro text steady blocked
      cases read : parseProgram text with
      | error fault => rfl
      | ok program => exact absurd (passable_of_parseProgram steady read) blocked
    rw [none steady passable, none steady' fun h => passable (both.mpr h)]

/-- Texts in lockstep are the same program up to lines if one of them is steady. -/
theorem Lockstep.parseProgram_eq {one two : List Char} (step : Lockstep isGrammarBlank 1 one 1 two)
    (steady : Steady one) :
    (parseProgram one).toOption.map Block.erase = (parseProgram two).toOption.map Block.erase := by
  have wider := fun c => isBlank_of_isGrammarBlank (c := c)
  have steady' := step.steady wider steady
  cases cut : tokenize one with
  | ok ts' =>
    refine parseProgram_alike steady steady' cut (step.tokenize_eq wider cut) ⟨?_, ?_⟩
    · rintro ⟨ts, last, scan⟩
      exact ⟨ts, last, step.scans (fun _ => id) wider scan⟩
    · rintro ⟨ts, last, scan⟩
      exact ⟨ts, last, step.symm.scans (fun _ => id) wider scan⟩
  | error fault =>
    cases cut' : tokenize two with
    | ok ts' =>
      rw [step.symm.tokenize_eq wider cut'] at cut
      cases cut
    | error fault' =>
      simp only [parseProgram, cut, cut']
      rfl

/-! ## Runs of blanks -/

theorem Steady.of_not_mem {text : List Char} (h : '[' ∉ text) : Steady text := by
  rintro ts line rest scan ⟨opens, -⟩
  obtain ⟨read, rfl, -⟩ := scan.covers
  obtain ⟨tail, rfl⟩ := head_of_bracketLevel? opens
  exact h (by simp)

/-- A text whose tokenizer steps over a blank that the grammar does not know is not passable. -/
theorem not_passable_of_scans {text tail : List Char} {c : Char} {ts : List Token} {line : Nat}
    (scan : Scans isBlank 1 text ts line (c :: tail)) (blanks : isBlank c = true)
    (unknown : isGrammarBlank c = false) : ¬ Passable text := by
  rintro ⟨all, last, whole⟩
  obtain ⟨others, -, rest⟩ := scan.through whole (fun _ => isBlank_of_isGrammarBlank)
    fun _ _ => not_step_nil
  have stay : ∀ {lexeme? n}, ¬ Step isGrammarBlank (c :: tail) lexeme? n := by
    intro lexeme? n step
    cases step with
    | blank known => rw [unknown] at known; cases known
    | comment opens => rw [isBlank_of_opensComment opens] at blanks; cases blanks
    | token solid => rw [solid] at blanks; cases blanks
  cases rest with
  | pass step others => exact stay step
  | read step others => exact stay step

theorem not_passable_of_blank {before run after : List Char} {ts : List Token} {line : Nat}
    (between : Scans isBlank 1 (before ++ (run ++ after)) ts line (run ++ after))
    (blanks : ∀ c ∈ run, isBlank c = true) {c : Char} (member : c ∈ run)
    (unknown : isGrammarBlank c = false) : ¬ Passable (joinCrLf (before ++ (run ++ after))) := by
  obtain ⟨front, back, rfl⟩ := List.append_of_mem member
  have passed : Scans isBlank line (front ++ (c :: (back ++ after))) [] _ (c :: (back ++ after)) :=
    .of_blanks fun d inner => blanks d (List.mem_append_left _ inner)
  rw [List.append_assoc, List.cons_append] at between
  obtain ⟨ts', joined⟩ := (between.trans passed).joinCrLf
  have head : joinCrLf (c :: (back ++ after)) = c :: joinCrLf (back ++ after) := by
    refine joinCrLf_cons ?_
    rintro ⟨rfl, -⟩
    exact absurd unknown (by decide)
  rw [head] at joined
  rw [List.append_assoc, List.cons_append]
  exact not_passable_of_scans joined (blanks c member) unknown

/-- Replacing a run of blanks between tokens by another with as many line feeds leaves the tokens as
they are. In a steady program the tree stays as well, or there is none for both texts, if the
grammar knows all the blanks; a text with another blank in the run is no program. -/
theorem parseProgram_respaced {source source' : String} {before run run' after : List Char}
    {ts seen : List Token} {line : Nat} (whole : source.toList = before ++ (run ++ after))
    (whole' : source'.toList = before ++ (run' ++ after))
    (tokens : tokenize source.toList = .ok ts)
    (between : Scans isBlank 1 source.toList seen line (run ++ after))
    (gap : run ≠ []) (blanks : ∀ c ∈ run, isBlank c = true)
    (gap' : run' ≠ []) (blanks' : ∀ c ∈ run', isBlank c = true)
    (lines : run.count '\n' = run'.count '\n') :
    tokenize source'.toList = .ok ts ∧ (Steady (programText source) →
      ((∀ c ∈ run, isGrammarBlank c = true) → (∀ c ∈ run', isGrammarBlank c = true) →
        (parseProgram (programText source)).toOption.map Block.erase =
          (parseProgram (programText source')).toOption.map Block.erase) ∧
      ((∃ c ∈ run, isGrammarBlank c = false) →
        (parseProgram (programText source)).toOption = none)) := by
  rw [whole] at tokens between
  have spaced := Lockstep.of_respaced (fun _ => id) gap blanks gap' blanks' lines between
  refine ⟨whole' ▸ spaced.tokenize_eq (fun _ => id) tokens, fun steady => ⟨?_, ?_⟩⟩
  · intro known known'
    have step : Lockstep isGrammarBlank 1 (programText source) 1 (programText source') := by
      rw [programText, programText, whole, whole']
      exact (Lockstep.of_respaced (fun _ => isBlank_of_isGrammarBlank) gap known gap' known' lines
        between).joinCrLf rfl
    exact step.parseProgram_eq steady
  · rintro ⟨c, member, unknown⟩
    cases read : parseProgram (programText source) with
    | error fault => rfl
    | ok program =>
      have passable := passable_of_parseProgram steady read
      rw [programText, whole] at passable
      exact absurd passable (not_passable_of_blank between blanks member unknown)

/-- `f ()` with a tab is the same program; with a no-break space it has the same tokens but is no
program. -/
theorem parseProgram_spacedCall :
    tokenize "f\t()".toList = tokenize "f ()".toList ∧
      (parseProgram (programText "f ()")).toOption.map Block.erase =
        (parseProgram (programText "f\t()")).toOption.map Block.erase ∧
      tokenize "f ()".toList = tokenize "f\u00a0()".toList ∧
      (parseProgram (programText "f\u00a0()")).toOption = none := by
  have alone {P : Char → Prop} {c : Char} : P c → ∀ d ∈ [c], P d := List.forall_mem_singleton.mpr
  let call : List Token := [⟨.name "f", 1⟩, ⟨.symbol "(", 1⟩, ⟨.symbol ")", 1⟩, ⟨.endOfText, 1⟩]
  have tokens : tokenize ['f', ' ', '(', ')'] = .ok call := by decide +kernel
  have tokens' : tokenize ['f', '\u00a0', '(', ')'] = .ok call := by decide +kernel
  have scan : ∀ c, readToken 'f' ['f', c, '(', ')'] = .ok (.name "f", 1) →
      Scans isBlank 1 ['f', c, '(', ')'] [⟨.name "f", 1⟩] 1 [c, '(', ')'] :=
    fun c read => .read (.token (by decide) (by rfl) read) .refl
  have space : "f ()".toList = ['f'] ++ ([' '] ++ ['(', ')']) := rfl
  have tab : "f\t()".toList = ['f'] ++ (['\t'] ++ ['(', ')']) := rfl
  have exotic : "f\u00a0()".toList = ['f'] ++ (['\u00a0'] ++ ['(', ')']) := rfl
  obtain ⟨same, parsed⟩ := parseProgram_respaced space tab tokens
    (scan ' ' rfl) (by decide) (alone (by decide)) (by decide) (alone (by decide)) rfl
  obtain ⟨same', refused⟩ := parseProgram_respaced exotic space tokens'
    (scan '\u00a0' rfl) (by decide) (alone (by decide)) (by decide) (alone (by decide)) rfl
  refine ⟨same.trans tokens.symm,
    (parsed (.of_not_mem (by decide))).1 (alone (by decide)) (alone (by decide)),
    same'.trans tokens'.symm,
    (refused (.of_not_mem (by decide))).2 ⟨'\u00a0', by decide, by decide⟩⟩

end MiniLua

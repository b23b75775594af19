import MiniLua.Proofs.Token.Tiles
import MiniLua.Proofs.Twins.Respacing

/-!
# Texts without their comments

A comment is white space. With a space in the place of each comment, or line feeds in the place of
one that has some, a text has the same tokens, and it is the same program up to lines or none as
before, as long as no long string is in it.
-/

namespace MiniLua

open MiniLua.Text MiniLua.Spelling MiniLua.Parser MiniLua.Lexer

namespace Tile

/-- A tile as white space if it is a comment: its line feeds, or a space if it has none. -/
def bare : Tile → List Char
  | comment text => if '\n' ∈ text then List.replicate (text.count '\n') '\n' else [' ']
  | tile => tile.chars

/-- The tile is a string in long brackets. -/
def isLongString : Tile → Bool
  | token _ spelling => (bracketLevel? spelling).isSome
  | _ => false

end Tile

/-- A text with white space in the place of its comments. -/
def uncommented (text : List Char) : List Char := (tiles text).flatMap Tile.bare

/-- The text is refused by the grammar, and not for a literal. -/
def ParseFault.syntactic : ParseFault → Bool
  | leftOver _ => true
  | notStatement _ => true
  | noExpression => true
  | _ => false

/-- Either both texts are programs, and the same up to lines, or the grammar refuses both. -/
def AnsweredAlike (one two : List Char) : Prop :=
  (∃ program program', parseProgram one = .ok program ∧ parseProgram two = .ok program' ∧
    program.erase = program'.erase) ∨
  (∃ fault fault', parseProgram one = .error fault ∧ parseProgram two = .error fault' ∧
    fault.syntactic = true ∧ fault'.syntactic = true)

/-! ## Lockstep -/

theorem Tile.bare_comment (text : List Char) : (comment text).bare ≠ [] ∧
    (∀ c ∈ (comment text).bare, isGrammarBlank c = true) ∧
    (comment text).bare.count '\n' = text.count '\n' := by
  rw [bare]
  split
  next feeds =>
    have some := List.count_pos_iff.mpr feeds
    refine ⟨fun none => ?_, fun c member => ?_, List.count_replicate_self⟩
    · rw [List.replicate_eq_nil_iff] at none
      omega
    · rw [List.eq_of_mem_replicate member]
      rfl
  next feedless =>
    refine ⟨List.cons_ne_nil _ _, fun c member => ?_, ?_⟩
    · rw [List.mem_singleton.mp member]
      rfl
    · rw [List.count_eq_zero.mpr feedless]
      rfl

theorem Tile.not_reopens {tile : Tile} {rest : List Char} (stands : tile.Stands rest)
    (plain : tile.isLongString = false) : ¬ Reopens (tile.chars ++ rest) := by
  cases stands with
  | blank blanks => exact not_reopens_of_pass (.blank blanks)
  | comment opens length => exact not_reopens_of_pass (.comment opens length)
  | token step =>
    rintro ⟨opens, -⟩
    have alone := step.splitsOff.1.bracketLevel?_eq_none (by simpa [isLongString] using plain)
    cases alone.symm.trans opens

namespace Tiled

variable {cs : List Char} {row : List Tile} {line : Nat}

/-- A text and the one without its comments begin alike, up to a gap in the second. -/
theorem begins (h : Tiled cs row) : ∃ front back gap, cs = front ++ back ∧
    row.flatMap Tile.bare = front ++ gap ∧ Separates gap := by
  induction h with
  | nil => exact ⟨[], [], [], rfl, rfl, .nil⟩
  | @cons tile rest row stands others ih =>
    cases stands with
    | blank blanks => exact ⟨[], _, _, rfl, rfl, .of_isBlank blanks⟩
    | @comment text =>
      obtain ⟨nonempty, blanks, -⟩ := Tile.bare_comment text
      have blanks := fun c member => isBlank_of_isGrammarBlank (blanks c member)
      exact ⟨[], _, _, rfl, rfl, .of_blanks nonempty blanks _⟩
    | @token lexeme spelling =>
      obtain ⟨front, back, gap, rfl, same, apart⟩ := ih
      refine ⟨spelling ++ front, back, gap, (List.append_assoc ..).symm, ?_, apart⟩
      rw [List.flatMap_cons, same, List.append_assoc]
      rfl

/-- A text without long strings is in lockstep with the one without its comments. -/
theorem lockstep (h : Tiled cs row) (plain : ∀ tile ∈ row, tile.isLongString = false) :
    Lockstep isGrammarBlank line cs line (row.flatMap Tile.bare) := by
  induction h generalizing line with
  | nil => exact .same
  | @cons tile rest row stands others ih =>
    rw [List.forall_mem_cons] at plain
    have ih : ∀ line, Lockstep isGrammarBlank line rest line (row.flatMap Tile.bare) :=
      fun _ => ih plain.2
    rw [List.flatMap_cons]
    cases stands with
    | @blank c rest blanks =>
      cases known : isGrammarBlank c with
      | true => exact .left (.blank known) (.right (.blank known) (ih _))
      | false => exact .both blanks known (ih _)
    | @comment text rest opens length =>
      obtain ⟨-, blanks, lines⟩ := Tile.bare_comment text
      refine .left (.comment opens length) (Lockstep.symm (.of_blanks blanks ?_))
      change Lockstep isGrammarBlank _ _ (line + ((text ++ rest).take text.length).count '\n')
        ((text ++ rest).drop text.length)
      rw [List.take_left, List.drop_left, lines]
      exact (ih _).symm
    | @token lexeme spelling rest step =>
      -- a scanner may look past the next tokens as well, but not past the next gap
      obtain ⟨front, back, gap, rfl, same, apart⟩ := others.begins
      have step' := step.change_gap apart
      refine .token step ?_ ?_ (ih _)
      · rwa [same]
      · rw [same]
        exact iff_of_false (Tile.not_reopens (.token step) plain.1)
          (Tile.not_reopens (.token step') plain.1)

/-- Wherever a scan of a text without long strings gets to, no long string starts. -/
theorem steady (h : Tiled cs row) (plain : ∀ tile ∈ row, tile.isLongString = false)
    {ts : List Token} {last : Nat} {rest : List Char}
    (scan : Scans isBlank line cs ts last rest) : ¬ Reopens rest := by
  induction h generalizing line ts with
  | nil =>
    obtain ⟨-, -, rfl⟩ := scan.of_nil
    rintro ⟨opens, -⟩
    cases opens
  | @cons tile behind row stands others ih =>
    rw [List.forall_mem_cons] at plain
    have step := stands.step
    cases kind : tile.lexeme? with
    | none =>
      rw [kind] at step
      rcases scan.cases_pass (fun _ => id) step with ⟨-, -, rfl⟩ | tail
      · exact Tile.not_reopens stands plain.1
      · rw [List.drop_left] at tail
        exact ih plain.2 tail
    | some lexeme =>
      rw [kind] at step
      rcases scan.cases_read (fun _ => id) step with ⟨-, -, rfl⟩ | ⟨ts', -, tail⟩
      · exact Tile.not_reopens stands plain.1
      · rw [List.drop_left] at tail
        exact ih plain.2 tail

/-- No long string is in a text without long strings when its line ends are joined. -/
theorem steady_joinCrLf (h : Tiled cs row) (plain : ∀ tile ∈ row, tile.isLongString = false)
    {ts : List Token} {last : Nat} {rest : List Char}
    (scan : Scans isBlank line (joinCrLf cs) ts last rest) : ¬ Reopens rest := by
  induction h generalizing line ts with
  | nil =>
    obtain ⟨-, -, rfl⟩ := scan.of_nil
    rintro ⟨opens, -⟩
    cases opens
  | @cons tile behind row stands others ih =>
    rw [List.forall_mem_cons] at plain
    have here : ¬ Reopens (joinCrLf (tile.chars ++ behind)) := fun reopens =>
      Tile.not_reopens stands plain.1 (Reopens.joinCrLf_iff.mp reopens)
    have step := stands.step
    cases kind : tile.lexeme? with
    | none =>
      rw [kind] at step
      rcases step.pass_joinCrLf with ⟨same, -⟩ | ⟨m, step', same, -⟩
      · rw [same, List.drop_left] at scan
        exact ih plain.2 scan
      · rcases scan.cases_pass (fun _ => id) step' with ⟨-, -, rfl⟩ | tail
        · exact here
        · rw [same, List.drop_left] at tail
          exact ih plain.2 tail
    | some lexeme =>
      rw [kind] at step
      obtain ⟨lexeme', joined⟩ := step.joinCrLf
      obtain ⟨step', split⟩ := joined behind step
      rw [split] at scan step' here
      rcases scan.cases_read (fun _ => id) step' with ⟨-, -, rfl⟩ | ⟨ts', -, tail⟩
      · exact here
      · rw [List.drop_left] at tail
        exact ih plain.2 tail

end Tiled

/-! ## Programs -/

/-- Where the tokenizer and the grammar read the same text alike, what is no program is so for its
syntax alone. -/
theorem syntactic_of_steady {text : List Char} {ts : List Token} {fault : ParseFault}
    (steady : Steady text) (cut : tokenize text = .ok ts)
    (refused : parseProgram text = .error fault) : fault.syntactic = true := by
  obtain ⟨w, start⟩ := Ahead.start steady cut
  have twins : Twins ⟨text, text, []⟩ (Cursor.ofChars text) (Cursor.ofChars text) w :=
    ⟨start, by rwa [List.append_nil], .inl rfl⟩
  have enough : w.length + 1 ≤ text.length + 1 := Nat.succ_le_succ start.length_le
  have agree := (alike_unary_block enough enough).2 _ _ w (Nat.lt_succ_self _) twins
  simp only [parseProgram, cut, Grammar.parseBlock, Grammar.parseAll] at refused
  generalize Grammar.block (text.length + 1) (Cursor.ofChars text) = reply at agree refused
  cases agree with
  | ok =>
    dsimp only at refused
    split at refused
    · cases refused
    · cases refused
      rfl
  | fail =>
    cases refused
    rfl
  | stop =>
    cases refused
    rfl

/-- Texts in lockstep are answered alike if one of them is steady and cut into tokens. -/
theorem Lockstep.answeredAlike {one two : List Char} {ts : List Token}
    (step : Lockstep isGrammarBlank 1 one 1 two) (steady : Steady one)
    (cut : tokenize one = .ok ts) : AnsweredAlike one two := by
  have wider := fun c => isBlank_of_isGrammarBlank (c := c)
  have steady' := step.steady wider steady
  have cut' := step.tokenize_eq wider cut
  have same := step.parseProgram_eq steady
  cases read : parseProgram one with
  | ok program =>
    cases read' : parseProgram two with
    | ok program' =>
      rw [read, read'] at same
      exact .inl ⟨program, program', read, read', Option.some.inj same⟩
    | error fault' =>
      rw [read, read'] at same
      cases same
  | error fault =>
    cases read' : parseProgram two with
    | ok program' =>
      rw [read, read'] at same
      cases same
    | error fault' =>
      exact .inr ⟨fault, fault', read, read', syntactic_of_steady steady cut read,
        syntactic_of_steady steady' cut' read'⟩

/-- With white space in the place of its comments a text without long strings has the same tokens on
the same lines, and it is answered as before: with the same program up to lines, or with none. -/
theorem parseProgram_uncommented {source : String} {ts : List Token}
    (tokens : tokenize source.toList = .ok ts)
    (plain : ∀ tile ∈ tiles source.toList, tile.isLongString = false) :
    let bare := String.ofList (uncommented source.toList)
    tokenize bare.toList = .ok ts ∧ AnsweredAlike (programText source) (programText bare) := by
  intro bare
  have tiled := (tiled_tiles tokens).1
  have step : Lockstep isGrammarBlank 1 source.toList 1 bare.toList := by
    rw [String.toList_ofList]
    exact tiled.lockstep plain
  refine ⟨step.tokenize_eq (fun c => isBlank_of_isGrammarBlank) tokens, ?_⟩
  have joined : Lockstep isGrammarBlank 1 (programText source) 1 (programText bare) :=
    step.joinCrLf rfl
  have steady : Steady (programText source) := fun _ _ _ scan => tiled.steady_joinCrLf plain scan
  obtain ⟨ts', last, scan, -⟩ := tokenize_eq_ok.mp tokens
  obtain ⟨ts'', scan⟩ := scan.joinCrLf
  exact joined.answeredAlike steady (tokenize_eq_ok.mpr ⟨ts'', last, scan, rfl⟩)

/-- A comment over two lines before a call's argument, and one at the end of the text. -/
theorem parseProgram_uncommentedCall :
    let source := "f--[[(\n]]'x'--)"
    let bare := String.ofList (uncommented source.toList)
    bare = "f\n'x' " ∧
      tokenize bare.toList = .ok [⟨.name "f", 1⟩, ⟨.string "x", 2⟩, ⟨.endOfText, 2⟩] ∧
      AnsweredAlike (programText source) (programText bare) :=
  ⟨by decide +kernel, parseProgram_uncommented (by decide +kernel) (by decide +kernel)⟩

end MiniLua

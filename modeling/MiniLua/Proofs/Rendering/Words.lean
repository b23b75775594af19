import Mathlib.Data.List.Forall2
import MiniLua.Proofs.Number.Written
import MiniLua.Proofs.Rendering.Spelling

/-!
# Words and gaps

Every token can be written in front of a gap, however its characters would go on without one: two
minus signs with a gap between are no comment, two brackets no long bracket, a point and digits no
numeral. A text of words with gaps between is therefore cut into just these words, each on the line
where it stands.
-/

namespace MiniLua

open MiniLua.Text MiniLua.Spelling MiniLua.Lexer

inductive Quote where
  | double
  | single
  deriving DecidableEq

namespace Quote

def char : Quote → Char
  | double => '"'
  | single => '\''

theorem char_eq (quote : Quote) : quote.char = '"' ∨ quote.char = '\'' := by
  cases quote with
  | double => exact .inl rfl
  | single => exact .inr rfl

end Quote

/-- A token in the characters that a program may have for it. -/
inductive Word where
  | keyword (word : String) (known : word ∈ keywords)
  | name (first : Char) (others : List Char) (starts : isNameStart first = true)
      (goesOn : others.all isNameChar = true)
      (free : String.ofList (first :: others) ∉ keywords)
  | symbol (text : String) (known : text ∈ symbols)
  | numeral (cs : List Char) (written : Number.Numeral.Written cs)
  | string (quote : Quote) (text : String)

namespace Word

def spelling : Word → List Char
  | keyword word _ => word.toList
  | name first others _ _ _ => first :: others
  | symbol text _ => text.toList
  | numeral cs _ => cs
  | string quote text => quote.char :: text.toList.flatMap (escapedIn quote.char) ++ [quote.char]

/-- What a word stands for; a numeral for the number that its text is anywhere. -/
inductive Denotes : Word → Lexeme → Prop
  | keyword {word : String} {known : word ∈ keywords} : Denotes (.keyword word known) (.keyword word)
  | name {first : Char} {others : List Char} {starts : isNameStart first = true}
      {goesOn : others.all isNameChar = true}
      {free : String.ofList (first :: others) ∉ keywords} :
      Denotes (.name first others starts goesOn free) (.name (String.ofList (first :: others)))
  | symbol {text : String} {known : text ∈ symbols} : Denotes (.symbol text known) (.symbol text)
  | numeral {cs : List Char} {written : Number.Numeral.Written cs} {value : Float}
      (parsed : Number.parse? cs = .ok (some value)) : Denotes (.numeral cs written) (.number value)
  | string {quote : Quote} {text : String} : Denotes (.string quote text) (.string text)

theorem exists_denotes (w : Word) : ∃ l, w.Denotes l := by
  cases w with
  | keyword word known => exact ⟨_, .keyword⟩
  | name first others starts goesOn free => exact ⟨_, .name⟩
  | symbol text known => exact ⟨_, .symbol⟩
  | numeral cs written =>
    obtain ⟨value, parsed⟩ := written.parse?
    exact ⟨_, .numeral parsed⟩
  | string quote text => exact ⟨_, .string⟩

theorem exists_denotes_all (ws : List Word) : ∃ ls, List.Forall₂ Denotes ws ls := by
  induction ws with
  | nil => exact ⟨[], .nil⟩
  | cons w ws ih =>
    obtain ⟨l, first⟩ := w.exists_denotes
    obtain ⟨ls, others⟩ := ih
    exact ⟨l :: ls, .cons first others⟩

variable {w : Word} {l : Lexeme} {tail : List Char}

theorem step_string (quote : Quote) (text : String) :
    Step isBlank ((string quote text).spelling ++ tail) (some (.string text))
      (string quote text).spelling.length := by
  have quoted := quote.char_eq
  have body := shortBody?_escapedIn quoted text.toList tail
  have rule : Rule _ _ _ := .short rfl quoted body (decodeEscapes_escapedIn quoted text.toList)
  have solid : isBlank quote.char = false := by cases quote <;> decide
  have uncommented : opensComment (quote.char ::
      (text.toList.flatMap (escapedIn quote.char) ++ quote.char :: tail)) = false := by
    cases quote <;> rfl
  have step : Step isBlank _ _ _ := .token solid uncommented (readToken_eq_ok_iff.mpr rule)
  simpa [spelling] using step

/-- In front of a gap a word is read as what it stands for, to its last character. -/
theorem Denotes.step (h : w.Denotes l) (gap : Separates tail) :
    Step isBlank (w.spelling ++ tail) (some l) w.spelling.length := by
  cases h with
  | @keyword word known => exact (Spells.keyword known).step gap
  | @name first others starts goesOn free =>
    have whole : nameChars (first :: others) = first :: others := by
      rw [nameChars, if_pos starts, List.takeWhile_eq_self_iff.mpr (List.all_eq_true.mp goesOn)]
    have spells : Spells (.name (String.ofList (first :: others))) _ :=
      .name (by rwa [String.toList_ofList]) (by simp) free
    rw [String.toList_ofList] at spells
    exact spells.step gap
  | @symbol text known => exact (Spells.symbol known).step gap
  | @numeral cs written value parsed =>
    obtain ⟨numeral, spelled, -⟩ := written.spelled
    have bare := Text.trim_eq_self spelled.isBlank_eq_false
    exact (Spells.number parsed bare spelled.unsigned).step gap
  | @string quote text => exact step_string quote text

end Word

/-- A word with the blanks behind it. -/
structure Piece where
  word : Word
  gap : List Char
  blank : gap.all isBlank = true

namespace Piece

def chars (p : Piece) : List Char := p.word.spelling ++ p.gap

def joined (pieces : List Piece) : List Char := pieces.flatMap chars

/-- No two words touch. -/
def Apart (pieces : List Piece) : Prop := ∀ p ∈ pieces.dropLast, p.gap ≠ []

theorem Apart.tail {p : Piece} {pieces : List Piece} (h : Apart (p :: pieces)) : Apart pieces := by
  cases pieces with
  | nil => exact fun r member => absurd member List.not_mem_nil
  | cons q pieces => exact fun r member => h r (List.mem_cons_of_mem p member)

theorem blanks (p : Piece) : ∀ c ∈ p.gap, isBlank c = true := List.all_eq_true.mp p.blank

theorem separates {p : Piece} {pieces : List Piece} (apart : Apart (p :: pieces)) :
    Separates (p.gap ++ joined pieces) := by
  cases pieces with
  | nil =>
    cases same : p.gap with
    | nil => exact .nil
    | cons c gap => exact .of_isBlank (p.blanks c (by rw [same]; exact List.mem_cons_self))
  | cons q pieces =>
    have some : p.gap ≠ [] := apart p (by simp)
    obtain ⟨c, gap, same⟩ := List.exists_cons_of_ne_nil some
    rw [same]
    exact .of_isBlank (p.blanks c (by rw [same]; exact List.mem_cons_self))

theorem count_joined_cons (p : Piece) (pieces : List Piece) (line : Nat) :
    line + (joined (p :: pieces)).count '\n' =
      line + p.word.spelling.count '\n' + p.gap.count '\n' + (joined pieces).count '\n' := by
  rw [joined, List.flatMap_cons, chars, List.count_append, List.count_append]
  simp only [joined, Nat.add_assoc]

/-- Each word is a token on the line that the pieces before it lead to. -/
theorem scans {pieces : List Piece} (apart : Apart pieces) {lexemes : List Lexeme}
    (denoted : List.Forall₂ Word.Denotes (pieces.map word) lexemes) (line : Nat) :
    Scans isBlank line (joined pieces)
      (lexemes.mapIdx fun i l => ⟨l, line + (joined (pieces.take i)).count '\n'⟩)
      (line + (joined pieces).count '\n') [] := by
  induction pieces generalizing lexemes line with
  | nil =>
    cases denoted
    exact .refl
  | cons p pieces ih =>
    rw [List.map_cons] at denoted
    cases denoted with
    | @cons _ l _ lexemes first others =>
      have step := first.step (separates apart)
      have gap : Scans isBlank (line + p.word.spelling.count '\n') (p.gap ++ joined pieces) [] _ _ :=
        .of_blanks p.blanks
      have rest := gap.trans (ih apart.tail others _)
      have text : joined (p :: pieces) = p.word.spelling ++ (p.gap ++ joined pieces) := by
        rw [joined, List.flatMap_cons, chars, List.append_assoc]
        rfl
      rw [List.mapIdx_cons, count_joined_cons, text]
      simp only [List.take_succ_cons, count_joined_cons]
      refine .read step ?_
      rw [List.take_left, List.drop_left]
      exact rest

end Piece

/-- Words with gaps between are cut into what they stand for, followed by the end of the text. The
line of each token is one more than the line feeds in front of it. -/
theorem tokenize_joined (lead : List Char) (pieces : List Piece)
    (blank : lead.all isBlank = true) (apart : Piece.Apart pieces) :
    ∃ lexemes, List.Forall₂ Word.Denotes (pieces.map Piece.word) lexemes ∧
      tokenize (lead ++ Piece.joined pieces) =
        .ok ((lexemes ++ [Lexeme.endOfText]).mapIdx fun i l =>
          ⟨l, 1 + (lead ++ Piece.joined (pieces.take i)).count '\n'⟩) := by
  obtain ⟨lexemes, denoted⟩ := Word.exists_denotes_all (pieces.map Piece.word)
  have length : lexemes.length = pieces.length := by
    rw [← denoted.length_eq, List.length_map]
  have scan := (Scans.of_blanks (List.all_eq_true.mp blank)).trans (Piece.scans apart denoted (1 + lead.count '\n'))
  refine ⟨lexemes, denoted, tokenize_eq_ok.mpr ⟨_, _, scan, ?_⟩⟩
  rw [List.nil_append, List.mapIdx_concat, length, List.take_length]
  simp only [List.count_append, Nat.add_assoc]

/-- What would read otherwise without the gaps: dashes, brackets, points, and quotes in a string. -/
def touchyPieces : List Piece :=
  [⟨.symbol "-" (by decide), [' '], by decide⟩, ⟨.symbol "-" (by decide), ['\n'], by decide⟩,
    ⟨.symbol "[" (by decide), ['\t'], by decide⟩, ⟨.symbol "[" (by decide), [' ', '\n'], by decide⟩,
    ⟨.string .single "--[[\"\\'\n", [' '], by decide⟩, ⟨.symbol "." (by decide), [' '], by decide⟩,
    ⟨.numeral ['0', 'x', 'F', 'f'] (.hex (.inl rfl) (by decide) (by decide) (by decide +kernel)),
      [' '], by decide⟩,
    ⟨.name 'e' ['n', 'd', '1'] (by decide) (by decide) (by decide), [], by decide⟩]

theorem tokenize_touchyPieces :
    Piece.joined touchyPieces = "- -\n[\t[ \n'--[[\"\\\\\\'\\n' . 0xFf end1".toList ∧
    ∃ lexemes, List.Forall₂ Word.Denotes (touchyPieces.map Piece.word) lexemes ∧
      tokenize (Piece.joined touchyPieces) =
        .ok ((lexemes ++ [Lexeme.endOfText]).mapIdx fun i l =>
          ⟨l, 1 + (Piece.joined (touchyPieces.take i)).count '\n'⟩) :=
  ⟨by decide +kernel, tokenize_joined [] touchyPieces rfl (by unfold Piece.Apart; decide +kernel)⟩

end MiniLua

import MiniLua.Proofs.Reading.Ahead
import MiniLua.Proofs.Token.Tiles

/-!
# Tokens with the blanks before them

The blanks right before a token begin behind another token or a comment, perhaps on an earlier line.
A place of the grammar has some tokens still to come. Behind a token or a comment the grammar stands
where blanks may begin; where it has skipped it stands right before the next token.
-/

namespace MiniLua

open MiniLua.Text MiniLua.Spelling MiniLua.Parser MiniLua.Lexer

/-- A token, and the line on which the blanks right before it begin. -/
structure Spaced where
  token : Token
  early : Nat
  deriving DecidableEq

/-- The tokens of a row of tiles that begins on `line`, behind blanks that begin on line `early`. -/
def Tile.spacedFrom (early line : Nat) : List Tile → List Spaced
  | [] => []
  | .blank c :: row => spacedFrom early (line + [c].count '\n') row
  | .comment text :: row => spacedFrom (line + text.count '\n') (line + text.count '\n') row
  | .token lexeme spelling :: row =>
    ⟨⟨lexeme, line⟩, early⟩ ::
      spacedFrom (line + spelling.count '\n') (line + spelling.count '\n') row

/-- The tokens of a text, without the end of the text. -/
def spaced (text : List Char) : List Spaced := Tile.spacedFrom 1 1 (tiles text)

theorem Tile.tokensBehind_eq (row : List Tile) (early : Nat) (before : List Char) :
    tokensBehind before row = (spacedFrom early (1 + before.count '\n') row).map Spaced.token ++
      [⟨.endOfText, 1 + (before ++ row.flatMap chars).count '\n'⟩] := by
  induction row generalizing early before with
  | nil => rw [List.flatMap_nil, List.append_nil]; rfl
  | cons tile row ih =>
    have line : 1 + (before ++ tile.chars).count '\n' =
        1 + before.count '\n' + tile.chars.count '\n' := by
      rw [List.count_append, Nat.add_assoc]
    cases tile with
    | blank c =>
      rw [tokensBehind, ih early, line, List.append_assoc]
      rfl
    | comment text =>
      rw [tokensBehind, ih (1 + before.count '\n' + text.count '\n'), line, List.append_assoc]
      rfl
    | token lexeme spelling =>
      rw [tokensBehind, ih (1 + before.count '\n' + spelling.count '\n'), line, List.append_assoc]
      rfl

/-- The tokens of a text with their lines, and the end of the text. -/
theorem tokenize_spaced {text : List Char} {ts : List Token} (h : tokenize text = .ok ts) :
    ts = (spaced text).map Spaced.token ++ [⟨.endOfText, 1 + text.count '\n'⟩] := by
  obtain ⟨whole, -, rfl⟩ := tokenize_tiles h
  rw [Tile.tokensBehind_eq _ 1, List.nil_append, whole]
  rfl

/-! ## Rows of tiles -/

namespace Tiled

variable {cs rest : List Char} {row : List Tile}

/-- The first tile of a row is the one that stands at the front of the text. -/
theorem of_stands {tile : Tile} (h : Tiled (tile.chars ++ rest) row) (stands : tile.Stands rest) :
    ∃ row', row = tile :: row' ∧ Tiled rest row' := by
  generalize whole : tile.chars ++ rest = cs at h
  cases h with
  | nil => exact absurd (List.append_eq_nil_iff.mp whole).1 stands.nonempty
  | @cons tile' rest' row' stands' others =>
    have front := Tile.front?_of_stands stands
    rw [whole, Tile.front?_of_stands stands'] at front
    cases front
    rw [List.append_cancel_left whole]
    exact ⟨row', rfl, others⟩

end Tiled

/-! ## Places of the grammar -/

/-- The blanks before the place `c` begin on line `early`, and from there the tokens `ps` come. -/
structure Laid (text : List Char) (early : Nat) (c : Cursor) (ps : List Spaced) : Prop where
  steady : Steady text
  aligned : ∃ ts, Aligned text c ts
  row : ∃ row, Tiled c.rest row ∧ ps = Tile.spacedFrom early c.line row

namespace Laid

variable {text : List Char} {early n : Nat} {c after : Cursor} {ps : List Spaced}

theorem start {ts : List Token} (steady : Steady text) (h : tokenize text = .ok ts) :
    Laid text 1 (Cursor.ofChars text) (spaced text) :=
  ⟨steady, ⟨ts, Aligned.start h⟩, tiles text, (tiled_tiles h).1, rfl⟩

theorem finished (h : Laid text early c ps) (ended : c.rest = []) : ps = [] := by
  obtain ⟨row, tiled, rfl⟩ := h.row
  generalize c.rest = cs at tiled ended
  cases tiled with
  | nil => rfl
  | cons stands => exact absurd (List.append_eq_nil_iff.mp ended).1 stands.nonempty

/-- Over a tile that stands at the front of the text. -/
theorem advance (tile : Tile) {rest : List Char} (h : Laid text early c ps)
    (same : c.rest = tile.chars ++ rest) (stands : tile.Stands rest)
    (aligned : ∃ ts, Aligned text (c.advance tile.chars.length) ts) :
    ∃ row, ps = Tile.spacedFrom early c.line (tile :: row) ∧
      ∀ early', Laid text early' (c.advance tile.chars.length)
        (Tile.spacedFrom early' (c.line + tile.chars.count '\n') row) := by
  obtain ⟨row, tiled, rfl⟩ := h.row
  rw [same] at tiled
  obtain ⟨row, rfl, others⟩ := tiled.of_stands stands
  refine ⟨row, rfl, fun early' => ⟨h.steady, aligned, row, ?_, ?_⟩⟩
  · rwa [Cursor.rest_advance_append same]
  · rw [Cursor.line_advance, same, List.take_left]

theorem blank {ch : Char} {cs : List Char} (h : Laid text early c ps) (same : c.rest = ch :: cs)
    (blanks : isGrammarBlank ch = true) : Laid text early (c.advance 1) ps := by
  obtain ⟨ts, aligned⟩ := h.aligned
  obtain ⟨row, rfl, others⟩ := h.advance (.blank ch) same
    (.blank (isBlank_of_isGrammarBlank blanks)) ⟨ts, aligned.pass (same ▸ .blank blanks)⟩
  exact others early

theorem skipBlanks (h : Laid text early c ps) : Laid text early (Parser.skipBlanks c) ps :=
  Aligned.keeps_skipBlanks (P := (Laid text early · ps)) blank h

/-- Behind a comment new blanks may begin. -/
theorem comment (h : Laid text early c ps) (found : comment? c.rest = some n) :
    Laid text (c.advance n).line (c.advance n) ps := by
  obtain ⟨ts, aligned⟩ := h.aligned
  have pass := aligned.comment_step found
  have opens : opensComment c.rest = true := by
    by_contra none
    rw [comment?_eq_none.mpr (by simpa using none)] at found
    cases found
  have known := pass.mono fun _ => isBlank_of_isGrammarBlank
  obtain ⟨-, length⟩ := (step_comment_iff opens).mp known
  obtain ⟨read, rest, same, -, rfl, -⟩ := known.extent
  rw [same] at opens length
  obtain ⟨row, rfl, others⟩ := h.advance (.comment read) same (.comment opens length)
    ⟨ts, aligned.pass pass⟩
  rw [Cursor.line_advance, same, List.take_left]
  exact others _

/-- Over the token at the front of the text. -/
theorem token {lexeme : Lexeme} {ts : List Token} (h : Laid text early c ps)
    (front : Front text c lexeme after ts) :
    ∃ ps', ps = ⟨⟨lexeme, c.line⟩, early⟩ :: ps' ∧ Laid text after.line after ps' := by
  obtain ⟨n, step, rfl⟩ := front.read
  obtain ⟨read, rest, same, -, rfl, -⟩ := step.extent
  rw [same] at step
  obtain ⟨row, rfl, others⟩ := h.advance (.token lexeme read) same (.token step)
    ⟨ts, front.rest⟩
  refine ⟨_, rfl, ?_⟩
  rw [Cursor.line_advance, same, List.take_left]
  exact others _

theorem skipCommentsUpTo (fuel : Nat) (h : Laid text early c ps) :
    Parser.skipCommentsUpTo fuel c = c ∨
      Laid text (Parser.skipCommentsUpTo fuel c).line (Parser.skipCommentsUpTo fuel c) ps := by
  induction fuel generalizing early c with
  | zero => exact .inl rfl
  | succ fuel ih =>
    rw [Parser.skipCommentsUpTo]
    split
    next => exact .inl rfl
    next length found =>
      have behind := h.skipBlanks.comment found
      rcases ih behind with same | later
      · rw [same]
        exact .inr behind
      · exact .inr later

/-- Comments are passed to the end of the last, or there is none. -/
theorem skipComments (h : Laid text early c ps) : Parser.skipComments c = c ∨
    Laid text (Parser.skipComments c).line (Parser.skipComments c) ps := by
  unfold Parser.skipComments
  split
  next => exact .inl rfl
  next => exact h.skipCommentsUpTo _

end Laid

/-! ## Footings -/

/-- Where a place of the grammar is, between the tokens. -/
inductive Footing where
  | anywhere
  /-- Behind a token or a comment, or at the start of the text. -/
  | behind
  /-- Where the next token stands. -/
  | before
  /-- Where the next token stands, on this line. -/
  | on (line : Nat)

def Footing.Fits : Footing → Nat → Cursor → Prop
  | .anywhere, _, _ => True
  | .behind, early, c => early = c.line
  | .before, _, c => skip c = c
  | .on line, _, c => skip c = c ∧ c.line = line

/-- From the place `c` the tokens `ps` come, and the place is such a footing. -/
def Footing.At (f : Footing) (text : List Char) (c : Cursor) (ps : List Spaced) : Prop :=
  ∃ early, Laid text early c ps ∧ f.Fits early c

theorem skipComments_of_skip_eq {c : Cursor} (h : skip c = c) : skipComments c = c := by
  obtain ⟨uncommented, solid⟩ := skip_solid c
  rw [h] at uncommented solid
  refine skipComments_of_uncommented ?_
  rw [skipBlanks, Cursor.skipWhile_of_head solid]
  exact comment?_eq_none.mpr uncommented

namespace Footing.At

variable {text : List Char} {f : Footing} {c after : Cursor} {ps : List Spaced}

theorem loosen (h : f.At text c ps) : Footing.anywhere.At text c ps := by
  obtain ⟨early, laid, -⟩ := h
  exact ⟨early, laid, trivial⟩

theorem skipComments (h : f.At text c ps) : f.At text (Parser.skipComments c) ps := by
  obtain ⟨early, laid, fits⟩ := h
  cases f with
  | anywhere =>
    rcases laid.skipComments with same | later
    · rw [same]
      exact ⟨early, laid, trivial⟩
    · exact ⟨_, later, trivial⟩
  | behind =>
    obtain rfl : early = c.line := fits
    rcases laid.skipComments with same | later
    · rw [same]
      exact ⟨_, laid, rfl⟩
    · exact ⟨_, later, rfl⟩
  | before =>
    rw [skipComments_of_skip_eq fits]
    exact ⟨early, laid, fits⟩
  | on line =>
    rw [skipComments_of_skip_eq fits.1]
    exact ⟨early, laid, fits⟩

/-- The grammar skips to the next token. -/
theorem skip (h : f.At text c ps) :
    (Footing.on (Parser.skip c).line).At text (Parser.skip c) ps := by
  obtain ⟨early, laid, -⟩ := h.loosen.skipComments
  exact ⟨early, laid.skipBlanks, skip_skip c, rfl⟩

/-- Either no token can be read or one stands where the grammar has skipped to. -/
theorem stuck_or_front (h : f.At text c ps) : Stuck (Parser.skip c) ∨
    ∃ lexeme after ts, Front text (Parser.skip c) lexeme after ts := by
  obtain ⟨early, laid, -⟩ := h
  obtain ⟨ts, aligned⟩ := laid.aligned
  rcases aligned.stuck_or_front with stuck | ⟨lexeme, after, ts', front, -⟩
  · exact .inl stuck
  · exact .inr ⟨lexeme, after, ts', front⟩

/-- A token is read where the grammar has skipped to. -/
theorem token {lexeme : Lexeme} {ts : List Token} (h : f.At text c ps)
    (front : Front text (Parser.skip c) lexeme after ts) :
    ∃ p ps', ps = p :: ps' ∧ p.token = ⟨lexeme, (Parser.skip c).line⟩ ∧
      Footing.behind.At text after ps' := by
  obtain ⟨early, laid, -⟩ := h.skip
  obtain ⟨ps', rfl, later⟩ := laid.token front
  exact ⟨_, ps', rfl, rfl, _, later, rfl⟩

/-- Behind a token or a comment, comments passed, the blanks before the next token begin. -/
theorem early_eq {lexeme : Lexeme} {ts : List Token} {p : Spaced} {ps : List Spaced}
    (h : Footing.behind.At text c (p :: ps))
    (front : Front text (Parser.skip c) lexeme after ts) :
    p.early = (Parser.skipComments c).line := by
  obtain ⟨early, laid, rfl⟩ := h.skipComments
  obtain ⟨ps', same, -⟩ := laid.skipBlanks.token front
  rw [(List.cons.inj same).1]

end Footing.At

end MiniLua

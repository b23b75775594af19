import MiniLua.Proofs.Token.Cutting
import MiniLua.Proofs.Token.Scan

/-!
# Tokens as tiles of their text

A text that is cut into tokens is a row of tiles without gap or overlap: blanks, comments, and the
spellings of the tokens in their order. The line of a token is that of its first character.
-/

namespace MiniLua

open MiniLua.Text MiniLua.Spelling MiniLua.Lexer

/-! ## Spellings -/

/-- The characters between the quotes of a short string, and the text they stand for. -/
inductive Inscribed (quote : Char) : List Char → List Char → Prop
  | nil : Inscribed quote [] []
  | plain {c : Char} {body text : List Char} (other : c ≠ quote) (unescaped : c ≠ '\\')
      (printed : c ≠ '\n') (more : Inscribed quote body text) : Inscribed quote (c :: body) (c :: text)
  | escape {letter c : Char} {body text : List Char} (stands : escaped? letter = some c)
      (more : Inscribed quote body text) : Inscribed quote ('\\' :: letter :: body) (c :: text)

/-- The bracket behind the body is the first that closes the level. -/
def ClosedOnce (level : Nat) (body : List Char) : Prop :=
  ¬ closer level <:+: (body ++ closer level).dropLast

/-- The characters of a text that stand for a token. -/
inductive Lexeme.WrittenAs : Lexeme → List Char → Prop
  | keyword {word : String} (known : word ∈ keywords) : WrittenAs (.keyword word) word.toList
  | name {c : Char} {cs : List Char} (start : isNameStart c = true)
      (goesOn : ∀ d ∈ cs, isNameChar d = true) (unknown : String.ofList (c :: cs) ∉ keywords) :
      WrittenAs (.name (String.ofList (c :: cs))) (c :: cs)
  | symbol {s : String} (known : s ∈ symbols) : WrittenAs (.symbol s) s.toList
  | number {cs : List Char} {numeral : Number.Numeral} {value : Float}
      (numerical : Number.Numeral.scan cs = some (numeral, []))
      (nearest : numeral.toFloat = .ok value) : WrittenAs (.number value) cs
  | shortString {quote : Char} {body text : List Char} (quoted : quote = '"' ∨ quote = '\'')
      (inscribed : Inscribed quote body text) :
      WrittenAs (.string (String.ofList text)) (quote :: body ++ [quote])
  | longString {level : Nat} {body : List Char} (closed : ClosedOnce level body) :
      WrittenAs (.string (String.ofList (dropFirstNewline body)))
        (opener level ++ body ++ closer level)

/-- A piece of a text from one place of the tokenizer to the next. -/
inductive Tile where
  | blank (c : Char)
  | comment (text : List Char)
  | token (lexeme : Lexeme) (spelling : List Char)

namespace Tile

def chars : Tile → List Char
  | blank c => [c]
  | comment text => text
  | token _ spelling => spelling

def lexeme? : Tile → Option Lexeme
  | token lexeme _ => some lexeme
  | _ => none

/-- The tile is what it says, in front of what follows. -/
inductive Fits : Tile → List Char → Prop
  | blank {c : Char} {rest : List Char} (blanks : isBlank c = true) : Fits (.blank c) rest
  | lineComment {line rest : List Char} (bracketless : bracketLevel? (line ++ rest) = none)
      (printed : '\n' ∉ line) (ends : rest = [] ∨ rest.head? = some '\n') :
      Fits (.comment ('-' :: '-' :: line)) rest
  | longComment {level : Nat} {body rest : List Char} (closed : ClosedOnce level body) :
      Fits (.comment ('-' :: '-' :: (opener level ++ body ++ closer level))) rest
  | token {lexeme : Lexeme} {spelling rest : List Char} (written : lexeme.WrittenAs spelling)
      (uncommented : opensComment (spelling ++ rest) = false) (whole : Parted spelling rest) :
      Fits (.token lexeme spelling) rest

/-- Every tile of a row has characters and fits the tiles behind it. -/
def AllFit : List Tile → Prop
  | [] => True
  | tile :: row => tile.chars ≠ [] ∧ tile.Fits (row.flatMap chars) ∧ AllFit row

/-- The tokens of a row that stands behind `before`: each is on the line of its first character, and
the last is the end of the text. -/
def tokensBehind (before : List Char) : List Tile → List Token
  | [] => [⟨.endOfText, 1 + before.count '\n'⟩]
  | tile :: row =>
    (tile.lexeme?.map (⟨·, 1 + before.count '\n'⟩)).toList ++
      tokensBehind (before ++ tile.chars) row

/-- The tile at the front of a text, if the tokenizer goes on there. -/
def front? : List Char → Option Tile
  | [] => none
  | c :: cs =>
    if isBlank c then some (blank c)
    else if opensComment (c :: cs) then
      match commentLength (c :: cs) with
      | .error _ => none
      | .ok n => some (comment ((c :: cs).take n))
    else
      match readToken c (c :: cs) with
      | .error _ => none
      | .ok (lexeme, n) => some (token lexeme ((c :: cs).take n))

/-- At most `fuel` tiles from the front of a text on. -/
def rowFrom : Nat → List Char → List Tile
  | 0, _ => []
  | fuel + 1, cs =>
    match front? cs with
    | none => []
    | some tile => tile :: rowFrom fuel (cs.drop tile.chars.length)

end Tile

/-- The tiles of a text, up to its end or to where it is refused. -/
def tiles (text : List Char) : List Tile := Tile.rowFrom text.length text

/-! ## Strings -/

namespace Spelling

variable {cs body text : List Char}

theorem decodeEscapes_cons_plain {c : Char} (plain : c ≠ '\\')
    (h : decodeEscapes (c :: body) = .ok text) :
    ∃ text', decodeEscapes body = .ok text' ∧ text = c :: text' := by
  cases body with
  | nil =>
    rw [decodeEscapes, if_neg plain] at h
    cases h
    exact ⟨[], rfl, rfl⟩
  | cons d body =>
    rw [decodeEscapes, if_neg plain] at h
    cases inner : decodeEscapes (d :: body) with
    | error e => rw [inner] at h; cases h
    | ok text' => rw [inner] at h; cases h; exact ⟨text', rfl, rfl⟩

theorem decodeEscapes_cons_escape {d : Char} (h : decodeEscapes ('\\' :: d :: body) = .ok text) :
    ∃ c text', escaped? d = some c ∧ decodeEscapes body = .ok text' ∧ text = c :: text' := by
  rw [decodeEscapes, if_pos rfl] at h
  cases stands : escaped? d with
  | none => rw [stands] at h; cases h
  | some c =>
    rw [stands] at h
    dsimp only at h
    cases inner : decodeEscapes body with
    | error e => rw [inner] at h; cases h
    | ok text' => rw [inner] at h; cases h; exact ⟨c, text', rfl, rfl, rfl⟩

/-- What stands between two quotes is read character by character and escape by escape. -/
theorem inscribed_of_shortBody? {quote : Char} (inside : shortBody? quote cs = some body)
    (decoded : decodeEscapes body = .ok text) : Inscribed quote body text := by
  fun_induction shortBody? quote cs generalizing body text with
  | case1 => cases inside
  | case2 => cases inside; cases decoded; exact .nil
  | case3 => cases inside
  | case4 => cases inside; cases decoded; exact .nil
  | case5 => cases inside
  | case6 => cases inside
  | case7 d cs printed _ _ ih =>
    obtain ⟨inner, found, rfl⟩ := Option.map_eq_some_iff.mp inside
    obtain ⟨c, text, stands, rest, rfl⟩ := decodeEscapes_cons_escape decoded
    exact .escape stands (ih found rest)
  | case8 c d cs other printed plain ih =>
    obtain ⟨inner, found, rfl⟩ := Option.map_eq_some_iff.mp inside
    obtain ⟨text, rest, rfl⟩ := decodeEscapes_cons_plain plain decoded
    exact .plain other plain printed (ih found rest)

theorem closedOnce_of_longBody? {level : Nat} {rest : List Char}
    (h : longBody? level (body ++ closer level ++ rest) = some body) : ClosedOnce level body := by
  induction body with
  | nil =>
    intro within
    have shorter := within.length_le
    rw [List.nil_append, List.length_dropLast, length_closer] at shorter
    omega
  | cons c body ih =>
    rw [List.cons_append, List.cons_append, longBody?] at h
    split at h
    next => cases h
    next later =>
      obtain ⟨inner, found, same⟩ := Option.map_eq_some_iff.mp h
      obtain ⟨-, rfl⟩ := List.cons.inj same
      have nonempty : inner ++ closer level ≠ [] := by simp [closer]
      rw [ClosedOnce, List.cons_append, List.dropLast_cons_of_ne_nil nonempty, List.infix_cons_iff]
      rintro (starts | within)
      · have whole : c :: (inner ++ closer level).dropLast <+: c :: (inner ++ closer level ++ rest) :=
          (List.prefix_cons_inj c).mpr ((List.dropLast_prefix _).trans (List.prefix_append _ _))
        exact later (List.isPrefixOf_iff_prefix.mpr (starts.trans whole))
      · exact ih found within

end Spelling

/-! ## Single tiles -/

namespace Lexer

theorem SplitsOff.writtenAs {read rest : List Char} {lexeme : Lexeme} (h : SplitsOff read rest lexeme) :
    lexeme.WrittenAs read := by
  cases h with
  | short quoted inside decoded => exact .shortString quoted (inscribed_of_shortBody? inside decoded)
  | long inside => exact .longString (closedOnce_of_longBody? inside)
  | number scanned ends nearest =>
    have alone : Number.Numeral.scan (read ++ []) = some (_, []) :=
      Number.Numeral.scan_cut scanned
    rw [List.append_nil] at alone
    exact .number alone nearest
  | symbol unopened digitless longest => exact .symbol (symbol?_mem longest).1
  | keyword nonempty whole known =>
    have written := Lexeme.WrittenAs.keyword known
    rwa [String.toList_ofList] at written
  | name nonempty whole unknown =>
    obtain ⟨c, tail, rfl, start, goesOn, -⟩ := nameChars_append_eq_iff.mp ⟨whole, nonempty⟩
    exact .name start goesOn unknown

theorem commentLength_split {text rest : List Char} (opens : opensComment (text ++ rest) = true)
    (length : commentLength (text ++ rest) = .ok text.length) :
    (∃ line, text = '-' :: '-' :: line ∧ bracketLevel? (line ++ rest) = none ∧ '\n' ∉ line ∧
      (rest = [] ∨ rest.head? = some '\n')) ∨
    ∃ level body, text = '-' :: '-' :: (opener level ++ body ++ closer level) ∧
      longBody? level (body ++ closer level ++ rest) = some body := by
  obtain ⟨tail, whole⟩ := opensComment_prefix opens
  rw [whole] at length
  cases bracket : bracketLevel? tail with
  | none =>
    have reach : commentLength ('-' :: '-' :: tail) = .ok _ := commentLength_of_bracketless bracket
    rw [reach] at length
    obtain ⟨after, split, printed, ends⟩ := firstLine_prefix tail
    have covered : text ++ rest = firstLine ('-' :: '-' :: tail) ++ after :=
      whole.trans (congrArg ('-' :: '-' :: ·) split)
    obtain ⟨rfl, rfl⟩ := List.append_inj covered (Except.ok.inj length).symm
    exact .inl ⟨firstLine tail, rfl, by rwa [← split], printed, ends⟩
  | some level =>
    have opened : bracketLevel? (('-' :: '-' :: tail).drop 2) = some level := bracket
    obtain ⟨body, m, inside, wide⟩ := (commentLength_eq_ok_iff opened).mp length
    obtain ⟨after, split, width, first⟩ := longBracket?_split bracket inside
    have covered : text ++ rest =
        '-' :: '-' :: (opener level ++ body ++ closer level) ++ after := by
      rw [whole, split]
      rfl
    obtain ⟨rfl, rfl⟩ := List.append_inj covered (by rw [wide, width]; rfl)
    exact .inr ⟨level, body, rfl, first⟩

end Lexer

namespace Tile

variable {tile : Tile} {cs rest : List Char} {row : List Tile} {fuel : Nat}

/-- The tokenizer goes over the tile in one step when it stands in front of `rest`. -/
inductive Stands : Tile → List Char → Prop
  | blank {c : Char} {rest : List Char} (blanks : isBlank c = true) : Stands (.blank c) rest
  | comment {text rest : List Char} (opens : opensComment (text ++ rest) = true)
      (length : commentLength (text ++ rest) = .ok text.length) : Stands (.comment text) rest
  | token {lexeme : Lexeme} {spelling rest : List Char}
      (step : Step isBlank (spelling ++ rest) (some lexeme) spelling.length) :
      Stands (.token lexeme spelling) rest

theorem Stands.step (h : tile.Stands rest) :
    Step isBlank (tile.chars ++ rest) tile.lexeme? tile.chars.length := by
  cases h with
  | blank blanks => exact .blank blanks
  | comment opens length => exact .comment opens length
  | token step => exact step

theorem exists_of_step {lexeme? : Option Lexeme} {n : Nat} (h : Step isBlank cs lexeme? n) :
    ∃ tile rest, cs = chars tile ++ rest ∧ n = tile.chars.length ∧ tile.lexeme? = lexeme? ∧
      tile.Stands rest := by
  obtain ⟨read, rest, rfl, nonempty, rfl, -⟩ := h.extent
  generalize whole : read ++ rest = cs at h
  generalize length : read.length = n at h
  cases h with
  | @blank c tail blanks =>
    obtain ⟨rfl, rfl⟩ := List.append_inj (whole.trans List.singleton_append.symm) length
    exact ⟨.blank c, rest, rfl, rfl, rfl, .blank blanks⟩
  | comment opens reach =>
    subst whole length
    exact ⟨.comment read, rest, rfl, rfl, rfl, .comment opens reach⟩
  | token solid uncommented reads =>
    refine ⟨.token _ read, rest, whole.symm, length.symm, rfl, .token ?_⟩
    rw [whole, length]
    exact .token solid uncommented reads

theorem Stands.nonempty (h : tile.Stands rest) : tile.chars ≠ [] := by
  obtain ⟨read, tail, -, nonempty, length, -⟩ := h.step.extent
  exact List.ne_nil_of_length_pos (length ▸ List.length_pos_iff.mpr nonempty)

theorem Stands.fits (h : tile.Stands rest) : tile.Fits rest := by
  have whole := h.step.extent
  cases h with
  | blank blanks => exact .blank blanks
  | comment opens length =>
    rcases commentLength_split opens length with
      ⟨line, rfl, bracketless, printed, ends⟩ | ⟨level, body, rfl, first⟩
    · exact .lineComment bracketless printed ends
    · exact .longComment (closedOnce_of_longBody? first)
  | @token lexeme spelling rest step =>
    obtain ⟨read, tail, split, -, length, parted⟩ := whole
    obtain ⟨rfl, rfl⟩ := List.append_inj split length
    obtain ⟨reads, uncommented⟩ := step.splitsOff
    exact .token reads.writtenAs uncommented parted

theorem front?_of_stands (h : tile.Stands rest) : front? (tile.chars ++ rest) = some tile := by
  have taken : (tile.chars ++ rest).take tile.chars.length = tile.chars := List.take_left
  cases h with
  | blank blanks => exact if_pos blanks
  | @comment text rest opens length =>
    obtain ⟨tail, whole⟩ := opensComment_prefix opens
    change front? (text ++ rest) = _
    change (text ++ rest).take text.length = text at taken
    rw [whole] at opens length taken ⊢
    rw [front?, if_neg (by decide), if_pos opens, length]
    dsimp only
    rw [taken]
  | @token lexeme spelling rest step =>
    change front? (spelling ++ rest) = _
    change (spelling ++ rest).take spelling.length = spelling at taken
    generalize spelling ++ rest = cs at step taken ⊢
    generalize spelling.length = n at step taken
    cases step with
    | token solid uncommented reads =>
      rw [front?, if_neg (by simp [solid]), if_neg (by simp [uncommented]), reads]
      dsimp only
      rw [taken]

end Tile

/-! ## Rows of tiles -/

/-- The tokenizer goes over a text tile by tile, to its end. -/
inductive Tiled : List Char → List Tile → Prop
  | nil : Tiled [] []
  | cons {tile : Tile} {rest : List Char} {row : List Tile} (stands : tile.Stands rest)
      (others : Tiled rest row) : Tiled (tile.chars ++ rest) (tile :: row)

namespace Tiled

variable {cs : List Char} {row : List Tile} {fuel : Nat}

theorem flatMap_chars (h : Tiled cs row) : row.flatMap Tile.chars = cs := by
  induction h with
  | nil => rfl
  | cons stands others ih => rw [List.flatMap_cons, ih]

theorem allFit (h : Tiled cs row) : Tile.AllFit row := by
  induction h with
  | nil => trivial
  | @cons tile rest row stands others ih =>
    rw [← others.flatMap_chars] at stands
    exact ⟨stands.nonempty, stands.fits, ih⟩

theorem rowFrom_eq (h : Tiled cs row) (enough : cs.length ≤ fuel) :
    Tile.rowFrom fuel cs = row := by
  induction h generalizing fuel with
  | nil => cases fuel <;> rfl
  | @cons tile rest row stands others ih =>
    have some := List.length_pos_iff.mpr stands.nonempty
    rw [List.length_append] at enough
    cases fuel with
    | zero => omega
    | succ fuel =>
      rw [Tile.rowFrom, Tile.front?_of_stands stands]
      dsimp only
      rw [List.drop_left, ih (by omega)]

/-- A scan to the end of a text goes tile by tile. The line at each place is that of the text before
the place, whatever branch of the tokenizer has led there. -/
theorem of_scans {line last : Nat} {ts : List Token} {stop : List Char}
    (scan : Scans isBlank line cs ts last stop) (finished : stop = []) {before : List Char}
    (lines : line = 1 + before.count '\n') :
    ∃ row, Tiled cs row ∧ Tile.tokensBehind before row = ts ++ [⟨.endOfText, last⟩] := by
  have append : ∀ {before : List Char} (read : List Char),
      1 + before.count '\n' + read.count '\n' = 1 + (before ++ read).count '\n' := by
    intro before read
    rw [List.count_append, Nat.add_assoc]
  induction scan generalizing before with
  | refl =>
    subst finished lines
    exact ⟨[], .nil, rfl⟩
  | pass step others ih =>
    obtain ⟨tile, rest, rfl, rfl, lexeme, stands⟩ := Tile.exists_of_step step
    rw [List.take_left, List.drop_left] at ih
    obtain ⟨row, tiled, same⟩ := ih finished (lines ▸ append tile.chars)
    exact ⟨tile :: row, .cons stands tiled, by rw [Tile.tokensBehind, lexeme, same]; rfl⟩
  | read step others ih =>
    obtain ⟨tile, rest, rfl, rfl, lexeme, stands⟩ := Tile.exists_of_step step
    rw [List.take_left, List.drop_left] at ih
    obtain ⟨row, tiled, same⟩ := ih finished (lines ▸ append tile.chars)
    exact ⟨tile :: row, .cons stands tiled, by rw [Tile.tokensBehind, lexeme, same, lines]; rfl⟩

end Tiled

theorem tiled_tiles {text : List Char} {ts : List Token} (h : tokenize text = .ok ts) :
    Tiled text (tiles text) ∧ ts = Tile.tokensBehind [] (tiles text) := by
  obtain ⟨ts', last, scan, rfl⟩ := tokenize_eq_ok.mp h
  have first : 1 = 1 + ([] : List Char).count '\n' := rfl
  obtain ⟨row, tiled, same⟩ := Tiled.of_scans scan rfl first
  have whole : tiles text = row := tiled.rowFrom_eq le_rfl
  rw [whole]
  exact ⟨tiled, same.symm⟩

/-- A text that is cut into tokens is covered by its tiles from left to right. Each of them is a
blank, a comment, or the spelling of a token, and none is empty; the tokens are those of the tiles
in their order, each on the line that its first character is on, and behind them the end of the
text on its last line. -/
theorem tokenize_tiles {text : List Char} {ts : List Token} (h : tokenize text = .ok ts) :
    (tiles text).flatMap Tile.chars = text ∧ Tile.AllFit (tiles text) ∧
      ts = Tile.tokensBehind [] (tiles text) := by
  obtain ⟨tiled, same⟩ := tiled_tiles h
  exact ⟨tiled.flatMap_chars, tiled.allFit, same⟩

/-- A long string and a long comment over several lines, and a comment at the end of the text. -/
theorem tokenize_tiles_spanning :
    let text := "s = [[\n\n]] --[[\n]] .. '\\n' --".toList
    (tiles text).flatMap Tile.chars = text ∧ Tile.AllFit (tiles text) ∧
      [⟨.name "s", 1⟩, ⟨.symbol "=", 1⟩, ⟨.string "\n", 1⟩, ⟨.symbol "..", 4⟩, ⟨.string "\n", 4⟩,
        ⟨.endOfText, 4⟩] = Tile.tokensBehind [] (tiles text) :=
  tokenize_tiles (by decide +kernel)

end MiniLua

import MiniLua.Grammar.Statement
import MiniLua.Proofs.Token.Rule

/-!
# Parsers step by step

What a parser does at one place, when its parts are known to succeed or to fail there. Every
terminal starts with a skip, so a place matters only up to its skip.
-/

namespace MiniLua

open MiniLua.Text MiniLua.Spelling MiniLua.Parser MiniLua.Lexer

/-! ## Moving over a stretch of text -/

namespace Cursor

variable {c : Cursor} {read rest : List Char}

theorem previous_next {ch : Char} (h : c.rest = ch :: rest) : c.next.previous = some ch := by
  unfold next
  split
  next none => simp [none] at h
  next same =>
    rw [same] at h
    cases h
    rfl
  next same =>
    rw [same] at h
    cases h
    rfl

theorem rest_advance_append (h : c.rest = read ++ rest) : (c.advance read.length).rest = rest := by
  rw [rest_advance, h, List.drop_left]

theorem previous_advance (h : c.rest = read ++ rest) (nonempty : read ≠ []) :
    (c.advance read.length).previous = read.getLast? := by
  induction read generalizing c with
  | nil => exact absurd rfl nonempty
  | cons ch read ih =>
    have step : c.next.rest = read ++ rest := by rw [rest_next, h]; rfl
    rw [List.length_cons, advance]
    cases read with
    | nil => exact previous_next h
    | cons d read => rw [ih step (List.cons_ne_nil _ _), List.getLast?_cons_cons]

theorem skipWhile_of_head {p : Char → Bool} (h : c.rest.head?.any p = false) :
    c.skipWhile p = c := by
  unfold skipWhile
  cases same : c.rest with
  | nil => rfl
  | cons ch rest =>
    rw [same] at h
    rw [List.takeWhile_cons_of_neg (by simpa using h)]
    rfl

theorem rest_skipWhile (p : Char → Bool) (c : Cursor) :
    (c.skipWhile p).rest = c.rest.dropWhile p :=
  rest_advance_append (List.takeWhile_append_dropWhile ..).symm

end Cursor

namespace Parser

theorem comment?_of_commentLength {cs : List Char} {n : Nat} (opens : opensComment cs = true)
    (h : commentLength cs = .ok n) : comment? cs = some n := by
  rw [comment?, if_pos opens, h]
  rfl

theorem comment?_pos {cs : List Char} {n : Nat} (h : comment? cs = some n) :
    0 < n ∧ cs ≠ [] := by
  unfold comment? at h
  split at h
  next opens =>
    obtain ⟨tail, rfl⟩ := opensComment_prefix opens
    cases h
    refine ⟨?_, List.cons_ne_nil _ _⟩
    cases length : commentLength ('-' :: '-' :: tail) with
    | error e => simp [firstLine, Except.toOption]
    | ok n =>
      obtain ⟨read, rest, -, nonempty, rfl, -⟩ := commentLength_extent opens length
      exact List.length_pos_iff.mpr nonempty
  next => cases h

theorem comment?_eq_none {cs : List Char} : comment? cs = none ↔ opensComment cs = false := by
  unfold comment?
  split
  next h => simp [h]
  next h => simpa using h

theorem length_rest_skipBlanks (c : Cursor) : (skipBlanks c).rest.length ≤ c.rest.length := by
  rw [skipBlanks, Cursor.skipWhile, Cursor.rest_advance, List.length_drop]
  exact Nat.sub_le _ _

theorem comment?_skipCommentsUpTo (fuel : Nat) (c : Cursor) (enough : c.rest.length ≤ fuel) :
    comment? (skipBlanks (skipCommentsUpTo fuel c)).rest = none := by
  have shorter := length_rest_skipBlanks c
  induction fuel generalizing c with
  | zero =>
    have empty : (skipBlanks c).rest = [] := List.length_eq_zero_iff.mp (by omega)
    rw [skipCommentsUpTo, empty]
    rfl
  | succ fuel ih =>
    cases found : comment? (skipBlanks c).rest with
    | none => simp only [skipCommentsUpTo, found]
    | some length =>
      simp only [skipCommentsUpTo, found]
      obtain ⟨positive, nonempty⟩ := comment?_pos found
      have := List.length_pos_iff.mpr nonempty
      refine ih _ ?_ (length_rest_skipBlanks _)
      rw [Cursor.rest_advance, List.length_drop]
      omega

/-- At the next terminal there is neither a blank nor a comment. -/
theorem skip_solid (c : Cursor) : opensComment (skip c).rest = false ∧
    (skip c).rest.head?.any isGrammarBlank = false := by
  constructor
  · rw [← comment?_eq_none, skip, skipComments]
    split
    next none => exact none
    next => exact comment?_skipCommentsUpTo _ _ le_rfl
  · rw [skip, skipBlanks, Cursor.rest_skipWhile]
    exact any_head?_dropWhile _ _

theorem skipComments_of_uncommented {c : Cursor} (h : comment? (skipBlanks c).rest = none) :
    skipComments c = c := by
  simp only [skipComments, h]

/-- A place with neither a blank nor a comment is not moved. -/
theorem skip_eq_self {c : Cursor} (uncommented : opensComment c.rest = false)
    (solid : c.rest.head?.any isGrammarBlank = false) : skip c = c := by
  have still : skipBlanks c = c := Cursor.skipWhile_of_head solid
  rw [skip, skipComments_of_uncommented, still]
  rw [still]
  exact comment?_eq_none.mpr uncommented

theorem skip_of_head {c : Cursor} {ch : Char} {tail : List Char} (h : c.rest = ch :: tail)
    (solid : isGrammarBlank ch = false) (dash : ch ≠ '-') : skip c = c := by
  refine skip_eq_self ?_ ?_
  · rw [h]
    by_contra opens
    obtain ⟨rest, same⟩ := opensComment_prefix (Bool.not_eq_false _ ▸ opens)
    cases same
    exact dash rfl
  · rw [h, List.head?_cons, Option.any_some, solid]

theorem skip_skip (c : Cursor) : skip (skip c) = skip c :=
  skip_eq_self (skip_solid c).1 (skip_solid c).2

theorem skip_skipComments (c : Cursor) : skip (skipComments c) = skip c := by
  rw [skip, skip, skipComments_of_uncommented]
  rw [comment?_eq_none]
  exact (skip_solid c).1

/-! ## Terminals after a skip -/

variable {α β : Type} {p : Parser α} {c c' : Cursor} {a : α}

theorem keyword_congr {d : Cursor} (same : skip d = skip c) (word : String) :
    keyword word d = keyword word c := by
  rw [keyword, keyword, same]

theorem symbol_congr {d : Cursor} (same : skip d = skip c) (text : String) :
    symbol text d = symbol text c := by
  rw [symbol, symbol, same]

theorem name_congr {d : Cursor} (same : skip d = skip c) : name d = name c := by
  rw [name, name, same]

theorem number_congr {d : Cursor} (same : skip d = skip c) : number d = number c := by
  rw [number, number, same]

/-! ## Sequences and choices -/

theorem bind_of_ok {f : α → Parser β} (h : p c = .ok a c') : (p >>= f) c = f a c' := by
  simp only [bind, h]

theorem bind_of_fail {f : α → Parser β} (h : p c = .fail) : (p >>= f) c = .fail := by
  simp only [bind, h]

theorem bind_of_stop {f : α → Parser β} {why : Stop} (h : p c = .stop why) :
    (p >>= f) c = .stop why := by
  simp only [bind, h]

theorem bind_pure (p : Parser α) : p >>= pure = p := by
  funext c
  cases h : p c with
  | ok a c' => exact bind_of_ok h
  | fail => exact bind_of_fail h
  | stop why => exact bind_of_stop h

theorem bind_congr {q : Parser α} {d : Cursor} (h : p c = q d) {f : α → Parser β} :
    (p >>= f) c = (q >>= f) d := by
  simp only [bind, h]

theorem bind_eq_ok {f : α → Parser β} {b : β} {c'' : Cursor} (h : (p >>= f) c = .ok b c'') :
    ∃ a c', p c = .ok a c' ∧ f a c' = .ok b c'' := by
  cases first : p c with
  | ok a c' => exact ⟨a, c', rfl, (bind_of_ok first).symm.trans h⟩
  | fail => cases (bind_of_fail first).symm.trans h
  | stop why => cases (bind_of_stop first).symm.trans h

theorem exact_bind (f : Cursor → Parser β) (c : Cursor) :
    (exact >>= f) c = f (skip c) (skip c) := rfl

theorem mark_bind (f : Cursor → Parser β) (c : Cursor) :
    (mark >>= f) c = f (skipComments c) (skipComments c) := rfl

theorem seqRight_of_fail {q : Parser β} (h : p c = .fail) : (p *> q) c = .fail :=
  bind_of_fail h

theorem seqRight_of_ok {q : Parser β} (h : p c = .ok a c') : (p *> q) c = q c' :=
  bind_of_ok h

theorem map_of_fail {f : α → β} (h : p c = .fail) : (f <$> p) c = .fail :=
  bind_of_fail h

theorem orElse_of_fail {q : Parser α} (h : p c = .fail) : (p <|> q) c = q c := by
  simp only [HOrElse.hOrElse, OrElse.orElse, h]

theorem orElse_of_ok {q : Parser α} (h : p c = .ok a c') : (p <|> q) c = .ok a c' := by
  simp only [HOrElse.hOrElse, OrElse.orElse, h]

theorem orElse_of_stop {q : Parser α} {why : Stop} (h : p c = .stop why) :
    (p <|> q) c = .stop why := by
  simp only [HOrElse.hOrElse, OrElse.orElse, h]

theorem orElse_fail {q : Parser α} (hp : p c = .fail) (hq : q c = .fail) : (p <|> q) c = .fail :=
  (orElse_of_fail hp).trans hq

theorem orElse_eq_ok {q : Parser α} (h : (p <|> q) c = .ok a c') :
    p c = .ok a c' ∨ q c = .ok a c' := by
  cases first : p c with
  | ok => exact .inl ((orElse_of_ok first).symm.trans h)
  | fail => exact .inr ((orElse_of_fail first).symm.trans h)
  | stop why => cases (orElse_of_stop first).symm.trans h

theorem orElse_congr {q : Parser α} {d : Cursor} (hp : p d = p c) (hq : q d = q c) :
    (p <|> q) d = (p <|> q) c := by
  cases h : p c with
  | ok a c' => rw [orElse_of_ok h, orElse_of_ok (hp.trans h)]
  | fail => rw [orElse_of_fail h, orElse_of_fail (hp.trans h), hq]
  | stop why => rw [orElse_of_stop h, orElse_of_stop (hp.trans h)]

theorem string_congr {d : Cursor} (same : skip d = skip c) : string d = string c :=
  orElse_congr (by rw [shortString, shortString, same]) (by rw [longString, longString, same])

end Parser

end MiniLua

import MiniLua.Proofs.Reading.Ahead

/-!
# Reading what is spelled

What a parser yields for given tokens, one rule for every way to put parsers together.
-/

namespace MiniLua

open MiniLua.Parser

variable {α β γ δ σ : Type}

/-- Where the tokens `w` are ahead `p` reads `v`, as `view` sees it, and leaves the tokens `rest`. -/
def Yields (p : Parser α) (view : α → γ) (v : γ) (w rest : List Lexeme) : Prop :=
  ∀ text c, Ahead text c w → ∃ a c', p c = .ok a c' ∧ view a = v ∧ Ahead text c' rest

/-- Where the tokens `w` are ahead `p` fails. -/
def Rejects (p : Parser α) (w : List Lexeme) : Prop := ∀ text c, Ahead text c w → p c = .fail

/-- Where the tokens `w` are ahead `p` can be read again and again, and then no more. -/
inductive Repeats (p : Parser α) (view : α → γ) : List γ → List Lexeme → List Lexeme → Prop
  | nil {w : List Lexeme} (last : Rejects p w) : Repeats p view [] w w
  | cons {v : γ} {vs : List γ} {w mid rest : List Lexeme} (first : Yields p view v w mid)
      (shorter : mid.length < w.length) (others : Repeats p view vs mid rest) :
      Repeats p view (v :: vs) w rest

variable {p q : Parser α} {view : α → γ} {v : γ} {w mid rest : List Lexeme}

/-! ## Failure -/

namespace Rejects

theorem bind (h : Rejects p w) (f : α → Parser β) : Rejects (p >>= f) w :=
  fun text c ahead => bind_of_fail (h text c ahead)

theorem exact {f : Cursor → Parser α} (h : ∀ x, Rejects (f x) w) :
    Rejects (Parser.exact >>= f) w :=
  fun text _ ahead => h _ text _ ahead.skip

theorem mark {f : Cursor → Parser α} (h : ∀ x, Rejects (f x) w) :
    Rejects (Parser.mark >>= f) w :=
  fun text _ ahead => h _ text _ ahead.skipComments

theorem here {f : Cursor → Parser α} (h : ∀ x, Rejects (f x) w) :
    Rejects (Parser.here >>= f) w :=
  fun text c ahead => h c text c ahead

theorem orElse (h : Rejects p w) (h' : Rejects q w) : Rejects (p <|> q) w :=
  fun text c ahead => orElse_fail (h text c ahead) (h' text c ahead)

theorem map (h : Rejects p w) (f : α → β) : Rejects (f <$> p) w :=
  fun text c ahead => map_of_fail (h text c ahead)

theorem of_takes {p : Parser β} {reads : Lexeme → Option α} {next : α → Parser β}
    (takes : ∀ {text}, Takes text p reads next) (other : ∀ l w', w = l :: w' → reads l = none) :
    Rejects p w := by
  intro text c ahead
  cases w with
  | nil => exact takes.nothing ahead
  | cons l w => exact takes.other ahead (other l w rfl)

end Rejects

/-! ## Success -/

namespace Yields

theorem pure {a : α} (same : view a = v) : Yields (Pure.pure a) view v w w :=
  fun _ c ahead => ⟨a, c, rfl, same, ahead⟩

theorem bind {f : α → Parser β} {view' : β → δ} {v' : δ} (first : Yields p view v w mid)
    (others : ∀ a, view a = v → Yields (f a) view' v' mid rest) :
    Yields (p >>= f) view' v' w rest := by
  intro text c ahead
  obtain ⟨a, c', read, same, ahead'⟩ := first text c ahead
  rw [bind_of_ok read]
  exact others a same text c' ahead'

/-- What comes after the first of two parsers is refused. -/
theorem then_rejects {f : α → Parser β} (first : Yields p view v w mid)
    (others : ∀ a, view a = v → Rejects (f a) mid) : Rejects (p >>= f) w := by
  intro text c ahead
  obtain ⟨a, c', read, same, ahead'⟩ := first text c ahead
  rw [bind_of_ok read]
  exact others a same text c' ahead'

theorem map {f : α → β} {view' : β → δ} {v' : δ} (h : Yields p view v w rest)
    (same : ∀ a, view a = v → view' (f a) = v') : Yields (f <$> p) view' v' w rest :=
  h.bind fun a h => .pure (same a h)

theorem see {view' : α → δ} {v' : δ} (h : Yields p view v w rest)
    (same : ∀ a, view a = v → view' a = v') : Yields p view' v' w rest := by
  intro text c ahead
  obtain ⟨a, c', read, same', ahead'⟩ := h text c ahead
  exact ⟨a, c', read, same a same', ahead'⟩

theorem exact {f : Cursor → Parser α} (h : ∀ x, Yields (f x) view v w rest) :
    Yields (Parser.exact >>= f) view v w rest :=
  fun text _ ahead => h _ text _ ahead.skip

theorem mark {f : Cursor → Parser α} (h : ∀ x, Yields (f x) view v w rest) :
    Yields (Parser.mark >>= f) view v w rest :=
  fun text _ ahead => h _ text _ ahead.skipComments

theorem here {f : Cursor → Parser α} (h : ∀ x, Yields (f x) view v w rest) :
    Yields (Parser.here >>= f) view v w rest :=
  fun text c ahead => h c text c ahead

theorem left (h : Yields p view v w rest) : Yields (p <|> q) view v w rest := by
  intro text c ahead
  obtain ⟨a, c', read, same, ahead'⟩ := h text c ahead
  exact ⟨a, c', orElse_of_ok read, same, ahead'⟩

theorem right (h : Rejects p w) (h' : Yields q view v w rest) :
    Yields (p <|> q) view v w rest := by
  intro text c ahead
  rw [orElse_of_fail (h text c ahead)]
  exact h' text c ahead

theorem opt_some (h : Yields p view v w rest) :
    Yields (Parser.opt p) (Option.map view) (some v) w rest := by
  intro text c ahead
  obtain ⟨a, c', read, same, ahead'⟩ := h text c ahead
  exact ⟨some a, c', by rw [Parser.opt, read], congrArg some same, ahead'⟩

theorem opt_none (h : Rejects p w) : Yields (Parser.opt p) (Option.map view) none w w :=
  fun text c ahead => ⟨none, _, by rw [Parser.opt, h text c ahead], rfl, ahead.skip⟩

/-- A list that may be left out. -/
theorem listed {p : Parser (List α)} {view : List α → γ} (h : Yields p view v w rest) :
    Yields (Parser.opt p) (fun as => view (as.getD [])) v w rest := by
  intro text c ahead
  obtain ⟨as, c', read, same, ahead'⟩ := h text c ahead
  exact ⟨some as, c', by rw [Parser.opt, read], same, ahead'⟩

theorem unlisted {p : Parser (List α)} {view : List α → γ} (h : Rejects p w) :
    Yields (Parser.opt p) (fun as => view (as.getD [])) (view []) w w :=
  fun text c ahead => ⟨none, _, by rw [Parser.opt, h text c ahead], rfl, ahead.skip⟩

/-- Reading a token and going on. -/
theorem of_takes {p : Parser β} {view : β → γ} {reads : Lexeme → Option α} {next : α → Parser β}
    {l : Lexeme} {a : α} (takes : ∀ {text}, Takes text p reads next) (some : reads l = some a)
    (others : Yields (next a) view v w rest) : Yields p view v (l :: w) rest := by
  intro text c ahead
  obtain ⟨c', ahead', same⟩ := takes.token ahead some
  rw [same]
  exact others text c' ahead'

end Yields

/-! ## Repetition -/

theorem Repeats.manyAfter {vs : List γ} (h : Repeats p view vs w rest) {fuel : Nat}
    (enough : w.length ≤ fuel) {text : List Char} {c : Cursor} (ahead : Ahead text c w) :
    ∃ as c', Parser.manyAfter p fuel c = .ok as c' ∧ as.map view = vs ∧ Ahead text c' rest := by
  induction h generalizing fuel c with
  | nil last =>
    refine ⟨[], c, ?_, rfl, ahead⟩
    cases fuel with
    | zero => rfl
    | succ fuel => simp only [Parser.manyAfter, last text _ ahead.skipComments]
  | @cons v vs w mid rest first shorter others ih =>
    obtain ⟨fuel, rfl⟩ := Nat.exists_eq_succ_of_ne_zero (show fuel ≠ 0 by omega)
    obtain ⟨a, c', read, same, ahead'⟩ := first text _ ahead.skipComments
    obtain ⟨as, c'', reads, sames, ahead''⟩ := ih (show mid.length ≤ fuel by omega) ahead'
    refine ⟨a :: as, c'', ?_, by rw [List.map_cons, same, sames], ahead''⟩
    simp only [Parser.manyAfter, read, reads]

theorem Yields.many {vs : List γ} (h : Repeats p view vs w rest) :
    Yields (Parser.many p) (List.map view) vs w rest := by
  intro text c ahead
  cases h with
  | nil last => exact ⟨[], c, by rw [Parser.many, last text c ahead], rfl, ahead⟩
  | cons first shorter others =>
    obtain ⟨a, c', read, same, ahead'⟩ := first text c ahead
    obtain ⟨as, c'', reads, sames, ahead''⟩ := others.manyAfter ahead'.length_le ahead'
    refine ⟨a :: as, c'', ?_, by rw [List.map_cons, same, sames], ahead''⟩
    simp only [Parser.many, read, reads]

/-! ## Terminals -/

section

variable {l : Lexeme} {s word : String}

theorem yields_keyword (known : word ∈ keywords) :
    Yields (keyword word) id () (.keyword word :: w) w :=
  .of_takes (takes_keyword known) (Lexeme.only_eq_some.mpr rfl) (.pure rfl)

theorem rejects_keyword (known : word ∈ keywords) (other : w.head? ≠ some (.keyword word)) :
    Rejects (keyword word) w := by
  refine .of_takes (takes_keyword known) fun l w' same => Lexeme.only_eq_none.mpr ?_
  rintro rfl
  exact other (by rw [same]; rfl)

theorem yields_symbol (whole : Whole s) : Yields (symbol s) id () (.symbol s :: w) w :=
  .of_takes (takes_symbol whole) (Lexeme.only_eq_some.mpr rfl) (.pure rfl)

theorem rejects_symbol (whole : Whole s) (other : w.head? ≠ some (.symbol s)) :
    Rejects (symbol s) w := by
  refine .of_takes (takes_symbol whole) fun l w' same => Lexeme.only_eq_none.mpr ?_
  rintro rfl
  exact other (by rw [same]; rfl)

theorem yields_name : Yields name id word (.name word :: w) w :=
  .of_takes takes_name rfl (.pure rfl)

theorem rejects_name (other : ∀ word, w.head? ≠ some (.name word)) : Rejects name w := by
  refine .of_takes takes_name fun l w' same => ?_
  cases l with
  | name word => exact absurd (by rw [same]; rfl) (other word)
  | _ => rfl

theorem yields_number {value : Float} : Yields number id value (.number value :: w) w :=
  .of_takes takes_number rfl (.pure rfl)

theorem rejects_number (other : ∀ value, w.head? ≠ some (.number value)) : Rejects number w := by
  refine .of_takes takes_number fun l w' same => ?_
  cases l with
  | number value => exact absurd (by rw [same]; rfl) (other value)
  | _ => rfl

theorem yields_string {text : String} : Yields string id text (.string text :: w) w :=
  .of_takes takes_string rfl (.pure rfl)

theorem rejects_string (other : ∀ text, w.head? ≠ some (.string text)) : Rejects string w := by
  refine .of_takes takes_string fun l w' same => ?_
  cases l with
  | string text => exact absurd (by rw [same]; rfl) (other text)
  | _ => rfl

end

/-! ### Symbols that other tokens start with -/

section

variable {f : Unit → Parser α}

theorem Yields.equals (refuses : Grammar.Refuses (f ())) (h : Yields (f ()) view v w rest) :
    Yields (symbol "=" >>= f) view v (.symbol "=" :: w) rest :=
  .of_takes (takes_equals refuses) (Lexeme.only_eq_some.mpr rfl : _ = some ()) h

theorem Rejects.equals (refuses : Grammar.Refuses (f ())) (other : w.head? ≠ some (.symbol "=")) :
    Rejects (symbol "=" >>= f) w := by
  refine .of_takes (takes_equals refuses) fun l w' same => Lexeme.only_eq_none.mpr ?_
  rintro rfl
  exact other (by rw [same]; rfl)

theorem Yields.bracket (refuses : Grammar.Refuses (f ())) (h : Yields (f ()) view v w rest) :
    Yields (symbol "[" >>= f) view v (.symbol "[" :: w) rest :=
  .of_takes (takes_bracket refuses) (Lexeme.only_eq_some.mpr rfl : _ = some ()) h

theorem Rejects.bracket (refuses : Grammar.Refuses (f ())) (other : w.head? ≠ some (.symbol "[")) :
    Rejects (symbol "[" >>= f) w := by
  refine .of_takes (takes_bracket refuses) fun l w' same => Lexeme.only_eq_none.mpr ?_
  rintro rfl
  exact other (by rw [same]; rfl)

theorem Yields.point (refuses : ∀ {c}, name c = .fail → f () c = .fail)
    (h : Yields (f ()) view v w rest) :
    Yields (symbol "." >>= f) view v (.symbol "." :: w) rest :=
  .of_takes (takes_point refuses) (Lexeme.only_eq_some.mpr rfl : _ = some ()) h

theorem Rejects.point (refuses : ∀ {c}, name c = .fail → f () c = .fail)
    (other : w.head? ≠ some (.symbol ".")) : Rejects (symbol "." >>= f) w := by
  refine .of_takes (takes_point refuses) fun l w' same => Lexeme.only_eq_none.mpr ?_
  rintro rfl
  exact other (by rw [same]; rfl)

end

end MiniLua

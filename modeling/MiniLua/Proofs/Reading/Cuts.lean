import MiniLua.Proofs.Reading.Refusal
import MiniLua.Proofs.Reading.Terminals

/-!
# Behind a symbol that is cut off a token

A symbol that the grammar reads may be only the first part of a token. What the grammar wants next
is then refused, unless the token is a long string and a further long string starts at its second
bracket.
-/

namespace MiniLua

open MiniLua.Text MiniLua.Spelling MiniLua.Parser MiniLua.Lexer

theorem symbol_eq_ok {s : String} {c c' : Cursor} {u : Unit} (h : Parser.symbol s c = .ok u c') :
    startsWith s (Parser.skip c).rest = true ∧ c' = (Parser.skip c).advance s.length := by
  unfold Parser.symbol at h
  dsimp only at h
  split at h
  next starts =>
    cases h
    exact ⟨starts, rfl⟩
  next => cases h

/-- The symbols that are not the first part of another token. -/
def wholeTexts : List (List Char) :=
  [['.', '.'], ['=', '='], ['~', '='], ['<', '='], ['>', '='], ['/', '/'], ['+'], ['-'], ['*'],
   ['%'], ['^'], ['#'], ['('], [')'], ['\x7b'], ['\x7d'], [']'], [';'], [',']]

def Whole (s : String) : Prop := s.toList ∈ wholeTexts

instance (s : String) : Decidable (Whole s) := inferInstanceAs (Decidable (_ ∈ _))

theorem Whole.not_cut {s : String} (h : Whole s) : s ∈ symbols ∧ ∀ {cs}, ¬ Cut cs s := by
  have facts : ∀ w ∈ wholeTexts, w ∈ symbolTexts ∧ w ≠ ['.'] ∧ w ≠ ['['] ∧
      ∀ v ∈ symbolTexts, w <+: v → w = v := by
    decide
  obtain ⟨known, point, bracket, longest⟩ := facts _ h
  refine ⟨mem_symbols_iff.mpr known, fun cut => ?_⟩
  cases cut with
  | longer valid longer begins starts =>
    exact longer (String.toList_inj.mp (longest _ (mem_symbols_iff.mp valid) begins))
  | point here => exact point (by rw [here]; rfl)
  | bracket here => exact bracket (by rw [here]; rfl)

theorem barren_of_head {c : Cursor} {ch : Char} {tail : List Char} (h : c.rest = ch :: tail)
    (which : ch = '=' ∨ ch = '[') : Parser.skip c = c ∧ Grammar.Barren c := by
  have still : Parser.skip c = c :=
    skip_of_head h (by rcases which with rfl | rfl <;> decide)
      (by rcases which with rfl | rfl <;> decide)
  have nameless : nameChars (Parser.skip c).rest = [] := by
    rw [still, h, nameChars_eq_nil_iff]
    rcases which with rfl | rfl <;> decide
  refine ⟨still, ?_, ?_, ?_, ?_⟩
  · intro word known
    have reserved : ∀ word ∈ ["nil", "true", "false", "function", "not"], word ∈ keywords := by
      simp [keywords]
    simp only [Parser.keyword, keywordHere_of_nameless (reserved word known) nameless,
      Bool.false_eq_true, if_false]
  · intro s known
    have others : ∀ s ∈ ["\x7b", "(", "#", "-"],
        s ∈ symbols ∧ s.toList.head? ≠ some '=' ∧ s.toList.head? ≠ some '[' := by
      decide
    obtain ⟨valid, equals, bracket⟩ := others s known
    have other : startsWith s (Parser.skip c).rest = false := by
      by_contra starts
      obtain ⟨d, tail, same, head⟩ := head_of_symbol valid (Bool.not_eq_false _ ▸ starts)
      rw [still, h] at same
      cases same
      rcases which with rfl | rfl
      · exact equals head
      · exact bracket head
    simp only [Parser.symbol, other, Bool.false_eq_true, if_false]
  · simp only [Parser.name, nameless, ite_self]
  · refine number_of_digitless ?_
    rw [still, h]
    rcases which with rfl | rfl <;> exact not_startsNumber (by decide) (by decide)

/-- Where a single `=` is cut off `==`, no expression starts behind it. -/
theorem barren_of_cut_equals {c : Cursor} (cut : Cut c.rest "=") :
    Grammar.Barren (c.advance 1) ∧ Parser.string (c.advance 1) = .fail := by
  obtain ⟨tail, same⟩ : ∃ tail, c.rest = '=' :: '=' :: tail := by
    cases cut with
    | @longer t known longer begins starts =>
      have only : ∀ t ∈ symbols, "=" ≠ t → "=".toList <+: t.toList → t = "==" := by decide
      rw [only t known longer begins] at starts
      obtain ⟨rest, same⟩ := startsWith_prefix starts
      exact ⟨rest, same⟩
    | point here => exact absurd here (by decide)
    | bracket here => exact absurd here (by decide)
  have next : (c.advance 1).rest = '=' :: tail := by rw [Cursor.rest_advance, same]; rfl
  obtain ⟨still, barren⟩ := barren_of_head next (.inl rfl)
  refine ⟨barren, ?_⟩
  rw [Parser.string, orElse_of_fail (Front.shortString_eq_fail ?_)]
  · rw [Parser.longString, still, next]
    rfl
  · rw [still, next]
    rintro quote tail same
    cases same
    decide

theorem name_fail_of_head {c : Cursor} {d : Char} {tail : List Char} (h : c.rest = d :: tail)
    (which : isDigit d = true ∨ d = '.') : Parser.name c = .fail := by
  have other : ∀ ch, isDigit ch = false → ch ≠ '.' → ch ≠ d := by
    rintro ch digitless pointless rfl
    rcases which with digit | point
    · rw [digitless] at digit
      cases digit
    · exact pointless point
  have solid : isGrammarBlank d = false := by
    by_contra blank
    have blank := isBlank_of_isGrammarBlank (Bool.not_eq_false _ ▸ blank)
    refine other d (isDigit_of_isBlank blank) ?_ rfl
    rintro rfl
    exact absurd blank (by decide)
  have nameless : nameChars c.rest = [] := by
    rw [h, nameChars_eq_nil_iff]
    by_contra start
    have start := Bool.not_eq_false _ ▸ start
    refine other d (isDigit_of_isNameStart start) ?_ rfl
    rintro rfl
    exact absurd start (by decide)
  have still : Parser.skip c = c :=
    skip_of_head h solid (Ne.symm (other '-' (by decide) (by decide)))
  simp only [Parser.name, still, nameless, ite_self]

/-- Where a single point is cut off `..` or a numeral, no name starts behind it. -/
theorem name_fail_of_cut_point {c : Cursor} (cut : Cut c.rest ".") :
    Parser.name (c.advance 1) = .fail := by
  obtain ⟨d, tail, same, digit⟩ : ∃ d tail, c.rest = '.' :: d :: tail ∧
      (isDigit d = true ∨ d = '.') := by
    cases cut with
    | @longer t known longer begins starts =>
      have only : ∀ t ∈ symbols, "." ≠ t → ".".toList <+: t.toList → t = ".." := by decide
      rw [only t known longer begins] at starts
      obtain ⟨rest, same⟩ := startsWith_prefix starts
      exact ⟨'.', rest, same, .inr rfl⟩
    | @point d tail here split digit => exact ⟨d, tail, split, .inl digit⟩
    | bracket here => exact absurd here (by decide)
  have next : (c.advance 1).rest = d :: tail := by rw [Cursor.rest_advance, same]; rfl
  exact name_fail_of_head next digit

theorem bracketLevel?_of_cut {c : Cursor} (cut : Cut c.rest "[") :
    ∃ level, bracketLevel? c.rest = some level := by
  cases cut with
  | @longer t known longer begins starts =>
    have none : ∀ t ∈ symbols, "[" ≠ t → ¬ "[".toList <+: t.toList := by decide
    exact absurd begins (none t known longer)
  | point here => exact absurd here (by decide)
  | @bracket level here opens => exact ⟨level, opens⟩

/-- Where a single bracket is cut off a long string, only a further long string can start behind
it. -/
theorem barren_of_bracketLevel? {c : Cursor} {depth : Nat}
    (opens : bracketLevel? c.rest = some depth) :
    Grammar.Barren (c.advance 1) ∧ (Parser.string (c.advance 1) = .fail ∨
      ∃ level inner n, depth = 0 ∧ bracketLevel? (c.rest.drop 1) = some level ∧
        longBracket? level (c.rest.drop 1) = some (inner, n) ∧
        Parser.string (c.advance 1) =
          .ok (String.ofList (dropFirstNewline inner)) ((c.advance 1).advance n)) := by
  have next : (c.advance 1).rest = c.rest.drop 1 := Cursor.rest_advance _ _
  obtain ⟨tail, same⟩ := bracketLevel?_prefix opens
  obtain ⟨ch, rest, head, which⟩ : ∃ ch rest, (c.advance 1).rest = ch :: rest ∧
      (ch = '=' ∨ ch = '[') := by
    rw [next, same]
    cases depth with
    | zero => exact ⟨'[', _, rfl, .inr rfl⟩
    | succ depth => exact ⟨'=', _, rfl, .inl rfl⟩
  obtain ⟨still, barren⟩ := barren_of_head head which
  have long : Parser.string (c.advance 1) = Parser.longString (c.advance 1) := by
    refine orElse_of_fail (Front.shortString_eq_fail ?_)
    rw [still, head]
    rintro quote tail same
    cases same
    rcases which with rfl | rfl <;> decide
  refine ⟨barren, ?_⟩
  rw [long]
  cases reopens : bracketLevel? (c.advance 1).rest with
  | none => exact .inl (by simp only [Parser.longString, still, reopens])
  | some level =>
    cases inside : longBracket? level (c.advance 1).rest with
    | none => exact .inl (by simp only [Parser.longString, still, reopens, inside])
    | some reading =>
      obtain ⟨inner, n⟩ := reading
      have shallow : depth = 0 := by
        obtain ⟨tail', bracket⟩ := head_of_bracketLevel? reopens
        cases depth with
        | zero => rfl
        | succ depth =>
          rw [next, same] at bracket
          cases bracket
      refine .inr ⟨level, inner, n, shallow, next ▸ reopens, next ▸ inside, ?_⟩
      simp only [Parser.longString, still, reopens, inside]

theorem Front.symbol_eq {text : List Char} {c after : Cursor} {ts : List Token} {s : String}
    (h : Front text (Parser.skip c) (.symbol s) after ts) : Parser.symbol s c = .ok () after := by
  obtain ⟨n, rule, rfl⟩ := h.rule
  cases rule with
  | symbol unopened digitless longest =>
    simp only [Parser.symbol, (symbol?_mem longest).2, if_true]

/-! ## Which operator is read -/

namespace Grammar

/-- The first of the operators whose symbol stands here. -/
theorem operatorOf_eq (ops : List BinaryOp) (c : Cursor) : operatorOf ops c =
    match ops.find? (startsWith ·.symbol (Parser.skip c).rest) with
    | some op => .ok op ((Parser.skip c).advance op.symbol.length)
    | none => .fail := by
  induction ops with
  | nil => rfl
  | cons op ops ih =>
    rw [operatorOf, List.find?_cons]
    cases starts : startsWith op.symbol (Parser.skip c).rest with
    | true =>
      have read : Parser.symbol op.symbol c =
          .ok () ((Parser.skip c).advance op.symbol.length) := by
        simp only [Parser.symbol, starts, if_true]
      exact orElse_of_ok (seqRight_of_ok read)
    | false =>
      have refused : Parser.symbol op.symbol c = .fail := by
        simp only [Parser.symbol, starts, Bool.false_eq_true, if_false]
      rw [orElse_of_fail (seqRight_of_fail refused), ih]

/-- Every symbol that an operator begins is tried before it. -/
def Guarded (ops : List BinaryOp) : Prop :=
  ∀ i : Fin ops.length, ops[i].symbol.toList ∈ symbolTexts ∧ ops[i].symbol.toList ≠ ['.'] ∧
    ops[i].symbol.toList ≠ ['['] ∧ ∀ w ∈ symbolTexts, ops[i].symbol.toList ≠ w →
      ops[i].symbol.toList <+: w → ∃ o ∈ ops.take i, o.symbol.toList = w

instance (ops : List BinaryOp) : Decidable (Guarded ops) :=
  inferInstanceAs (Decidable (∀ _ : Fin ops.length, _ ∧ _))

end Grammar

open Grammar

theorem Stuck.operatorOf_eq {c : Cursor} (h : Stuck (Parser.skip c)) {ops : List BinaryOp}
    (guarded : Guarded ops) : operatorOf ops c = .fail := by
  have none : ops.find? (startsWith ·.symbol (Parser.skip c).rest) = none := by
    refine List.find?_eq_none.mpr fun op member starts => ?_
    obtain ⟨i, inside, rfl⟩ := List.getElem_of_mem member
    have refused := h.symbol_eq (mem_symbols_iff.mpr (guarded ⟨i, inside⟩).1)
    simp only [Parser.symbol, Fin.getElem_fin] at refused
    rw [if_pos starts] at refused
    cases refused
  rw [Grammar.operatorOf_eq, none]

/-- The operator that is read is the whole token. -/
theorem Front.operatorOf_eq {text : List Char} {c after : Cursor} {l : Lexeme} {ts : List Token}
    (h : Front text (Parser.skip c) l after ts) {ops : List BinaryOp} (guarded : Guarded ops) :
    operatorOf ops c = .ofOption after (ops.find? (l = .symbol ·.symbol)) := by
  have starts : ∀ op : BinaryOp, l = .symbol op.symbol →
      startsWith op.symbol (Parser.skip c).rest = true := by
    rintro op rfl
    by_contra other
    have read := h.symbol_eq
    simp only [Parser.symbol, if_neg other] at read
    cases read
  rw [Grammar.operatorOf_eq]
  cases found : ops.find? (startsWith ·.symbol (Parser.skip c).rest) with
  | none =>
    have none : ops.find? (l = .symbol ·.symbol) = none := by
      refine List.find?_eq_none.mpr fun op member same => ?_
      exact List.find?_eq_none.mp found op member (starts op (by simpa using same))
    rw [none]
    rfl
  | some op =>
    obtain ⟨begins, earlier, later, rfl, refused⟩ := List.find?_eq_some_iff_append.mp found
    obtain ⟨valid, point, bracket, longer⟩ := guarded ⟨earlier.length, by simp⟩
    simp only [Fin.getElem_fin, List.getElem_append_right, Nat.le_refl, Nat.sub_self,
      List.getElem_cons_zero, List.take_left] at valid point bracket longer
    rcases h.symbol_or_cut (mem_symbols_iff.mpr valid) begins with ⟨rfl, rfl⟩ | cut
    · have first : (earlier ++ op :: later).find? (Lexeme.symbol op.symbol = .symbol ·.symbol) =
          some op := by
        refine List.find?_eq_some_iff_append.mpr ⟨by simp, earlier, later, rfl, ?_⟩
        intro o member
        by_contra same
        have := starts o (by simpa using same)
        simpa [this] using refused o member
      rw [first]
      rfl
    · exfalso
      cases cut with
      | @longer t other differs begins whole =>
        obtain ⟨o, tried, same⟩ := longer _ (mem_symbols_iff.mp other)
          (fun e => differs (String.toList_inj.mp e)) begins
        obtain rfl := String.toList_inj.mp same
        simpa [whole] using refused o tried
      | point here => exact point (by rw [here]; rfl)
      | bracket here => exact bracket (by rw [here]; rfl)

end MiniLua

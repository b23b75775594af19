import MiniLua.Proofs.Reading.Cuts

/-!
# Keeping track of what is read

What a parser has built and what the tokenizer still has to give make up the same literals at every
place, until the grammar reads the first bracket of a long string on its own and goes on inside of
the string.
-/

namespace MiniLua

open MiniLua.Text MiniLua.Spelling MiniLua.Parser MiniLua.Lexer

/-- A long string `outer` of the text whose second bracket opens a further long string `inner`. -/
inductive Overlap (text : List Char) : String → String → Prop where
  | mk {cs outer inner : List Char} {level m n : Nat} (within : cs <:+ text)
      (opens : bracketLevel? cs = some 0) (token : longBracket? 0 cs = some (outer, m))
      (reopens : bracketLevel? (cs.drop 1) = some level)
      (operand : longBracket? level (cs.drop 1) = some (inner, n)) :
      Overlap text (String.ofList (dropFirstNewline outer)) (String.ofList (dropFirstNewline inner))

/-- The tokens and the tree agree up to a long string that the grammar reads from its second
bracket on. -/
def Drift (text : List Char) (tokens tree : List Literal) : Prop :=
  ∃ before outer inner rest after, Overlap text outer inner ∧
    tokens = before ++ .text outer :: rest ∧ tree = before ++ .text inner :: after

theorem Drift.mono {text : List Char} {tokens tree tree' : List Literal}
    (h : Drift text tokens tree) (grows : tree <+: tree') : Drift text tokens tree' := by
  obtain ⟨before, outer, inner, rest, after, overlap, rfl, rfl⟩ := h
  obtain ⟨more, rfl⟩ := grows
  exact ⟨before, outer, inner, rest, after ++ more, overlap, rfl, by simp⟩

/-- From any place `p` builds `built a` on top of the literals `before`, and from an aligned place
it takes them from the tokens. -/
structure Reads {α : Type} (text : List Char) (before : List Literal) (p : Parser α)
    (built : α → List Literal) : Prop where
  grows : ∀ {c a c'}, p c = .ok a c' → before <+: built a
  tracks : ∀ {c a c' ts}, p c = .ok a c' → Aligned text c ts →
    (∃ ts', Aligned text c' ts' ∧ built a ++ Token.literals ts' = before ++ Token.literals ts) ∨
      Drift text (before ++ Token.literals ts) (built a)

/-- Whatever has been built, `p` adds the literals `own a`. -/
def Adds {α : Type} (text : List Char) (p : Parser α) (own : α → List Literal) : Prop :=
  ∀ before, Reads text before p fun a => before ++ own a

/-- `p` reads no literal. -/
def Silent {α : Type} (text : List Char) (p : Parser α) : Prop := Adds text p fun _ => []

variable {text : List Char} {before : List Literal} {α β : Type}

namespace Reads

theorem pure {a : α} {built : α → List Literal} (h : built a = before) :
    Reads text before (pure a) built where
  grows read := by
    cases read
    exact h ▸ List.prefix_refl _
  tracks read aligned := by
    cases read
    exact .inl ⟨_, aligned, by rw [h]⟩

theorem fail {built : α → List Literal} : Reads text before Parser.fail built where
  grows read := by cases read
  tracks read := by cases read

theorem stop {why : Stop} {built : α → List Literal} :
    Reads text before (Parser.stop why) built where
  grows read := by cases read
  tracks read := by cases read

theorem bind {p : Parser α} {f : α → Parser β} {own : α → List Literal} {built : β → List Literal}
    (hp : Adds text p own) (hf : ∀ a, Reads text (before ++ own a) (f a) built) :
    Reads text before (p >>= f) built where
  grows read := by
    obtain ⟨a, c₁, first, rest⟩ := bind_eq_ok read
    exact (hp before).grows first |>.trans ((hf a).grows rest)
  tracks read aligned := by
    obtain ⟨a, c₁, first, rest⟩ := bind_eq_ok read
    rcases (hp before).tracks first aligned with ⟨ts₁, aligned₁, sum⟩ | drift
    · rw [← sum]
      exact (hf a).tracks rest aligned₁
    · exact .inr (drift.mono ((hf a).grows rest))

/-- After something without literals. -/
theorem next {p : Parser α} {f : α → Parser β} {built : β → List Literal} (hp : Silent text p)
    (hf : ∀ a, Reads text before (f a) built) : Reads text before (p >>= f) built :=
  bind hp fun a => by simpa using hf a

theorem orElse {p q : Parser α} {built : α → List Literal} (hp : Reads text before p built)
    (hq : Reads text before q built) : Reads text before (p <|> q) built where
  grows read := (orElse_eq_ok read).elim hp.grows hq.grows
  tracks read aligned :=
    (orElse_eq_ok read).elim (fun read => hp.tracks read aligned) (fun read => hq.tracks read aligned)

end Reads

theorem Adds.congr {p : Parser α} {own own' : α → List Literal} (h : Adds text p own)
    (same : ∀ a, own' a = own a) : Adds text p own' := by
  rw [funext same]
  exact h

/-! ## Options and repetitions -/

theorem Adds.opt {p : Parser α} {own : α → List Literal} (h : Adds text p own) :
    Adds text (Parser.opt p) fun o => o.elim [] own := by
  intro before
  constructor
  · intro c o c' read
    exact List.prefix_append _ _
  · intro c o c' ts read aligned
    unfold Parser.opt at read
    split at read
    next a c₁ found =>
      cases read
      exact (h before).tracks found aligned
    next =>
      cases read
      exact .inl ⟨ts, aligned.skip, by simp⟩
    next => cases read

theorem Silent.opt {p : Parser α} (h : Silent text p) : Silent text (Parser.opt p) :=
  Adds.congr (Adds.opt h) fun o => by cases o <;> rfl

theorem Adds.manyAfter {p : Parser α} {own : α → List Literal} (h : Adds text p own) (fuel : Nat) :
    Adds text (Parser.manyAfter p fuel) fun as => as.flatMap own := by
  intro before
  constructor
  · intro c as c' read
    exact List.prefix_append _ _
  · induction fuel generalizing before with
    | zero =>
      intro c as c' ts read aligned
      cases read
      exact .inl ⟨ts, aligned, by simp⟩
    | succ fuel ih =>
      intro c as c' ts read aligned
      unfold Parser.manyAfter at read
      split at read
      next =>
        cases read
        exact .inl ⟨ts, aligned, by simp⟩
      next => cases read
      next a c₁ found =>
        split at read
        next as c₂ rest =>
          cases read
          dsimp only
          rw [List.flatMap_cons, ← List.append_assoc]
          rcases (h before).tracks found aligned.skipComments with ⟨ts₁, aligned₁, sum⟩ | drift
          · rw [← sum]
            exact ih _ rest aligned₁
          · exact .inr (drift.mono (List.prefix_append _ _))
        next => cases read
        next => cases read

theorem Adds.many {p : Parser α} {own : α → List Literal} (h : Adds text p own) :
    Adds text (Parser.many p) fun as => as.flatMap own := by
  intro before
  constructor
  · intro c as c' read
    exact List.prefix_append _ _
  · intro c as c' ts read aligned
    unfold Parser.many at read
    split at read
    next =>
      cases read
      exact .inl ⟨ts, aligned, by simp⟩
    next => cases read
    next a c₁ found =>
      split at read
      next as c₂ rest =>
        cases read
        dsimp only
        rw [List.flatMap_cons, ← List.append_assoc]
        rcases (h before).tracks found aligned with ⟨ts₁, aligned₁, sum⟩ | drift
        · rw [← sum]
          exact (h.manyAfter _ _).tracks rest aligned₁
        · exact .inr (drift.mono (List.prefix_append _ _))
      next => cases read
      next => cases read

/-! ## Places -/

theorem silent_here : Silent text Parser.here := by
  intro before
  refine ⟨fun _ => List.prefix_append _ _, fun read aligned => ?_⟩
  cases read
  exact .inl ⟨_, aligned, by simp⟩

theorem silent_mark : Silent text Parser.mark := by
  intro before
  refine ⟨fun _ => List.prefix_append _ _, fun read aligned => ?_⟩
  cases read
  exact .inl ⟨_, aligned.skipComments, by simp⟩

theorem silent_exact : Silent text Parser.exact := by
  intro before
  refine ⟨fun _ => List.prefix_append _ _, fun read aligned => ?_⟩
  cases read
  exact .inl ⟨_, aligned.skip, by simp⟩

/-! ## Terminals -/

theorem Token.literals_cons (t : Token) (ts : List Token) :
    Token.literals (t :: ts) = t.lexeme.literal?.toList ++ Token.literals ts := by
  rw [Token.literals, Token.literals, List.filterMap_cons]
  cases t.lexeme.literal? <;> rfl

/-- A terminal reads the one token ahead. -/
theorem Reads.terminal {p : Parser α} {own : α → List Literal}
    (reads : ∀ {c a c'} {ts : List Token}, p c = .ok a c' → Aligned text c ts →
      ∃ lexeme ts', Front text (Parser.skip c) lexeme c' ts' ∧
        ts = ⟨lexeme, (Parser.skip c).line⟩ :: ts' ∧ lexeme.literal?.toList = own a) :
    Adds text p own := by
  intro before
  refine ⟨fun _ => List.prefix_append _ _, fun read aligned => .inl ?_⟩
  obtain ⟨lexeme, ts', front, rfl, literals⟩ := reads read aligned
  refine ⟨ts', front.rest, ?_⟩
  rw [← literals, List.append_assoc, Token.literals_cons]

theorem silent_keyword {word : String} (known : word ∈ keywords) :
    Silent text (Parser.keyword word) := by
  refine Reads.terminal fun {c a c' ts} read aligned => ?_
  rcases aligned.stuck_or_front with stuck | ⟨lexeme, after, ts', front, rfl⟩
  · rw [stuck.keyword_eq known] at read
    cases read
  · rw [front.keyword_eq known] at read
    split at read
    next same =>
      cases read
      exact ⟨lexeme, ts', front, rfl, by rw [same]; rfl⟩
    next => cases read

theorem adds_name : Adds text Parser.name fun n => [.text n] := by
  refine Reads.terminal fun {c a c' ts} read aligned => ?_
  rcases aligned.stuck_or_front with stuck | ⟨lexeme, after, ts', front, rfl⟩
  · rw [stuck.name_eq] at read
    cases read
  · rw [front.name_eq] at read
    cases lexeme with
    | name word =>
      cases read
      exact ⟨_, ts', front, rfl, rfl⟩
    | _ => cases read

theorem adds_number : Adds text Parser.number fun x => [.number x] := by
  refine Reads.terminal fun {c a c' ts} read aligned => ?_
  rcases aligned.stuck_or_front with stuck | ⟨lexeme, after, ts', front, rfl⟩
  · rw [stuck.number_eq] at read
    cases read
  · rw [front.number_eq] at read
    cases lexeme with
    | number value =>
      cases read
      exact ⟨_, ts', front, rfl, rfl⟩
    | _ => cases read

theorem adds_string : Adds text Parser.string fun s => [.text s] := by
  refine Reads.terminal fun {c a c' ts} read aligned => ?_
  rcases aligned.stuck_or_front with stuck | ⟨lexeme, after, ts', front, rfl⟩
  · rw [stuck.string_eq] at read
    cases read
  · rw [front.string_eq] at read
    cases lexeme with
    | string text =>
      cases read
      exact ⟨_, ts', front, rfl, rfl⟩
    | _ => cases read

/-! ## Symbols -/

/-- Reading a symbol, where it may be the first part of a longer token. -/
theorem Reads.symbol {s : String} {f : Unit → Parser α} {built : α → List Literal}
    (known : s ∈ symbols)
    (cut : ∀ {c c' a lexeme after ts}, Cut c.rest s → Front text c lexeme after ts →
      f () (c.advance s.length) = .ok a c' →
      Drift text (before ++ Token.literals (⟨lexeme, c.line⟩ :: ts)) (built a))
    (hf : Reads text before (f ()) built) : Reads text before (Parser.symbol s >>= f) built where
  grows read := by
    obtain ⟨u, c₁, -, rest⟩ := bind_eq_ok read
    exact hf.grows rest
  tracks {c a c' ts} read aligned := by
    obtain ⟨u, c₁, first, rest⟩ := bind_eq_ok read
    rcases aligned.stuck_or_front with stuck | ⟨lexeme, after, ts', front, rfl⟩
    · rw [stuck.symbol_eq known] at first
      cases first
    · obtain ⟨starts, rfl⟩ := symbol_eq_ok first
      rcases front.symbol_or_cut known starts with ⟨rfl, rfl⟩ | part
      · rw [Token.literals_cons]
        exact hf.tracks rest front.rest
      · exact .inr (cut part front rest)

theorem silent_symbol {s : String} (whole : Whole s) : Silent text (Parser.symbol s) := by
  obtain ⟨known, uncut⟩ := whole.not_cut
  refine Reads.terminal fun {c a c' ts} read aligned => ?_
  rcases aligned.stuck_or_front with stuck | ⟨lexeme, after, ts', front, rfl⟩
  · rw [stuck.symbol_eq known] at read
    cases read
  · obtain ⟨starts, rfl⟩ := symbol_eq_ok read
    rcases front.symbol_or_cut known starts with ⟨rfl, rfl⟩ | part
    · exact ⟨_, ts', front, rfl, rfl⟩
    · exact absurd part uncut

/-! ## Symbols that may be cut off -/

/-- What is needed of a parser for expressions. -/
structure Operand (text : List Char) (expression : Parser Expr) : Prop where
  adds : Adds text expression Expr.literals
  refuses : ∀ {c}, Grammar.Barren c → Parser.string c = .fail → expression c = .fail
  begins : ∀ {c s c'}, Grammar.Barren c → Parser.string c = .ok s c' →
    Grammar.Begins [.text s] expression c

/-- After `=` comes something that cannot start with a further `=`. -/
theorem Reads.equals {f : Unit → Parser α} {built : α → List Literal}
    (refuses : ∀ {c}, Grammar.Barren c → Parser.string c = .fail → f () c = .fail)
    (hf : Reads text before (f ()) built) :
    Reads text before (Parser.symbol "=" >>= f) built := by
  refine .symbol (by decide) (fun {c c' a lexeme after ts} cut front read => ?_) hf
  obtain ⟨barren, unquoted⟩ := barren_of_cut_equals cut
  have refused := refuses barren unquoted
  change f () (c.advance 1) = _ at read
  rw [refused] at read
  cases read

/-- After `.` comes a name, which cannot start with a further point or with a digit. -/
theorem Reads.point {f : Unit → Parser α} {built : α → List Literal}
    (refuses : ∀ {c}, Parser.name c = .fail → f () c = .fail)
    (hf : Reads text before (f ()) built) :
    Reads text before (Parser.symbol "." >>= f) built := by
  refine .symbol (by decide) (fun {c c' a lexeme after ts} cut front read => ?_) hf
  change f () (c.advance 1) = _ at read
  rw [refuses (name_fail_of_cut_point cut)] at read
  cases read

/-- After `[` comes an expression. If the tokenizer reads a long string there, the expression starts
with the string that its second bracket opens. -/
theorem Reads.bracket {expression : Parser Expr} (operand : Operand text expression)
    {f : Expr → Parser α} {built : α → List Literal}
    (hf : ∀ key, Reads text (before ++ key.literals) (f key) built) :
    Reads text before (Parser.symbol "[" >>= fun _ => expression >>= f) built := by
  refine .symbol (by decide) (fun {c c' a lexeme after ts} cut front read => ?_)
    (.bind operand.adds hf)
  change (expression >>= f) (c.advance 1) = _ at read
  obtain ⟨depth, opens⟩ := bracketLevel?_of_cut cut
  obtain ⟨m, rule, -⟩ := front.rule
  obtain ⟨outer, token, rfl⟩ := rule.of_bracketLevel? opens
  obtain ⟨barren, unquoted | ⟨level, inner, n, rfl, reopens, inside, quoted⟩⟩ :=
    barren_of_bracketLevel? opens
  · rw [bind_of_fail (operand.refuses barren unquoted)] at read
    cases read
  · obtain ⟨key, c₁, first, others⟩ := bind_eq_ok read
    obtain ⟨more, begins⟩ := operand.begins barren quoted key c₁ first
    obtain ⟨after, grown⟩ := (hf key).grows others
    refine ⟨before, _, _, Token.literals ts, more ++ after,
      .mk front.within opens token reopens inside, ?_, ?_⟩
    · rw [Token.literals_cons]
      rfl
    · rw [← grown, ← begins]
      simp

end MiniLua

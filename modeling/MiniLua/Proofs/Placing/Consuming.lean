import MiniLua.Proofs.Placing.Readings

/-!
# Which tokens a parser reads

A parser that succeeds has read a stretch of the tokens to come, and the stretch is one that its
answer can be read from.
-/

namespace MiniLua

open MiniLua.Spelling MiniLua.Parser MiniLua.Lexer

/-- From such a footing on, behind a stretch out of `before`, what `p` reads completes a stretch out
of `built a`. -/
structure Consumes {α : Type} (text : List Char) (entry : Footing) (before : Language Spaced)
    (p : Parser α) (exit : α → Footing) (built : α → Language Spaced) : Prop where
  reads : ∀ {c a c' ps}, p c = .ok a c' → entry.At text c ps →
    ∃ w ps', ps = w ++ ps' ∧ (exit a).At text c' ps' ∧ ∀ u ∈ before, u ++ w ∈ built a

/-- Whatever stands before, `p` reads a stretch out of `own a`. -/
def Spans {α : Type} (text : List Char) (entry : Footing) (p : Parser α) (exit : α → Footing)
    (own : α → Language Spaced) : Prop :=
  ∀ before, Consumes text entry before p exit fun a => before * own a

variable {text : List Char} {entry : Footing} {before : Language Spaced} {α β : Type}

namespace Consumes

variable {exit : α → Footing} {built : α → Language Spaced}

theorem last {a : α} (same : exit a = entry) (h : before ≤ built a) :
    Consumes text entry before (Pure.pure a) exit built where
  reads read here := by
    cases read
    refine ⟨[], _, rfl, same ▸ here, fun u member => ?_⟩
    rw [List.append_nil]
    exact h member

theorem pure {a : α} (h : before ≤ built a) :
    Consumes text entry before (Pure.pure a) (fun _ => entry) built :=
  .last rfl h

theorem fail : Consumes text entry before Parser.fail exit built where
  reads read _ := by cases read

theorem loosen {p : Parser α} (h : Consumes text entry before p exit built) :
    Consumes text entry before p (fun _ => .anywhere) built where
  reads read here := by
    obtain ⟨w, ps', same, there, completes⟩ := h.reads read here
    exact ⟨w, ps', same, there.loosen, completes⟩

theorem bind {p : Parser α} {f : α → Parser β} {mid : α → Footing} {own : α → Language Spaced}
    {exit : β → Footing} {built : β → Language Spaced} (hp : Spans text entry p mid own)
    (hf : ∀ a, Consumes text (mid a) (before * own a) (f a) exit built) :
    Consumes text entry before (p >>= f) exit built where
  reads read here := by
    obtain ⟨a, c₁, first, rest⟩ := bind_eq_ok read
    obtain ⟨w, ps₁, rfl, mid, completes⟩ := (hp before).reads first here
    obtain ⟨w', ps', rfl, there, completes'⟩ := (hf a).reads rest mid
    refine ⟨w ++ w', ps', (List.append_assoc ..).symm, there, fun u member => ?_⟩
    rw [← List.append_assoc]
    exact completes' _ (completes u member)

theorem orElse {p q : Parser α} (hp : Consumes text entry before p exit built)
    (hq : Consumes text entry before q exit built) :
    Consumes text entry before (p <|> q) exit built where
  reads read here := (orElse_eq_ok read).elim (fun read => hp.reads read here)
    (fun read => hq.reads read here)

theorem map {p : Parser α} {f : α → β} {exit : β → Footing} {built : β → Language Spaced}
    (h : Consumes text entry before p (fun a => exit (f a)) fun a => built (f a)) :
    Consumes text entry before (f <$> p) exit built where
  reads read here := by
    obtain ⟨a, c₁, first, done⟩ := bind_eq_ok read
    cases done
    exact h.reads first here

/-! ### Places -/

theorem here {f : Cursor → Parser α}
    (h : ∀ place, Consumes text entry before (f place) exit built) :
    Consumes text entry before (Parser.here >>= f) exit built where
  reads {c _ _ _} read here := (h c).reads read here

theorem mark {f : Cursor → Parser α}
    (h : ∀ place, Consumes text entry before (f place) exit built) :
    Consumes text entry before (Parser.mark >>= f) exit built where
  reads read here := (h _).reads read here.skipComments

theorem exact {f : Cursor → Parser α}
    (h : ∀ place, Consumes text (.on place.line) before (f place) exit built) :
    Consumes text entry before (Parser.exact >>= f) exit built where
  reads read here := (h _).reads read here.skip

end Consumes

namespace Spans

variable {p : Parser α} {exit : α → Footing} {own : α → Language Spaced}

theorem of_reads (h : ∀ {c a c' ps}, p c = .ok a c' → entry.At text c ps →
    ∃ w ps', ps = w ++ ps' ∧ (exit a).At text c' ps' ∧ w ∈ own a) :
    Spans text entry p exit own := by
  refine fun before => ⟨fun read stand => ?_⟩
  obtain ⟨w, ps', same, there, member⟩ := h read stand
  exact ⟨w, ps', same, there, fun u first => Language.append_mem_mul first member⟩

theorem reads (h : Spans text entry p exit own) {c c' : Cursor} {a : α} {ps : List Spaced}
    (read : p c = .ok a c') (stand : entry.At text c ps) :
    ∃ w ps', ps = w ++ ps' ∧ (exit a).At text c' ps' ∧ w ∈ own a := by
  obtain ⟨w, ps', same, there, completes⟩ := (h 1).reads read stand
  have member := completes [] rfl
  rw [one_mul] at member
  exact ⟨w, ps', same, there, member⟩

end Spans

theorem Spans.mono {p : Parser α} {exit : α → Footing} {own own' : α → Language Spaced}
    (h : Spans text entry p exit own) (wider : ∀ a, own a ≤ own' a) :
    Spans text entry p exit own' := by
  refine .of_reads fun {c a c' ps} read stand => ?_
  obtain ⟨w, ps', same, there, member⟩ := h.reads read stand
  exact ⟨w, ps', same, there, wider a member⟩

/-! ## Options and repetitions -/

theorem Spans.opt {p : Parser α} {exit : α → Footing} {own : α → Language Spaced}
    (h : Spans text entry p exit own) :
    Spans text entry (Parser.opt p) (fun o => o.elim .before exit) fun o => o.elim 1 own := by
  refine .of_reads fun {c o c' ps} read stand => ?_
  unfold Parser.opt at read
  split at read
  next a c₁ found =>
    cases read
    exact h.reads found stand
  next =>
    cases read
    obtain ⟨early, laid, still, -⟩ := stand.skip
    exact ⟨[], ps, rfl, ⟨early, laid, still⟩, rfl⟩
  next => cases read

theorem Spans.optBefore {p : Parser α} {own : α → Language Spaced}
    (h : Spans text entry p (fun _ => .before) own) :
    Spans text entry (Parser.opt p) (fun _ => .before) fun o => o.elim 1 own := by
  have exit : (fun o : Option α => o.elim Footing.before fun _ => .before) = fun _ => .before :=
    funext fun o => by cases o <;> rfl
  exact exit ▸ h.opt

section

variable {σ : Type} (next : α → σ) (own : σ → α → Language Spaced)

/-- What is read again and again, where each time may depend on how the last has ended. -/
def chained : σ → List α → Language Spaced
  | _, [] => 1
  | s, a :: as => own s a * chained (next a) as

/-- How the last of some repetitions has ended. -/
def stateAfter : σ → List α → σ
  | s, [] => s
  | _, a :: as => stateAfter (next a) as

variable {next own} {foot : σ → Footing} {p : Parser α}

theorem Spans.manyAfter (h : ∀ s, Spans text (foot s) p (fun a => foot (next a)) (own s))
    (fuel : Nat) (s : σ) :
    Spans text (foot s) (Parser.manyAfter p fuel) (fun as => foot (stateAfter next s as))
      (chained next own s) := by
  induction fuel generalizing s with
  | zero =>
    refine .of_reads fun {c as c' ps} read stand => ?_
    cases read
    exact ⟨[], ps, rfl, stand, rfl⟩
  | succ fuel ih =>
    refine .of_reads fun {c as c' ps} read stand => ?_
    unfold Parser.manyAfter at read
    split at read
    next =>
      cases read
      exact ⟨[], ps, rfl, stand, rfl⟩
    next => cases read
    next a c₁ found =>
      split at read
      next as c₂ others =>
        cases read
        obtain ⟨w, ps₁, rfl, mid, first⟩ := (h s).reads found stand.skipComments
        obtain ⟨w', ps', rfl, there, rest⟩ := (ih (next a)).reads others mid
        exact ⟨w ++ w', ps', (List.append_assoc ..).symm, there, Language.append_mem_mul first rest⟩
      next => cases read
      next => cases read

theorem Spans.manyFrom (h : ∀ s, Spans text (foot s) p (fun a => foot (next a)) (own s)) (s : σ) :
    Spans text (foot s) (Parser.many p) (fun as => foot (stateAfter next s as))
      (chained next own s) := by
  refine .of_reads fun {c as c' ps} read stand => ?_
  unfold Parser.many at read
  split at read
  next =>
    cases read
    exact ⟨[], ps, rfl, stand, rfl⟩
  next => cases read
  next a c₁ found =>
    split at read
    next as c₂ others =>
      cases read
      obtain ⟨w, ps₁, rfl, mid, first⟩ := (h s).reads found stand
      obtain ⟨w', ps', rfl, there, rest⟩ := (Spans.manyAfter h _ (next a)).reads others mid
      exact ⟨w ++ w', ps', (List.append_assoc ..).symm, there, Language.append_mem_mul first rest⟩
    next => cases read
    next => cases read

end

theorem Spans.many {p : Parser α} {foot : Footing} {own : α → Language Spaced}
    (h : Spans text foot p (fun _ => foot) own) :
    Spans text foot (Parser.many p) (fun _ => foot) fun as => (as.map own).prod := by
  have reads : Spans text foot (Parser.many p) (fun _ => foot)
      (chained (fun _ => ()) (fun _ => own) ()) :=
    Spans.manyFrom (fun _ => h) ()
  refine reads.mono fun as => le_of_eq ?_
  induction as with
  | nil => rfl
  | cons a as ih => rw [chained, ih, List.map_cons, List.prod_cons]

/-! ## Terminals -/

/-- A terminal reads the one token to come. -/
theorem Footing.At.terminal {f : Footing} {p : Parser α} {reads : Lexeme → Option α} {c c' : Cursor}
    {a : α} {ps : List Spaced} (stand : f.At text c ps) (read : p c = .ok a c')
    (stuck : Stuck (Parser.skip c) → p c = .fail)
    (front : ∀ {l after ts}, Front text (Parser.skip c) l after ts →
      p c = .ofOption after (reads l)) :
    ∃ l piece ps', ps = piece :: ps' ∧ piece.token = ⟨l, (Parser.skip c).line⟩ ∧
      reads l = some a ∧ Footing.behind.At text c' ps' := by
  rcases stand.stuck_or_front with none | ⟨l, after, ts', ahead⟩
  · rw [stuck none] at read
    cases read
  · obtain ⟨piece, ps', same, token, there⟩ := stand.token ahead
    rw [front ahead] at read
    cases found : reads l with
    | none =>
      rw [found] at read
      cases read
    | some b =>
      rw [found] at read
      cases read
      exact ⟨l, piece, ps', same, token, found, there⟩

theorem Spans.terminal {p : Parser α} (reads : Lexeme → Option α) {own : α → Language Spaced}
    (stuck : ∀ {c}, Stuck (Parser.skip c) → p c = .fail)
    (front : ∀ {c l after ts}, Front text (Parser.skip c) l after ts →
      p c = .ofOption after (reads l))
    (each : ∀ l a, reads l = some a → l.alone ≤ own a) :
    Spans text entry p (fun _ => .behind) own := by
  refine .of_reads fun read stand => ?_
  obtain ⟨l, piece, ps', rfl, token, found, there⟩ := stand.terminal read stuck front
  exact ⟨[piece], ps', rfl, there, each l _ found ⟨piece, rfl, congrArg Token.lexeme token⟩⟩

section

variable {w s : String}

theorem spans_keyword (known : w ∈ keywords) :
    Spans text entry (keyword w) (fun _ => .behind) fun _ => word w := by
  refine .terminal _ (fun stuck => stuck.keyword_eq known)
    (fun front => front.keyword_only known) ?_
  intro l u some
  rw [Lexeme.only_eq_some.mp some]

/-- A keyword that is read where the grammar has skipped to is on the line of that place. -/
theorem spans_keywordOn {line : Nat} (known : w ∈ keywords) :
    Spans text (.on line) (keyword w) (fun _ => .behind)
      fun _ => (Lexeme.keyword w).aloneOn line := by
  refine .of_reads fun read stand => ?_
  obtain ⟨l, piece, ps', rfl, token, found, there⟩ := stand.terminal read
    (fun stuck => stuck.keyword_eq known) fun front => front.keyword_only known
  obtain ⟨early, laid, still, same⟩ := stand
  refine ⟨[piece], ps', rfl, there, piece, rfl, ?_⟩
  rw [token, Lexeme.only_eq_some.mp found, still, same]

theorem spans_name : Spans text entry name (fun _ => .behind) fun n => (Lexeme.name n).alone := by
  refine .terminal Lexeme.name? (fun stuck => stuck.name_eq) (fun front => front.name_eq) ?_
  intro l n some
  cases l with
  | name => cases some; exact le_rfl
  | _ => cases some

theorem spans_number :
    Spans text entry number (fun _ => .behind) fun value => (Lexeme.number value).alone := by
  refine .terminal Lexeme.number? (fun stuck => stuck.number_eq) (fun front => front.number_eq) ?_
  intro l value some
  cases l with
  | number => cases some; exact le_rfl
  | _ => cases some

theorem spans_string :
    Spans text entry string (fun _ => .behind) fun text => (Lexeme.string text).alone := by
  refine .terminal Lexeme.string? (fun stuck => stuck.string_eq) (fun front => front.string_eq) ?_
  intro l text some
  cases l with
  | string => cases some; exact le_rfl
  | _ => cases some

theorem spans_operatorOf {ops : List BinaryOp} (guarded : Grammar.Guarded ops) :
    Spans text entry (Grammar.operatorOf ops) (fun _ => .behind) fun op => sign op.symbol := by
  refine .terminal _ (fun stuck => stuck.operatorOf_eq guarded)
    (fun front => front.operatorOf_eq guarded) ?_
  intro l op some
  obtain rfl : l = .symbol op.symbol := by simpa using List.find?_some some
  exact le_rfl

/-! ### Symbols -/

/-- A symbol with what comes next, where a symbol that is cut off a token leads nowhere. -/
theorem Consumes.symbol {exit : α → Footing} {built : α → Language Spaced} (known : s ∈ symbols)
    {f : Unit → Parser α}
    (uncut : ∀ {c l after ts}, Steady text → Front text c l after ts → Cut c.rest s →
      f () (c.advance s.length) = .fail)
    (hf : Consumes text .behind (before * sign s) (f ()) exit built) :
    Consumes text entry before (Parser.symbol s >>= f) exit built where
  reads {c a c' ps} read stand := by
    obtain ⟨u, c₁, first, rest⟩ := bind_eq_ok read
    rcases stand.stuck_or_front with stuck | ⟨l, after, ts', front⟩
    · rw [stuck.symbol_eq known] at first
      cases first
    · obtain ⟨starts, rfl⟩ := symbol_eq_ok first
      rcases front.symbol_or_cut known starts with ⟨rfl, rfl⟩ | cut
      · obtain ⟨piece, ps', rfl, token, there⟩ := stand.token front
        obtain ⟨w, ps'', rfl, there, completes⟩ := hf.reads rest there
        refine ⟨piece :: w, ps'', rfl, there, fun u member => ?_⟩
        rw [List.append_cons]
        exact completes _ (Language.append_mem_mul member
          ⟨piece, rfl, congrArg Token.lexeme token⟩)
      · obtain ⟨early, laid, -⟩ := stand
        rw [uncut laid.steady front cut] at rest
        cases rest

theorem spans_symbol (whole : Whole s) :
    Spans text entry (Parser.symbol s) (fun _ => .behind) fun _ => sign s := by
  intro before
  obtain ⟨known, uncut⟩ := whole.not_cut
  rw [← Parser.bind_pure (Parser.symbol s)]
  exact .symbol known (fun _ _ cut => absurd cut uncut) (.pure le_rfl)

variable {exit : α → Footing} {built : α → Language Spaced} {f : Unit → Parser α}

theorem Consumes.equals (refuses : Grammar.Refuses (f ()))
    (hf : Consumes text .behind (before * sign "=") (f ()) exit built) :
    Consumes text entry before (Parser.symbol "=" >>= f) exit built :=
  .symbol (by decide) (fun _ _ cut => refuses.of_cut_equals cut) hf

theorem Consumes.point (refuses : ∀ {c}, Parser.name c = .fail → f () c = .fail)
    (hf : Consumes text .behind (before * sign ".") (f ()) exit built) :
    Consumes text entry before (Parser.symbol "." >>= f) exit built :=
  .symbol (by decide) (fun _ _ cut => refuses (name_fail_of_cut_point cut)) hf

theorem Consumes.bracket (refuses : Grammar.Refuses (f ()))
    (hf : Consumes text .behind (before * sign "[") (f ()) exit built) :
    Consumes text entry before (Parser.symbol "[" >>= f) exit built :=
  .symbol (by decide) (fun steady front cut => refuses.of_cut_bracket steady front cut) hf

end

end MiniLua

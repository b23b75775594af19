import MiniLua.Proofs.Locating.Sites
import MiniLua.Proofs.Reading.Agreement

/-!
# Every site of a program that was read has a line

Lines are counted from 1. A parser reports a node at a place it has been at or at the line of another
node, so none is left with the line 0, which stands for no line. And it builds no node but those of
the grammar.
-/

namespace MiniLua

open MiniLua.Parser

/-- Every site has a line. -/
def Lined (sites : List Site) : Prop := ∀ n ∈ sites, 1 ≤ n.line

theorem Lined.flatMap {α : Type} {f : α → List Site} {as : List α} (h : ∀ a ∈ as, Lined (f a)) :
    Lined (as.flatMap f) := List.forall_mem_flatMap.mpr h

/-- Every site has a line and is a node of the grammar. -/
def Genuine (sites : List Site) : Prop := ∀ n ∈ sites, 1 ≤ n.line ∧ n.spelled = true

namespace Genuine

variable {sites sites' : List Site} {n : Site}

theorem cons (own : 1 ≤ n.line ∧ n.spelled = true) (h : Genuine sites) : Genuine (n :: sites) :=
  List.forall_mem_cons.mpr ⟨own, h⟩

theorem leaf (own : 1 ≤ n.line ∧ n.spelled = true) : Genuine [n] := cons own nofun

theorem append (h : Genuine sites) (h' : Genuine sites') : Genuine (sites ++ sites') :=
  List.forall_mem_append.mpr ⟨h, h'⟩

theorem flatMap {α : Type} {f : α → List Site} {as : List α} (h : ∀ a ∈ as, Genuine (f a)) :
    Genuine (as.flatMap f) := List.forall_mem_flatMap.mpr h

theorem line {e : Expr} (h : Genuine e.sites) : 1 ≤ e.line := (h _ e.mem_sites).1

theorem exprs {es : List Expr} (h : ∀ e ∈ es, Genuine e.sites) : Genuine (Expr.allSites es) := by
  rw [Expr.allSites_eq]
  exact flatMap h

end Genuine

theorem Cursor.one_le_line_advance {c : Cursor} (h : 1 ≤ c.line) (n : Nat) :
    1 ≤ (c.advance n).line := by
  rw [Cursor.line_advance]
  omega

namespace Parser

variable {α β : Type}

theorem one_le_line_skipComments {c : Cursor} (h : 1 ≤ c.line) : 1 ≤ (skipComments c).line := by
  have several (fuel : Nat) : 1 ≤ (skipCommentsUpTo fuel c).line := by
    induction fuel generalizing c with
    | zero => exact h
    | succ fuel ih =>
      simp only [skipCommentsUpTo]
      split
      · exact h
      · exact ih (Cursor.one_le_line_advance (Cursor.one_le_line_advance h _) _)
  unfold skipComments
  split
  · exact h
  · exact several _

theorem one_le_line_skip {c : Cursor} (h : 1 ≤ c.line) : 1 ≤ (skip c).line :=
  Cursor.one_le_line_advance (one_le_line_skipComments h) _

/-- From a place with a line the parser gives something good and goes to a place with a line. -/
def Gives (good : α → Prop) (p : Parser α) : Prop :=
  ∀ c a c', 1 ≤ c.line → p c = .ok a c' → 1 ≤ c'.line ∧ good a

namespace Gives

variable {good : α → Prop} {good' : β → Prop} {p q : Parser α}

theorem pure {a : α} (h : good a) : Gives good (pure a) := by
  rintro c _ _ placed ⟨⟩
  exact ⟨placed, h⟩

theorem fail : Gives good (Parser.fail : Parser α) := nofun

theorem stop {why : Stop} : Gives good (Parser.stop why : Parser α) := nofun

theorem bind {f : α → Parser β} (h : p.Gives good) (rest : ∀ a, good a → (f a).Gives good') :
    (p >>= f).Gives good' := by
  intro c b c'' placed read
  obtain ⟨a, c', first, later⟩ := bind_eq_ok read
  obtain ⟨placed', fine⟩ := h c a c' placed first
  exact rest a fine c' b c'' placed' later

theorem seqRight {q : Parser β} (hp : p.Gives good) (hq : q.Gives good') : (p *> q).Gives good' :=
  hp.bind fun _ _ => hq

theorem map {f : α → β} (h : p.Gives good) (sends : ∀ a, good a → good' (f a)) :
    (f <$> p).Gives good' := h.bind fun a fine => pure (sends a fine)

theorem orElse (hp : p.Gives good) (hq : q.Gives good) : (p <|> q).Gives good := by
  intro c a c' placed read
  rcases orElse_eq_ok read with first | second
  · exact hp c a c' placed first
  · exact hq c a c' placed second

theorem opt (h : p.Gives good) : (Parser.opt p).Gives fun o => ∀ a ∈ o, good a := by
  intro c o c' placed read
  unfold Parser.opt at read
  split at read
  next a c₁ first =>
    cases read
    obtain ⟨placed', fine⟩ := h c a _ placed first
    exact ⟨placed', by rintro _ ⟨⟩; exact fine⟩
  next =>
    cases read
    exact ⟨one_le_line_skip placed, nofun⟩
  next => cases read

theorem manyAfter (h : p.Gives good) (fuel : Nat) :
    (Parser.manyAfter p fuel).Gives fun as => ∀ a ∈ as, good a := by
  induction fuel with
  | zero => exact pure nofun
  | succ fuel ih =>
    intro c as c' placed read
    simp only [Parser.manyAfter] at read
    split at read
    next =>
      cases read
      exact ⟨placed, nofun⟩
    next => cases read
    next a c₁ first =>
      obtain ⟨placed₁, fine⟩ := h _ a c₁ (one_le_line_skipComments placed) first
      split at read
      next as' c₂ others =>
        cases read
        obtain ⟨placed₂, rest⟩ := ih c₁ as' _ placed₁ others
        exact ⟨placed₂, List.forall_mem_cons.mpr ⟨fine, rest⟩⟩
      next => cases read
      next => cases read

theorem many (h : p.Gives good) : (Parser.many p).Gives fun as => ∀ a ∈ as, good a := by
  intro c as c' placed read
  unfold Parser.many at read
  split at read
  next =>
    cases read
    exact ⟨placed, nofun⟩
  next => cases read
  next a c₁ first =>
    obtain ⟨placed₁, fine⟩ := h c a c₁ placed first
    split at read
    next as' c₂ others =>
      cases read
      obtain ⟨placed₂, rest⟩ := h.manyAfter _ c₁ as' _ placed₁ others
      exact ⟨placed₂, List.forall_mem_cons.mpr ⟨fine, rest⟩⟩
    next => cases read
    next => cases read

/-! ## Places and terminals -/

/-- A place that is known to have a line. -/
abbrev Placed (place : Cursor) : Prop := 1 ≤ place.line

theorem here : Parser.here.Gives Placed := by
  rintro c _ _ placed ⟨⟩
  exact ⟨placed, placed⟩

theorem mark : Parser.mark.Gives Placed := by
  rintro c _ _ placed ⟨⟩
  exact ⟨one_le_line_skipComments placed, one_le_line_skipComments placed⟩

theorem exact : Parser.exact.Gives Placed := by
  rintro c _ _ placed ⟨⟩
  exact ⟨one_le_line_skip placed, one_le_line_skip placed⟩

/-- A terminal goes on from the next place without blanks. -/
theorem terminal (h : ∀ c a c', p c = .ok a c' → ∃ n, c' = (skip c).advance n) :
    p.Gives fun _ => True := by
  intro c a c' placed read
  obtain ⟨n, rfl⟩ := h c a c' read
  exact ⟨Cursor.one_le_line_advance (one_le_line_skip placed) n, trivial⟩

theorem keyword (word : String) : (Parser.keyword word).Gives fun _ => True :=
  terminal fun c a c' read => by
    simp only [Parser.keyword] at read
    split at read
    · cases read
      exact ⟨_, rfl⟩
    · cases read

theorem symbol (text : String) : (Parser.symbol text).Gives fun _ => True :=
  terminal fun c a c' read => by
    simp only [Parser.symbol] at read
    split at read
    · cases read
      exact ⟨_, rfl⟩
    · cases read

theorem name : Parser.name.Gives fun _ => True :=
  terminal fun c a c' read => by
    simp only [Parser.name] at read
    split at read
    · cases read
    · split at read
      · cases read
      · cases read
        exact ⟨_, rfl⟩

theorem number : Parser.number.Gives fun _ => True :=
  terminal fun c a c' read => by
    simp only [Parser.number] at read
    split at read
    · cases read
    · split at read
      · cases read
      · cases read
        exact ⟨_, rfl⟩

theorem string : Parser.string.Gives fun _ => True := by
  refine orElse (terminal fun c a c' read => ?_) (terminal fun c a c' read => ?_)
  · simp only [Parser.shortString] at read
    split at read
    · cases read
    · split at read
      · split at read
        · cases read
        · split at read
          · cases read
          · cases read
            exact ⟨_, rfl⟩
      · cases read
  · simp only [Parser.longString] at read
    split at read
    · cases read
    · split at read
      · cases read
      · cases read
        exact ⟨_, rfl⟩

theorem commaList (h : p.Gives good) : (Parser.commaList p).Gives fun as => ∀ a ∈ as, good a :=
  h.bind fun _ fine => ((symbol ",").bind fun _ _ => h).many.bind fun _ rest =>
    pure (List.forall_mem_cons.mpr ⟨fine, rest⟩)

end Gives

end Parser

/-! ## The grammar -/

namespace Grammar

/-- What the parser gives is genuine throughout. -/
abbrev GenuineExpr (p : Parser Expr) : Prop := p.Gives fun e => Genuine e.sites

abbrev GenuineExprs (p : Parser (List Expr)) : Prop := p.Gives fun es => ∀ e ∈ es, Genuine e.sites

abbrev GenuineField (p : Parser Field) : Prop := p.Gives fun f => Genuine f.sites

abbrev GenuineStmt (p : Parser Stmt) : Prop := p.Gives fun s => Genuine s.sites

abbrev GenuineBlock (p : Parser Block) : Prop := p.Gives fun b => Genuine b.sites

/-! ### Expressions -/

theorem genuine_literal : GenuineExpr literal := by
  refine .bind .exact fun place placed => .orElse ?_ (.orElse ?_ (.orElse ?_ (.orElse ?_ ?_)))
  · exact .seqRight (.keyword _) (.pure (by rw [Expr.sites]; exact .leaf ⟨placed, rfl⟩))
  · exact .seqRight (.keyword _) (.pure (by rw [Expr.sites]; exact .leaf ⟨placed, rfl⟩))
  · exact .seqRight (.keyword _) (.pure (by rw [Expr.sites]; exact .leaf ⟨placed, rfl⟩))
  · exact .bind .number fun value _ => .pure (by rw [Expr.sites]; exact .leaf ⟨placed, rfl⟩)
  · exact .bind .string fun text _ => .pure (by rw [Expr.sites]; exact .leaf ⟨placed, rfl⟩)

theorem genuine_nameRef : GenuineExpr nameRef := by
  refine .bind .mark fun place placed => .bind .name fun n _ => .pure ?_
  rw [Expr.sites]
  exact .leaf ⟨placed, rfl⟩

theorem genuine_functionBody {block : Parser Block} (body : GenuineBlock block) :
    (functionBody block).Gives fun b => Genuine b.2.sites :=
  .bind (.symbol _) fun _ _ => .bind (.opt (.commaList .name)) fun _ _ =>
    .bind (.symbol _) fun _ _ => .bind body fun _ lined => .bind (.keyword _) fun _ _ => .pure lined

theorem genuine_functionExpr {block : Parser Block} (body : GenuineBlock block) :
    GenuineExpr (functionExpr block) := by
  refine .bind .exact fun place placed => .bind (.keyword _) fun _ _ =>
    .bind (genuine_functionBody body) fun b lined => .pure ?_
  rw [Expr.sites, Lambda.sites]
  exact .cons ⟨placed, rfl⟩ lined

section

variable {expression : Parser Expr} (operand : GenuineExpr expression)

include operand

theorem genuine_expressionList : GenuineExprs (expressionList expression) :=
  .bind .exact fun _ _ => .commaList operand

theorem genuine_bracketField : GenuineField (bracketField expression) := by
  refine .bind .exact fun place placed => .bind (.symbol _) fun _ _ => .bind operand fun key first =>
    .bind (.symbol _) fun _ _ => .bind (.symbol _) fun _ _ => .bind operand fun value second =>
    .pure ?_
  rw [Field.sites]
  exact .cons ⟨placed, rfl⟩ (first.append second)

theorem genuine_namedField : GenuineField (namedField expression) := by
  refine .bind .mark fun place placed => .bind .name fun n _ => .bind (.symbol _) fun _ _ =>
    .bind operand fun value lined => .pure ?_
  rw [Field.sites, Expr.sites]
  exact .cons ⟨placed, rfl⟩ (.append (.leaf ⟨placed, rfl⟩) lined)

theorem genuine_positionalField : GenuineField (positionalField expression) := by
  refine .bind .exact fun place placed => .bind operand fun value lined => .pure ?_
  rw [Field.sites]
  exact .cons ⟨placed, rfl⟩ lined

theorem genuine_field : GenuineField (field expression) :=
  .orElse (genuine_bracketField operand)
    (.orElse (genuine_namedField operand) (genuine_positionalField operand))

omit operand in
theorem gives_fieldSeparator : fieldSeparator.Gives fun _ => True :=
  .orElse (.symbol _) (.symbol _)

theorem genuine_fieldList : (fieldList expression).Gives fun fs => ∀ f ∈ fs, Genuine f.sites :=
  .bind (genuine_field operand) fun _ first =>
    .bind (.many (.bind gives_fieldSeparator fun _ _ => genuine_field operand)) fun _ rest =>
    .bind (.opt gives_fieldSeparator) fun _ _ => .pure (List.forall_mem_cons.mpr ⟨first, rest⟩)

theorem genuine_tableConstructor : GenuineExpr (tableConstructor expression) := by
  refine .bind .exact fun place placed => .bind (.symbol _) fun _ _ =>
    .bind (.opt (genuine_fieldList operand)) fun fields lined => .bind (.symbol _) fun _ _ => .pure ?_
  rw [Expr.sites, Field.allSites_eq]
  refine .cons ⟨placed, rfl⟩ (.flatMap ?_)
  cases fields with
  | none => exact nofun
  | some fields => exact lined fields rfl

theorem genuine_parenExpr : GenuineExpr (parenExpr expression) := by
  refine .bind .exact fun place placed => .bind (.symbol _) fun _ _ =>
    .bind operand fun inner lined => .bind (.symbol _) fun _ _ => .pure ?_
  rw [Expr.sites]
  exact .cons ⟨placed, rfl⟩ lined

theorem genuine_parenArgs : GenuineExprs (parenArgs expression) := by
  refine .bind (.symbol _) fun _ _ => .bind (.opt (genuine_expressionList operand)) fun args lined =>
    .bind (.symbol _) fun _ _ => .pure ?_
  cases args with
  | none => exact nofun
  | some args => exact lined args rfl

omit operand in
theorem genuine_stringArg : GenuineExprs stringArg := by
  refine .bind .exact fun place placed => .bind .string fun text _ => .pure ?_
  refine List.forall_mem_singleton.mpr ?_
  rw [Expr.sites]
  exact .leaf ⟨placed, rfl⟩

theorem genuine_callArgs : GenuineExprs (callArgs expression) :=
  .orElse (genuine_parenArgs operand) (.orElse
    (.bind (genuine_tableConstructor operand) fun _ lined =>
      .pure (List.forall_mem_singleton.mpr lined))
    genuine_stringArg)

/-- The expression that a suffix makes of a genuine one is genuine. -/
def Suffix.KeepsGenuine (s : Suffix) : Prop :=
  ∀ head : Expr, Genuine head.sites → Genuine (s.apply head).sites

theorem genuine_indexSuffix : (indexSuffix expression).Gives Suffix.KeepsGenuine := by
  refine .bind .exact fun place placed => .bind (.symbol _) fun _ _ =>
    .bind operand fun key lined => .bind (.symbol _) fun _ _ => .pure fun head fine => ?_
  rw [Suffix.apply, Expr.sites]
  exact .cons ⟨placed, rfl⟩ (fine.append lined)

omit operand in
theorem genuine_fieldSuffix : fieldSuffix.Gives Suffix.KeepsGenuine := by
  refine .bind .exact fun place placed => .bind (.symbol _) fun _ _ => .bind .name fun n _ =>
    .pure fun head fine => ?_
  rw [Suffix.apply, Expr.sites, Expr.sites]
  exact .cons ⟨placed, rfl⟩ (fine.append (.leaf ⟨placed, rfl⟩))

theorem genuine_callSuffix : (callSuffix expression).Gives Suffix.KeepsGenuine := by
  refine .bind .here fun place placed => .bind (genuine_callArgs operand) fun args lined =>
    .pure fun head fine => ?_
  rw [Suffix.apply, Expr.sites, Call.sites]
  exact .cons ⟨placed, rfl⟩ (fine.append (.exprs lined))

theorem genuine_suffix : (suffix expression).Gives Suffix.KeepsGenuine :=
  .orElse (genuine_indexSuffix operand) (.orElse genuine_fieldSuffix (genuine_callSuffix operand))

omit operand in
/-- A left fold is genuine if its step is. -/
theorem genuine_foldl {α : Type} {f : Expr → α → Expr} {as : List α}
    (step : ∀ a ∈ as, ∀ e : Expr, Genuine e.sites → Genuine (f e a).sites) {e : Expr}
    (h : Genuine e.sites) : Genuine (as.foldl f e).sites :=
  List.foldlRecOn as f h fun e fine a member => step a member e fine

theorem genuine_prefixExpr : GenuineExpr (prefixExpr expression) := by
  refine .bind (.orElse genuine_nameRef (genuine_parenExpr operand)) fun head fine =>
    .bind (.many (genuine_suffix operand)) fun suffixes lines => .pure ?_
  exact genuine_foldl (fun s member e => lines s member e) fine

theorem genuine_simpleExpr {block : Parser Block} (body : GenuineBlock block) :
    GenuineExpr (simpleExpr expression block) :=
  .orElse genuine_literal (.orElse (genuine_functionExpr body)
    (.orElse (genuine_tableConstructor operand) (genuine_prefixExpr operand)))

/-! ### Operators -/

omit operand in
theorem genuine_binaryAt {left right : Expr} {op : BinaryOp} (h : Genuine left.sites)
    (h' : Genuine right.sites) : Genuine (binaryAt left op right).sites := by
  rw [binaryAt, Expr.sites]
  exact .cons ⟨h.line, rfl⟩ (h.append h')

omit operand in
theorem gives_operatorOf (ops : List BinaryOp) : (operatorOf ops).Gives fun _ => True := by
  induction ops with
  | nil => exact .fail
  | cons op ops ih => exact .orElse (.seqRight (.symbol _) (.pure trivial)) ih

theorem genuine_leftLevel (ops : List BinaryOp) : GenuineExpr (leftLevel ops expression) := by
  have step : Gives (fun pair : BinaryOp × Expr => Genuine pair.2.sites)
      (do
        let op ← operatorOf ops
        let right ← expression
        return (op, right)) :=
    .bind (gives_operatorOf ops) fun _ _ => .bind operand fun _ lined => .pure lined
  refine .bind operand fun first fine => .bind step.many fun rest lined => .pure ?_
  exact genuine_foldl (fun pair member e fine => genuine_binaryAt fine (lined pair member)) fine

omit operand in
theorem genuine_concatChain {first : Expr} (h : Genuine first.sites) {rest : List Expr}
    (lined : ∀ e ∈ rest, Genuine e.sites) : Genuine (concatChain first rest).sites := by
  induction rest generalizing first with
  | nil => exact h
  | cons second rest ih =>
    obtain ⟨fine, others⟩ := List.forall_mem_cons.mp lined
    exact genuine_binaryAt h (ih fine others)

theorem genuine_concatLevel : GenuineExpr (concatLevel expression) :=
  .bind operand fun _ fine => .bind (.many (.bind (.symbol _) fun _ _ => operand)) fun _ lined =>
    .pure (genuine_concatChain fine lined)

theorem genuine_logicalLevel (op : Connective) : GenuineExpr (logicalLevel op expression) := by
  refine .bind operand fun first fine =>
    .bind (.many (.bind (.keyword _) fun _ _ => operand)) fun rest lined => .pure ?_
  refine genuine_foldl (fun right member left fine => ?_) fine
  rw [Expr.sites]
  exact .cons ⟨fine.line, rfl⟩ (fine.append (lined right member))

theorem genuine_expressionOf : GenuineExpr (expressionOf expression) :=
  genuine_logicalLevel (genuine_logicalLevel (genuine_leftLevel (genuine_concatLevel
    (genuine_leftLevel (genuine_leftLevel operand _) _)) _) _) _

theorem genuine_powerExpr {simple : Parser Expr} (base : GenuineExpr simple) :
    GenuineExpr (powerExpr simple expression) := by
  refine .bind base fun base fine => .bind (.opt (.seqRight (.symbol _) operand))
    fun exponent lined => ?_
  cases exponent with
  | none => exact .pure fine
  | some exponent => exact .pure (genuine_binaryAt fine (lined exponent rfl))

omit operand in
theorem gives_unaryOperator : unaryOperator.Gives fun _ => True :=
  .orElse (.seqRight (.keyword _) (.pure trivial)) (.orElse
    (.seqRight (.symbol _) (.pure trivial)) (.seqRight (.symbol _) (.pure trivial)))

theorem genuine_unaryOf {block : Parser Block} (body : GenuineBlock block) :
    GenuineExpr (unaryOf expression block) := by
  refine .orElse ?_ (genuine_powerExpr operand (genuine_simpleExpr (genuine_expressionOf operand) body))
  refine .bind .exact fun place placed => .bind gives_unaryOperator fun op _ =>
    .bind operand fun e lined => .pure ?_
  rw [Expr.sites]
  exact .cons ⟨placed, rfl⟩ lined

end

/-! ### Statements -/

theorem genuine_dottedTarget {line : Nat} (h : 1 ≤ line) (first : String) (rest : List String) :
    Genuine (dottedTarget line first rest).sites := by
  unfold dottedTarget
  split
  · rw [Target.sites]
    exact .leaf ⟨h, rfl⟩
  · rw [Target.sites, Expr.sites]
    refine .cons ⟨h, rfl⟩ (.append (genuine_foldl (fun part _ e fine => ?_) ?_) (.leaf ⟨h, rfl⟩))
    · rw [Expr.sites, Expr.sites]
      exact .cons ⟨h, rfl⟩ (fine.append (.leaf ⟨h, rfl⟩))
    · rw [Expr.sites]
      exact .leaf ⟨h, rfl⟩

section

variable {block : Parser Block} (body : GenuineBlock block)

include body

theorem genuine_localFunction : GenuineStmt (localFunction block) := by
  refine .bind .exact fun place placed => .bind (.keyword _) fun _ _ => .bind (.keyword _) fun _ _ =>
    .bind .name fun n _ => .bind (genuine_functionBody body) fun b lined => .pure ?_
  rw [Stmt.sites, namedLambda, Lambda.sites]
  exact .cons ⟨placed, rfl⟩ lined

theorem genuine_functionDecl : GenuineStmt (functionDecl block) := by
  refine .bind .exact fun place placed => .bind (.keyword _) fun _ _ => .bind .name fun first _ =>
    .bind (.many (.seqRight (.symbol _) .name)) fun rest _ =>
    .bind (genuine_functionBody body) fun b lined => .pure ?_
  rw [Stmt.sites, namedLambda, Lambda.sites]
  exact .cons ⟨placed, rfl⟩ (.append (genuine_dottedTarget placed first rest) lined)

theorem genuine_doBlock : GenuineStmt (doBlock block) := by
  refine .bind .exact fun place placed => .bind (.keyword _) fun _ _ => .bind body fun b lined =>
    .bind (.keyword _) fun _ _ => .pure ?_
  rw [Stmt.sites]
  exact .cons ⟨placed, rfl⟩ lined

variable {expression : Parser Expr} (operand : GenuineExpr expression)

include operand

theorem genuine_whileLoop : GenuineStmt (whileLoop expression block) := by
  refine .bind .exact fun place placed => .bind (.keyword _) fun _ _ =>
    .bind operand fun condition first => .bind (.keyword _) fun _ _ => .bind body fun b second =>
    .bind (.keyword _) fun _ _ => .pure ?_
  rw [Stmt.sites]
  exact .cons ⟨placed, rfl⟩ (first.append second)

theorem genuine_clauseAfter (word : String) :
    (clauseAfter expression block word).Gives fun c => Genuine c.sites := by
  refine .bind (.keyword _) fun _ _ => .bind operand fun condition first =>
    .bind (.keyword _) fun _ _ => .bind body fun b second => .pure ?_
  rw [Clause.sites]
  exact first.append second

theorem genuine_branch : GenuineStmt (branch expression block) := by
  have clause := genuine_clauseAfter body operand
  refine .bind .exact fun place placed => .bind (clause _) fun first fine =>
    .bind (.many (clause _)) fun rest lined =>
    .bind (.opt (.seqRight (.keyword _) body)) fun otherwise last => .bind (.keyword _) fun _ _ =>
    .pure ?_
  have clauses : Genuine (Clause.allSites (first :: rest)) := by
    rw [Clause.allSites_eq]
    exact .flatMap (List.forall_mem_cons.mpr ⟨fine, lined⟩)
  cases otherwise with
  | none =>
    rw [Stmt.sites]
    exact .cons ⟨placed, rfl⟩ clauses
  | some b =>
    rw [Stmt.sites]
    exact .cons ⟨placed, rfl⟩ (clauses.append (last b rfl))

theorem genuine_numericFor : GenuineStmt (numericFor expression block) := by
  refine .bind .exact fun place placed => .bind (.keyword _) fun _ _ => .bind .name fun n _ =>
    .bind (.symbol _) fun _ _ => .bind operand fun start first => .bind (.symbol _) fun _ _ =>
    .bind operand fun stop second =>
    .bind (.opt (.seqRight (.symbol _) operand)) fun step third => .bind (.keyword _) fun _ _ =>
    .bind body fun b last => .bind (.keyword _) fun _ _ => .pure ?_
  cases step with
  | none =>
    rw [Stmt.sites]
    exact .cons ⟨placed, rfl⟩ (first.append (second.append last))
  | some step =>
    rw [Stmt.sites]
    exact .cons ⟨placed, rfl⟩ (first.append (second.append (.append (third step rfl) last)))

theorem genuine_genericFor : GenuineStmt (genericFor expression block) := by
  refine .bind .exact fun place placed => .bind (.keyword _) fun _ _ =>
    .bind (.commaList .name) fun names _ => .bind (.keyword _) fun _ _ =>
    .bind (genuine_expressionList operand) fun values first => .bind (.keyword _) fun _ _ =>
    .bind body fun b second => .bind (.keyword _) fun _ _ => .pure ?_
  rw [Stmt.sites]
  exact .cons ⟨placed, rfl⟩ (.append (.exprs first) second)

omit body operand in
theorem genuine_breakLoop : GenuineStmt breakLoop := by
  refine .bind .exact fun place placed => .bind (.keyword _) fun _ _ => .pure ?_
  rw [Stmt.sites]
  exact .leaf ⟨placed, rfl⟩

omit body

theorem genuine_initialisers :
    (initialisers expression).Gives fun values => ∀ es ∈ values, ∀ e ∈ es, Genuine e.sites :=
  .opt (.seqRight (.symbol _) (genuine_expressionList operand))

theorem genuine_localVars : GenuineStmt (localVars expression) := by
  refine .bind .exact fun place placed => .bind (.keyword _) fun _ _ =>
    .bind (.commaList .name) fun names _ => .bind (genuine_initialisers operand) fun values lined =>
    .pure ?_
  rw [Stmt.sites]
  refine .cons ⟨placed, rfl⟩ (.exprs ?_)
  cases values with
  | none => exact nofun
  | some es => exact lined es rfl

omit operand in
theorem sites_of_mapM_toTarget? {es : List Expr} {ts : List Target}
    (h : es.mapM Expr.toTarget? = some ts) : Target.allSites ts = Expr.allSites es := by
  rw [Expr.eq_map_toExpr h, Target.allSites_eq, Expr.allSites_eq, List.flatMap_map]
  exact congrArg ts.flatMap (funext fun t => t.sites_toExpr.symm)

omit operand in
theorem genuine_toStatement? {heads : List Expr} {values : Option (List Expr)} {line : Nat} {s : Stmt}
    (h : toStatement? heads values line = some s) (placed : 1 ≤ line)
    (first : ∀ e ∈ heads, Genuine e.sites) (second : ∀ es ∈ values, ∀ e ∈ es, Genuine e.sites) :
    Genuine s.sites := by
  unfold toStatement? at h
  split at h
  next values =>
    obtain ⟨targets, found, rfl⟩ := Option.map_eq_some_iff.mp h
    rw [Stmt.sites, sites_of_mapM_toTarget? found]
    exact .cons ⟨placed, rfl⟩ (.append (.exprs first) (.exprs (second values rfl)))
  next =>
    split at h
    next head =>
      obtain ⟨call, found, rfl⟩ := Option.map_eq_some_iff.mp h
      cases head with
      | call c =>
        cases found
        have lined := List.forall_mem_singleton.mp first
        rw [Expr.sites] at lined
        rw [Stmt.sites]
        exact .cons ⟨placed, rfl⟩ lined
      | _ => cases found
    next => cases h

theorem genuine_expressionStatement : GenuineStmt (expressionStatement expression) := by
  refine .bind .mark fun place placed =>
    .bind (.commaList (genuine_prefixExpr operand)) fun heads first =>
    .bind (genuine_initialisers operand) fun values second => ?_
  cases found : toStatement? heads values place.line with
  | none => exact .stop
  | some s => exact .pure (genuine_toStatement? found placed first second)

theorem genuine_returnValues : GenuineStmt (returnValues expression) := by
  refine .bind .exact fun place placed => .bind (.keyword _) fun _ _ =>
    .bind (.opt (genuine_expressionList operand)) fun values lined =>
    .bind (.opt (.symbol _)) fun _ _ => .pure ?_
  rw [Stmt.sites]
  refine .cons ⟨placed, rfl⟩ (.exprs ?_)
  cases values with
  | none => exact nofun
  | some es => exact lined es rfl

include body

theorem genuine_statement :
    (statement expression block).Gives fun s => ∀ s' ∈ s, Genuine s'.sites := by
  have several : GenuineStmt (localFunction block <|> localVars expression <|> functionDecl block <|>
      doBlock block <|> whileLoop expression block <|> branch expression block <|>
      numericFor expression block <|> genericFor expression block <|> breakLoop <|>
      expressionStatement expression) :=
    .orElse (genuine_localFunction body) <| .orElse (genuine_localVars operand) <|
      .orElse (genuine_functionDecl body) <| .orElse (genuine_doBlock body) <|
      .orElse (genuine_whileLoop body operand) <| .orElse (genuine_branch body operand) <|
      .orElse (genuine_numericFor body operand) <| .orElse (genuine_genericFor body operand) <|
      .orElse genuine_breakLoop (genuine_expressionStatement operand)
  refine .orElse (.seqRight (.symbol _) (.pure nofun)) (several.map fun s lined => ?_)
  rintro _ ⟨⟩
  exact lined

theorem genuine_blockOf : GenuineBlock (blockOf expression block) := by
  refine .bind .mark fun place _ => .bind (.many (genuine_statement body operand))
    fun statements lined => .bind (.opt (genuine_returnValues operand)) fun last fine => .pure ?_
  rw [Block.sites, Stmt.allSites_eq]
  refine .flatMap (List.forall_mem_append.mpr ⟨fun s member => ?_, fun s member => ?_⟩)
  · exact lined (some s) (List.reduceOption_mem_iff.mp member) s rfl
  · exact fine s (Option.mem_toList.mp member)

end

/-! ### The whole grammar -/

theorem genuine_unary_block (depth : Nat) :
    GenuineExpr (unary depth) ∧ GenuineBlock (Grammar.block depth) := by
  induction depth with
  | zero => exact ⟨.fail, .fail⟩
  | succ depth ih =>
    obtain ⟨nested, body⟩ := ih
    rw [unary, Grammar.block]
    exact ⟨genuine_unaryOf nested body, genuine_blockOf body (genuine_expressionOf nested)⟩

end Grammar

/-- Every site of a program that was read has a line and is a node of the grammar. -/
theorem genuine_parseProgram {text : List Char} {program : Block}
    (h : parseProgram text = .ok program) : Genuine program.sites := by
  obtain ⟨_, c, -, read, -⟩ := parseProgram_eq_ok h
  exact ((Grammar.genuine_unary_block _).2 _ program c le_rfl read).2

end MiniLua

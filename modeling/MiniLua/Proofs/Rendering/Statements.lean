import Mathlib.Data.List.ReduceOption
import MiniLua.Proofs.Rendering.Expressions

/-!
# Statements and blocks are read back

A statement is told apart by its keyword, or is an assignment or a call if it has none. Two kinds
start with `local` and two with `for`, and the first of each is given up at the next token but one.
-/

namespace MiniLua

open MiniLua.Parser MiniLua.Grammar

namespace Grammar

variable {expression : Parser Expr} {block : Parser Block}

/-- The statements that start with a keyword, in the order they are tried, each with its keyword. -/
def keyworded (expression : Parser Expr) (block : Parser Block) : List (String × Parser Stmt) :=
  [("local", localFunction block), ("local", localVars expression),
    ("function", functionDecl block), ("do", doBlock block),
    ("while", whileLoop expression block), ("if", branch expression block),
    ("for", numericFor expression block), ("for", genericFor expression block),
    ("break", breakLoop)]

theorem statement_eq : statement expression block = ((symbol ";" *> pure none) <|>
    (some <$> (keyworded expression block).foldr (fun a others => a.2 <|> others)
      (expressionStatement expression))) := by
  simp only [statement, keyworded, List.foldr_cons, List.foldr_nil]

end Grammar

variable {size : Nat} {expression : Parser Expr} {block : Parser Block} {w rest : List Lexeme}

theorem rejects_keyworded {a : String × Parser Stmt} (member : a ∈ keyworded expression block)
    (other : w.head? ≠ some (.keyword a.1)) : Rejects a.2 w := by
  simp only [keyworded, List.mem_cons, List.not_mem_nil, or_false] at member
  rcases member with rfl | rfl | rfl | rfl | rfl | rfl | rfl | rfl | rfl
  case inr.inr.inr.inr.inr.inl =>
    exact .exact fun _ => Rejects.bind ((rejects_keyword (by simp [keywords]) other).bind _) _
  all_goals exact .exact fun _ => (rejects_keyword (by simp [keywords]) other).bind _

/-- What comes after alternatives that are given up is read. -/
theorem yields_foldr_of_rejects {earlier : List (String × Parser Stmt)} {p : Parser Stmt} {s : Stmt}
    (rejected : ∀ a ∈ earlier, Rejects a.2 w) (read : Yields p Stmt.erase s w rest) :
    Yields (earlier.foldr (fun a others => a.2 <|> others) p) Stmt.erase s w rest := by
  induction earlier with
  | nil => exact read
  | cons a earlier ih =>
    exact .right (rejected a List.mem_cons_self)
      (ih fun b member => rejected b (List.mem_cons_of_mem a member))

theorem statement_of_alternatives {s : Stmt} (other : w.head? ≠ some (.symbol ";"))
    (read : Yields ((keyworded expression block).foldr (fun a others => a.2 <|> others)
      (expressionStatement expression)) Stmt.erase s w rest) :
    Yields (statement expression block) (Option.map Stmt.erase) (some s) w rest := by
  rw [statement_eq]
  exact .right ((rejects_symbol (by decide) other).bind _)
    (read.map fun s' same => congrArg some same)

/-- A statement with a keyword is read if the earlier ones with that keyword are given up. -/
theorem statement_of_keyworded {before after : List (String × Parser Stmt)} {word : String}
    {p : Parser Stmt} {s : Stmt} (split : keyworded expression block = before ++ (word, p) :: after)
    (earlier : ∀ a ∈ before, a.1 = word → Rejects a.2 (.keyword word :: w))
    (read : Yields p Stmt.erase s (.keyword word :: w) rest) :
    Yields (statement expression block) (Option.map Stmt.erase) (some s)
      (.keyword word :: w) rest := by
  have rejected : ∀ a ∈ before, Rejects a.2 (.keyword word :: w) := by
    intro a member
    by_cases same : a.1 = word
    · exact earlier a member same
    · refine rejects_keyworded (split ▸ List.mem_append_left _ member) fun head => same ?_
      cases head
      rfl
  refine statement_of_alternatives (by simp) ?_
  rw [split, List.foldr_append]
  exact yields_foldr_of_rejects rejected read.left

/-- An assignment or a call is read where no keyword stands. -/
theorem statement_of_head {l : Lexeme} (first : l = .symbol "(" ∨ ∃ n, l = .name n) {s : Stmt}
    (read : Yields (expressionStatement expression) Stmt.erase s (l :: w) rest) :
    Yields (statement expression block) (Option.map Stmt.erase) (some s) (l :: w) rest := by
  refine statement_of_alternatives ?_ (yields_foldr_of_rejects (fun a member => ?_) read)
  · rcases first with rfl | ⟨n, rfl⟩ <;> simp
  · refine rejects_keyworded member ?_
    rcases first with rfl | ⟨n, rfl⟩ <;> simp

theorem statement_of_leads {e : Expr} (head : e.isHead = true) (wellFormed : e.wellFormed = true)
    {s : Stmt} (read : Yields (expressionStatement expression) Stmt.erase s (e.tokens ++ w) rest) :
    Yields (statement expression block) (Option.map Stmt.erase) (some s) (e.tokens ++ w) rest := by
  obtain ⟨l, tail, leads⟩ := Expr.leads wellFormed
  rw [leads.tokens, List.cons_append] at read ⊢
  exact statement_of_head (leads.head head) read

/-- No statement starts where a block ends or returns. -/
theorem rejects_statement (closed : ∀ l, w.head? = some l →
      l ∈ [Lexeme.keyword "end", .keyword "else", .keyword "elseif", .keyword "return"]) :
    Rejects (statement expression block) w := by
  have other : ∀ l, l ∉ [Lexeme.keyword "end", .keyword "else", .keyword "elseif",
      .keyword "return"] → w.head? ≠ some l := fun l starts head => starts (closed l head)
  have unkeyed : ∀ a ∈ keyworded expression block, Rejects a.2 w := by
    intro a member
    refine rejects_keyworded member (other _ ?_)
    simp only [keyworded, List.mem_cons, List.not_mem_nil, or_false] at member
    rcases member with rfl | rfl | rfl | rfl | rfl | rfl | rfl | rfl | rfl <;> simp
  have unnamed : Rejects (expressionStatement expression) w := by
    refine .mark fun _ => Rejects.bind (Rejects.bind (Rejects.bind (.orElse ?_ ?_) _) _) _
    · exact rejects_nameRef fun _ => other _ (by simp)
    · exact .exact fun _ => (rejects_symbol (by decide) (other _ (by simp))).bind _
  rw [statement_eq]
  refine .orElse ((rejects_symbol (by decide) (other _ (by simp))).bind _) (.map ?_ _)
  generalize keyworded expression block = alternatives at unkeyed
  induction alternatives with
  | nil => exact unnamed
  | cons a alternatives ih =>
    exact .orElse (unkeyed a List.mem_cons_self)
      (ih fun b member => unkeyed b (List.mem_cons_of_mem a member))

/-! ## Dotted names -/

/-- A name and the fields reached from it by names. -/
theorem Expr.erase_of_parts? {e : Expr} {parts : List String} (h : e.parts? = some parts) :
    ∃ first others, parts = first :: others ∧ e.erase =
      others.foldl (fun (e : Expr) part => .index e (.string part 0) 0) (.name first 0) := by
  match e with
  | .name n _ =>
    cases h
    exact ⟨n, [], rfl, rfl⟩
  | .index target (.string field _) _ =>
    rw [Expr.parts?, Option.map_eq_some_iff] at h
    obtain ⟨parts, inside, rfl⟩ := h
    obtain ⟨first, others, rfl, same⟩ := erase_of_parts? inside
    refine ⟨first, others ++ [field], rfl, ?_⟩
    rw [Expr.erase, same, List.foldl_concat]
    rfl

theorem dottedTarget_concat (line : Nat) (first last : String) (before : List String) :
    dottedTarget line first (before ++ [last]) =
      .index (before.foldl (fun (e : Expr) part => .index e (.string part line) line)
        (.name first line)) (.string last line) line := by
  simp [dottedTarget]

theorem Target.erase_of_parts? {t : Target} {parts : List String} (h : t.parts? = some parts) :
    ∃ first others, parts = first :: others ∧ t.erase = dottedTarget 0 first others := by
  cases t with
  | name n =>
    cases h
    exact ⟨n, [], rfl, rfl⟩
  | index target key line =>
    cases key with
    | string field =>
      rw [Target.parts?, Target.toExpr, Expr.parts?, Option.map_eq_some_iff] at h
      obtain ⟨parts, inside, rfl⟩ := h
      obtain ⟨first, others, rfl, same⟩ := Expr.erase_of_parts? inside
      refine ⟨first, others ++ [field], rfl, ?_⟩
      rw [dottedTarget_concat, Target.erase, same]
      rfl
    | _ => cases h

theorem erase_namedLambda_of_wellFormed {f : Lambda} {parts : List String} {line : Nat}
    {body : List String × Block} (named : f.name = some (".".intercalate parts))
    (same : body.map id Block.erase = (f.params, f.body.erase)) :
    (namedLambda parts line body).erase = f.erase := by
  rw [erase_namedLambda, same]
  cases f
  cases named
  rw [namedLambda, Lambda.erase]
  rfl

/-! ## Tokens of statements -/

theorem Stmt.tokens_ne_nil (s : Stmt) (wellFormed : s.wellFormed = true) : s.tokens ≠ [] := by
  cases s with
  | localVars names values line => cases values <;> exact List.cons_ne_nil _ _
  | assign targets values line =>
    rw [Stmt.tokens]
    exact List.append_ne_nil_of_right_ne_nil _ (List.cons_ne_nil _ _)
  | call c line =>
    cases c
    rw [Stmt.tokens, Call.tokens]
    exact List.append_ne_nil_of_right_ne_nil _ (List.cons_ne_nil _ _)
  | branch clauses otherwise line =>
    cases clauses with
    | nil => cases otherwise <;> simp at wellFormed
    | cons => cases otherwise <;> exact List.cons_ne_nil _ _
  | numericFor n start stop step body line => cases step <;> exact List.cons_ne_nil _ _
  | other => simp at wellFormed
  | _ => exact List.cons_ne_nil _ _

theorem Stmt.listTokens_append (ss ss' : List Stmt) :
    Stmt.listTokens (ss ++ ss') = Stmt.listTokens ss ++ Stmt.listTokens ss' := by
  rw [Stmt.listTokens_eq, Stmt.listTokens_eq, Stmt.listTokens_eq, List.flatMap_append]

/-- Only the last statement of a block may be a `return`. -/
theorem Block.exists_last {ss : List Stmt} {line : Nat}
    (wellFormed : (Block.mk ss line).wellFormed = true) :
    ∃ before last, ss = before ++ Option.toList last ∧ (∀ s ∈ before, s.isReturn = false) ∧
      ∀ s, last = some s → ∃ values line, s = .returnValues values line := by
  simp only [Block.wellFormed, Bool.and_eq_true, List.all_eq_true, Bool.not_eq_true'] at wellFormed
  replace wellFormed := wellFormed.1
  rcases List.eq_nil_or_concat ss with rfl | ⟨before, s, rfl⟩
  · exact ⟨[], none, rfl, by simp, by simp⟩
  rw [List.concat_eq_append] at wellFormed ⊢
  rw [List.dropLast_concat] at wellFormed
  cases returns : s.isReturn with
  | false =>
    refine ⟨before ++ [s], none, by simp, fun s' member => ?_, by simp⟩
    rcases List.mem_append.mp member with earlier | here
    · exact wellFormed s' earlier
    · obtain rfl := List.mem_singleton.mp here
      exact returns
  | true =>
    refine ⟨before, some s, rfl, wellFormed, ?_⟩
    rintro _ ⟨⟩
    cases s with
    | returnValues values line => exact ⟨values, line, rfl⟩
    | _ => cases returns

/-- Of statements and the semicolons after them only the statements count. -/
theorem reduceOption_separated (ss : List Stmt) :
    (ss.flatMap fun s => [some s.erase, none]).reduceOption = ss.map Stmt.erase := by
  induction ss with
  | nil => rfl
  | cons s ss ih => simp [ih]

/-! ### Targets and calls -/

theorem Target.tokens_toExpr (t : Target) : t.toExpr.tokens = t.tokens := by
  cases t <;> rfl

theorem Target.wellFormed_toExpr (t : Target) : t.toExpr.wellFormed = t.wellFormed := by
  cases t <;> rfl

theorem Target.isHead_toExpr (t : Target) : t.toExpr.isHead = true := by
  cases t <;> rfl

theorem toStatement?_targets (targets : List Target) (values : List Expr) (line : Nat) :
    toStatement? (targets.map fun t => t.toExpr.erase) (some values) line =
      some (.assign (Target.eraseAll targets) values line) := by
  have stores : (targets.map fun t => t.toExpr.erase).mapM Expr.toTarget? =
      some (Target.eraseAll targets) := by
    induction targets with
    | nil => rfl
    | cons t targets ih =>
      rw [List.map_cons, List.mapM_cons, ih, ← Target.erase_toExpr, Target.toTarget_toExpr]
      rfl
  rw [toStatement?, stores]
  rfl

/-- A statement that stands for what was read is given back. -/
theorem yields_toStatement? {found : Option Stmt} {s : Stmt} {place : Cursor}
    (same : found.map Stmt.erase = some s) :
    Yields (match found with
      | some statement => return statement
      | none => stop (.notStatement place)) Stmt.erase s w w := by
  obtain ⟨s', rfl, read⟩ := Option.map_eq_some_iff.mp same
  exact .pure read

theorem no_initialisers (refuses : Refuses expression)
    (other : rest.head? ≠ some (.symbol "=")) :
    Yields (Grammar.initialisers expression) (Option.map Expr.eraseAll) none rest rest :=
  .opt_none (.equals refuses.expressionList other)

namespace Inner

variable (inner : Inner size expression block)

include inner

/-! ## Declarations -/

theorem localFunction {n : String} {f : Lambda} {line : Nat}
    (wellFormed : (Stmt.localFunction n f line).wellFormed = true)
    (short : (Stmt.localFunction n f line).tokens.length ≤ size) :
    Yields (Grammar.localFunction block) Stmt.erase (Stmt.localFunction n f line).erase
      ((Stmt.localFunction n f line).tokens ++ rest) rest := by
  simp only [Stmt.wellFormed, Bool.and_eq_true, decide_eq_true_eq] at wellFormed
  simp only [Stmt.tokens, List.length_cons] at short
  refine .exact fun _ => (yields_keyword (by simp [keywords])).bind fun _ _ =>
    (yields_keyword (by simp [keywords])).bind fun _ _ => yields_name.bind fun n' same => ?_
  obtain rfl : n' = n := same
  refine (inner.functionBody wellFormed.1 (by omega)).bind fun body same => .pure ?_
  rw [Stmt.erase, Stmt.erase, erase_namedLambda_of_wellFormed wellFormed.2 same]

theorem initialisers {es : List Expr} (some : es ≠ []) (wellFormed : Expr.allWellFormed es = true)
    (short : (Expr.listTokens es).length ≤ size) (follows : Looser 1 rest)
    (last : rest.head? ≠ Option.some (.symbol ",")) :
    Yields (Grammar.initialisers expression) (Option.map Expr.eraseAll) (Expr.eraseAll es)
      (.symbol "=" :: (Expr.listTokens es ++ rest)) rest :=
  .opt_some (.equals inner.refuses.expressionList
    (inner.expressionList some wellFormed short follows last))

theorem localVars {names : List String} {values : List Expr} {line : Nat}
    (wellFormed : (Stmt.localVars names values line).wellFormed = true)
    (short : (Stmt.localVars names values line).tokens.length ≤ size) :
    Yields (Grammar.localVars expression) Stmt.erase (Stmt.localVars names values line).erase
      ((Stmt.localVars names values line).tokens ++ .symbol ";" :: rest) (.symbol ";" :: rest) := by
  simp only [Stmt.wellFormed, Bool.and_eq_true, Bool.not_eq_true', List.isEmpty_eq_false_iff]
    at wellFormed
  cases values with
  | nil =>
    rw [Stmt.tokens, List.cons_append]
    refine .exact fun _ => (yields_keyword (by simp [keywords])).bind fun _ _ =>
      (yields_names wellFormed.1 (.cons (by decide)) (by simp)).bind fun names' same =>
      (no_initialisers inner.refuses (by simp)).bind fun values' same' => .pure ?_
    obtain rfl : names' = names := same
    rw [Option.map_eq_none_iff.mp same']
    rfl
  | cons e es =>
    have tokens : (Stmt.localVars names (e :: es) line).tokens ++ .symbol ";" :: rest =
        .keyword "local" :: (Lexeme.joined "," names ++ .symbol "=" ::
          (Expr.listTokens (e :: es) ++ .symbol ";" :: rest)) := by
      simp
    have inside : (Expr.listTokens (e :: es)).length ≤ size := by
      simp only [Stmt.tokens, List.length_append, List.length_cons] at short
      rw [Expr.listTokens, List.length_append]
      omega
    rw [tokens]
    refine .exact fun _ => (yields_keyword (by simp [keywords])).bind fun _ _ =>
      (yields_names wellFormed.1 (.cons (by decide)) (by simp)).bind fun names' same =>
      (inner.initialisers (List.cons_ne_nil e es) wellFormed.2 inside (.cons (by decide))
        (by simp)).bind fun values' same' => .pure ?_
    obtain rfl : names' = names := same
    obtain ⟨values', rfl, read⟩ := Option.map_eq_some_iff.mp same'
    rw [Stmt.erase, Stmt.erase, Option.getD_some, read]

theorem functionDecl {target : Target} {f : Lambda} {line : Nat}
    (wellFormed : (Stmt.functionDecl target f line).wellFormed = true)
    (short : (Stmt.functionDecl target f line).tokens.length ≤ size) :
    Yields (Grammar.functionDecl block) Stmt.erase (Stmt.functionDecl target f line).erase
      ((Stmt.functionDecl target f line).tokens ++ rest) rest := by
  simp only [Stmt.wellFormed, Bool.and_eq_true] at wellFormed
  obtain ⟨formed, named⟩ := wellFormed
  cases found : target.parts? with
  | none => rw [found] at named; cases named
  | some parts =>
    rw [found] at named
    obtain ⟨first, others, rfl, same⟩ := Target.erase_of_parts? found
    simp only [Stmt.tokens, found, List.length_cons, List.length_append] at short
    have tokens : (Stmt.functionDecl target f line).tokens ++ rest = .keyword "function" ::
        .name first :: ((others.flatMap fun n => [.symbol ".", .name n]) ++ (f.tokens ++ rest)) := by
      rw [Stmt.tokens, found, List.append_assoc]
      rfl
    have step : ∀ n ∈ others, ∀ rest, True →
        Yields (symbol "." *> name) id n ([.symbol ".", .name n] ++ rest) rest :=
      fun n _ rest _ => .point id yields_name
    have last : Rejects (symbol "." *> name) (f.tokens ++ rest) := by
      refine .point id ?_
      cases f
      simp
    have more := Repeats.flatMap (fun _ => True) (fun _ _ => List.cons_ne_nil _ _)
      (fun _ _ _ => trivial) step trivial last
    rw [tokens]
    refine .exact fun _ => (yields_keyword (by simp [keywords])).bind fun _ _ =>
      yields_name.bind fun first' read => (Yields.many more).bind fun others' reads =>
      (inner.functionBody formed (by omega)).bind fun body read' => .pure ?_
    obtain rfl : first' = first := read
    obtain rfl : others' = others := by simpa using reads
    rw [Stmt.erase, Stmt.erase, erase_dottedTarget, same,
      erase_namedLambda_of_wellFormed (of_decide_eq_true named) read']

/-! ## Assignments and calls -/

theorem assign {targets : List Target} {values : List Expr} {line : Nat}
    (wellFormed : (Stmt.assign targets values line).wellFormed = true)
    (short : (Stmt.assign targets values line).tokens.length ≤ size) :
    Yields (expressionStatement expression) Stmt.erase (Stmt.assign targets values line).erase
      ((Stmt.assign targets values line).tokens ++ .symbol ";" :: rest) (.symbol ";" :: rest) := by
  simp only [Stmt.wellFormed, Bool.and_eq_true, Bool.not_eq_true', List.isEmpty_eq_false_iff,
    Target.allWellFormed_eq, List.all_eq_true] at wellFormed
  obtain ⟨⟨⟨targeted, some⟩, targetsFormed⟩, valuesFormed⟩ := wellFormed
  obtain ⟨t, ts, rfl⟩ := List.exists_cons_of_ne_nil targeted
  simp only [Stmt.tokens, List.length_append, List.length_cons] at short
  have listed : Target.listTokens (t :: ts) =
      t.tokens ++ ts.flatMap fun t => .symbol "," :: t.tokens := by
    rw [Target.listTokens, Target.moreTokens_eq]
  have inside : (t.tokens ++ ts.flatMap fun t => .symbol "," :: t.tokens).length ≤ size := by
    rw [← listed]
    omega
  have each : ∀ t' ∈ t :: ts, ∀ rest, Looser 9 rest →
      Yields (Grammar.prefixExpr expression) Expr.erase t'.toExpr.erase (t'.tokens ++ rest) rest := by
    intro t' member rest follows
    have formed := targetsFormed t' member
    rw [← t'.wellFormed_toExpr] at formed
    rw [← t'.tokens_toExpr]
    refine inner.prefixExpr t'.isHead_toExpr formed ?_ follows
    rw [t'.tokens_toExpr]
    exact Nat.le_succ_of_le (length_le_of_mem inside member)
  rw [Stmt.tokens, listed, List.append_assoc, List.append_assoc, List.cons_append]
  refine .mark fun _ => (Yields.commaList (by decide) each (.cons (by decide)) (by simp)).bind
    fun heads same => (inner.initialisers some valuesFormed (by omega) (.cons (by decide))
      (by simp)).bind fun values' same' => yields_toStatement? ?_
  rw [erase_toStatement?, same, same', toStatement?_targets, Stmt.erase]

theorem call {c : Call} {line : Nat} (wellFormed : c.wellFormed = true)
    (short : c.tokens.length ≤ size) :
    Yields (expressionStatement expression) Stmt.erase (Stmt.call c line).erase
      (c.tokens ++ .symbol ";" :: rest) (.symbol ";" :: rest) := by
  have read : Yields _ Expr.erase (Expr.call c).erase ((Expr.call c).tokens ++ .symbol ";" :: rest)
      (.symbol ";" :: rest) :=
    inner.prefixExpr rfl wellFormed (Nat.le_succ_of_le short) (.cons (by decide))
  refine .mark fun _ => (read.commaList_single (by simp)).bind fun heads same =>
    (no_initialisers inner.refuses (by simp)).bind fun values same' => yields_toStatement? ?_
  rw [erase_toStatement?, same, same', Stmt.erase, Expr.erase]
  rfl

/-! ## Blocks inside -/

theorem doBlock {body : Block} {line : Nat} (wellFormed : body.wellFormed = true)
    (short : (Stmt.doBlock body line).tokens.length ≤ size) :
    Yields (Grammar.doBlock block) Stmt.erase (Stmt.doBlock body line).erase
      ((Stmt.doBlock body line).tokens ++ rest) rest := by
  simp only [Stmt.tokens, List.length_cons, List.length_append] at short
  rw [Stmt.tokens, List.append_assoc, List.cons_append, List.singleton_append]
  refine .exact fun _ => (yields_keyword (by simp [keywords])).bind fun _ _ =>
    (inner.blocks body wellFormed (by omega) _ (.cons (by decide))).bind fun body' same =>
    (yields_keyword (by simp [keywords])).bind fun _ _ => .pure ?_
  rw [Stmt.erase, Stmt.erase, same]

theorem whileLoop {condition : Expr} {body : Block} {line : Nat}
    (wellFormed : (Stmt.whileLoop condition body line).wellFormed = true)
    (short : (Stmt.whileLoop condition body line).tokens.length ≤ size) :
    Yields (Grammar.whileLoop expression block) Stmt.erase (Stmt.whileLoop condition body line).erase
      ((Stmt.whileLoop condition body line).tokens ++ rest) rest := by
  simp only [Stmt.wellFormed, Bool.and_eq_true] at wellFormed
  simp only [Stmt.tokens, List.length_cons, List.length_append] at short
  have tokens : (Stmt.whileLoop condition body line).tokens ++ rest = .keyword "while" ::
      (condition.tokens ++ .keyword "do" :: (body.tokens ++ .keyword "end" :: rest)) := by
    simp
  rw [tokens]
  refine .exact fun _ => (yields_keyword (by simp [keywords])).bind fun _ _ =>
    (inner.reads wellFormed.1 (by omega) (.cons (by decide))).bind fun condition' same =>
    (yields_keyword (by simp [keywords])).bind fun _ _ =>
    (inner.blocks body wellFormed.2 (by omega) _ (.cons (by decide))).bind fun body' same' =>
    (yields_keyword (by simp [keywords])).bind fun _ _ => .pure ?_
  rw [Stmt.erase, Stmt.erase, same, same']

theorem clauseAfter {word : String} (known : word ∈ keywords) {c : Clause}
    (wellFormed : c.wellFormed = true) (short : c.tokens.length ≤ size) (ends : EndsBlock rest) :
    Yields (Grammar.clauseAfter expression block word) Clause.erase c.erase
      (.keyword word :: c.tokens ++ rest) rest := by
  cases c with
  | mk condition body =>
    simp only [Clause.wellFormed, Bool.and_eq_true] at wellFormed
    simp only [Clause.tokens, List.length_append, List.length_cons] at short
    rw [Clause.tokens, List.cons_append, List.append_assoc, List.cons_append]
    refine (yields_keyword known).bind fun _ _ =>
      (inner.reads wellFormed.1 (by omega) (.cons (by decide))).bind fun condition' same =>
      (yields_keyword (by simp [keywords])).bind fun _ _ =>
      (inner.blocks body wellFormed.2 (by omega) _ ends).bind fun body' same' => .pure ?_
    rw [Clause.erase, Clause.erase, same, same']

/-- The clauses are read whatever the `else` part is. -/
theorem branch_of_otherwise {c : Clause} {cs : List Clause} {otherwise : Option Block} {line : Nat}
    {mid : List Lexeme} (wellFormed : Clause.allWellFormed (c :: cs) = true)
    (short : (c.tokens ++ Clause.moreTokens cs).length ≤ size) (ends : EndsBlock mid)
    (last : mid.head? ≠ some (.keyword "elseif"))
    (other : Yields (opt (keyword "else" *> block)) (Option.map Block.erase)
      (otherwise.map Block.erase) mid (.keyword "end" :: rest)) :
    Yields (Grammar.branch expression block) Stmt.erase
      (Stmt.branch (c :: cs) otherwise line).erase
      (.keyword "if" :: c.tokens ++ (Clause.moreTokens cs ++ mid)) rest := by
  rw [Clause.allWellFormed_eq, List.all_eq_true] at wellFormed
  rw [Clause.moreTokens_eq] at short ⊢
  have each : ∀ c' ∈ cs, ∀ rest, EndsBlock rest →
      Yields (Grammar.clauseAfter expression block "elseif") Clause.erase c'.erase
        (.keyword "elseif" :: c'.tokens ++ rest) rest := fun c' member rest ends =>
    inner.clauseAfter (by simp [keywords]) (wellFormed c' (List.mem_cons_of_mem c member))
      (length_le_of_mem short (List.mem_cons_of_mem c member)) ends
  have elseif : ∀ w, EndsBlock (.keyword "elseif" :: w) := fun w => .cons (by decide)
  have more := Repeats.flatMap EndsBlock (fun _ _ => List.cons_ne_nil _ _) (fun _ _ _ => elseif _)
    each ends ((rejects_keyword (by simp [keywords]) last).bind _)
  have next : EndsBlock ((cs.flatMap fun c => .keyword "elseif" :: c.tokens) ++ mid) := by
    cases cs with
    | nil => exact ends
    | cons c' cs => exact elseif _
  refine .exact fun _ => (inner.clauseAfter (by simp [keywords]) (wellFormed c List.mem_cons_self)
    (length_le_of_mem short List.mem_cons_self) next).bind fun first same =>
    (Yields.many more).bind fun others sames => other.bind fun otherwise' same' =>
    (yields_keyword (by simp [keywords])).bind fun _ _ => .pure ?_
  have clauses : Clause.eraseAll (first :: others) = Clause.eraseAll (c :: cs) := by
    rw [Clause.eraseAll_eq, Clause.eraseAll_eq, List.map_cons, List.map_cons, same, sames]
  cases otherwise with
  | none =>
    rw [Option.map_eq_none_iff.mp same', Stmt.erase, Stmt.erase, clauses]
  | some body =>
    obtain ⟨body', rfl, read⟩ := Option.map_eq_some_iff.mp same'
    rw [Stmt.erase, Stmt.erase, clauses, read]

theorem branch {clauses : List Clause} {otherwise : Option Block} {line : Nat}
    (wellFormed : (Stmt.branch clauses otherwise line).wellFormed = true)
    (short : (Stmt.branch clauses otherwise line).tokens.length ≤ size) :
    Yields (Grammar.branch expression block) Stmt.erase (Stmt.branch clauses otherwise line).erase
      ((Stmt.branch clauses otherwise line).tokens ++ rest) rest := by
  cases clauses with
  | nil => cases otherwise <;> simp at wellFormed
  | cons c cs =>
    cases otherwise with
    | none =>
      simp only [Stmt.wellFormed, Bool.and_eq_true] at wellFormed
      simp only [Stmt.tokens, List.length_append, List.length_cons] at short
      have none : Yields (opt (keyword "else" *> block)) (Option.map Block.erase) none
          (.keyword "end" :: rest) (.keyword "end" :: rest) :=
        .opt_none ((rejects_keyword (by simp [keywords]) (by simp)).bind _)
      rw [Stmt.tokens, List.append_assoc, List.append_assoc]
      refine inner.branch_of_otherwise wellFormed.2 ?_ (.cons (by decide)) (by simp) none
      rw [List.length_append]
      omega
    | some body =>
      simp only [Stmt.wellFormed, Bool.and_eq_true] at wellFormed
      simp only [Stmt.tokens, List.length_append, List.length_cons] at short
      have read : Yields (opt (keyword "else" *> block)) (Option.map Block.erase)
          (some body.erase) (.keyword "else" :: (body.tokens ++ .keyword "end" :: rest))
          (.keyword "end" :: rest) :=
        .opt_some ((yields_keyword (by simp [keywords])).bind fun _ _ =>
          inner.blocks body wellFormed.2 (by omega) _ (.cons (by decide)))
      have tokens : (Stmt.branch (c :: cs) (some body) line).tokens ++ rest =
          .keyword "if" :: c.tokens ++ (Clause.moreTokens cs ++
            .keyword "else" :: (body.tokens ++ .keyword "end" :: rest)) := by
        simp
      rw [tokens]
      refine inner.branch_of_otherwise wellFormed.1.2 ?_ (.cons (by decide)) (by simp) read
      rw [List.length_append]
      omega

/-- The bounds and the body are read whatever the step is. -/
theorem numericFor_of_step {n : String} {start stop : Expr} {step : Option Expr} {body : Block}
    {line : Nat} {mid : List Lexeme} (startFormed : start.wellFormed = true)
    (stopFormed : stop.wellFormed = true) (bodyFormed : body.wellFormed = true)
    (short : start.tokens.length + stop.tokens.length + body.tokens.length < size)
    (follows : Looser 1 mid)
    (read : Yields (opt (symbol "," *> expression)) (Option.map Expr.erase) (step.map Expr.erase)
      mid (.keyword "do" :: (body.tokens ++ .keyword "end" :: rest))) :
    Yields (Grammar.numericFor expression block) Stmt.erase
      (Stmt.numericFor n start stop step body line).erase
      (.keyword "for" :: .name n :: .symbol "=" ::
        (start.tokens ++ .symbol "," :: (stop.tokens ++ mid))) rest := by
  refine .exact fun _ => (yields_keyword (by simp [keywords])).bind fun _ _ =>
    yields_name.bind fun n' same => .equals (inner.refuses.bind _) <|
    (inner.reads startFormed (by omega) (.cons (by decide))).bind fun start' sameStart =>
    (yields_symbol (by decide)).bind fun _ _ =>
    (inner.reads stopFormed (by omega) follows).bind fun stop' sameStop =>
    read.bind fun step' sameStep => (yields_keyword (by simp [keywords])).bind fun _ _ =>
    (inner.blocks body bodyFormed (by omega) _ (.cons (by decide))).bind fun body' sameBody =>
    (yields_keyword (by simp [keywords])).bind fun _ _ => .pure ?_
  obtain rfl : n' = n := same
  cases step with
  | none =>
    rw [Option.map_eq_none_iff.mp sameStep, Stmt.erase, Stmt.erase, sameStart, sameStop, sameBody]
  | some step =>
    obtain ⟨step', rfl, read⟩ := Option.map_eq_some_iff.mp sameStep
    rw [Stmt.erase, Stmt.erase, sameStart, sameStop, read, sameBody]

theorem numericFor {n : String} {start stop : Expr} {step : Option Expr} {body : Block} {line : Nat}
    (wellFormed : (Stmt.numericFor n start stop step body line).wellFormed = true)
    (short : (Stmt.numericFor n start stop step body line).tokens.length ≤ size) :
    Yields (Grammar.numericFor expression block) Stmt.erase
      (Stmt.numericFor n start stop step body line).erase
      ((Stmt.numericFor n start stop step body line).tokens ++ rest) rest := by
  cases step with
  | none =>
    simp only [Stmt.wellFormed, Bool.and_eq_true] at wellFormed
    simp only [Stmt.tokens, List.length_append, List.length_cons] at short
    have tokens : (Stmt.numericFor n start stop none body line).tokens ++ rest =
        .keyword "for" :: .name n :: .symbol "=" :: (start.tokens ++ .symbol "," ::
          (stop.tokens ++ .keyword "do" :: (body.tokens ++ .keyword "end" :: rest))) := by
      simp
    rw [tokens]
    exact inner.numericFor_of_step wellFormed.1.1 wellFormed.1.2 wellFormed.2 (by omega)
      (.cons (by decide)) (.opt_none ((rejects_symbol (by decide) (by simp)).bind _))
  | some step =>
    simp only [Stmt.wellFormed, Bool.and_eq_true] at wellFormed
    simp only [Stmt.tokens, List.length_append, List.length_cons] at short
    have tokens : (Stmt.numericFor n start stop (some step) body line).tokens ++ rest =
        .keyword "for" :: .name n :: .symbol "=" :: (start.tokens ++ .symbol "," ::
          (stop.tokens ++ .symbol "," :: (step.tokens ++
            .keyword "do" :: (body.tokens ++ .keyword "end" :: rest)))) := by
      simp
    rw [tokens]
    refine inner.numericFor_of_step wellFormed.1.1.1 wellFormed.1.1.2 wellFormed.2 (by omega)
      (.cons (by decide)) (.opt_some ((yields_symbol (by decide)).bind fun _ _ =>
        inner.reads wellFormed.1.2 (by omega) (.cons (by decide))))

theorem genericFor {names : List String} {values : List Expr} {body : Block} {line : Nat}
    (wellFormed : (Stmt.genericFor names values body line).wellFormed = true)
    (short : (Stmt.genericFor names values body line).tokens.length ≤ size) :
    Yields (Grammar.genericFor expression block) Stmt.erase
      (Stmt.genericFor names values body line).erase
      ((Stmt.genericFor names values body line).tokens ++ rest) rest := by
  simp only [Stmt.wellFormed, Bool.and_eq_true, Bool.not_eq_true', List.isEmpty_eq_false_iff]
    at wellFormed
  obtain ⟨⟨⟨named, some⟩, valuesFormed⟩, bodyFormed⟩ := wellFormed
  simp only [Stmt.tokens, List.length_cons, List.length_append] at short
  have tokens : (Stmt.genericFor names values body line).tokens ++ rest = .keyword "for" ::
      (Lexeme.joined "," names ++ .keyword "in" :: (Expr.listTokens values ++
        .keyword "do" :: (body.tokens ++ .keyword "end" :: rest))) := by
    simp
  rw [tokens]
  refine .exact fun _ => (yields_keyword (by simp [keywords])).bind fun _ _ =>
    (yields_names named (.cons (by decide)) (by simp)).bind fun names' same =>
    (yields_keyword (by simp [keywords])).bind fun _ _ =>
    (inner.expressionList some valuesFormed (by omega) (.cons (by decide)) (by simp)).bind
      fun values' same' =>
    (yields_keyword (by simp [keywords])).bind fun _ _ =>
    (inner.blocks body bodyFormed (by omega) _ (.cons (by decide))).bind fun body' same'' =>
    (yields_keyword (by simp [keywords])).bind fun _ _ => .pure ?_
  obtain rfl : names' = names := same
  rw [Stmt.erase, Stmt.erase, same', same'']

theorem returnValues {values : List Expr} {line : Nat}
    (wellFormed : Expr.allWellFormed values = true)
    (short : (Stmt.returnValues values line).tokens.length ≤ size) :
    Yields (Grammar.returnValues expression) Stmt.erase (Stmt.returnValues values line).erase
      ((Stmt.returnValues values line).tokens ++ .symbol ";" :: rest) rest := by
  simp only [Stmt.tokens, List.length_cons] at short
  rw [Stmt.tokens, List.cons_append]
  refine .exact fun _ => (yields_keyword (by simp [keywords])).bind fun _ _ =>
    (inner.values wellFormed (by omega) (.cons (by decide)) (.cons rfl) (by simp)).bind
      fun values' same => (yields_symbol (by decide)).opt_some.bind fun _ _ => .pure ?_
  rw [Stmt.erase, Stmt.erase, same]

/-! ## Statements -/

theorem statement {s : Stmt} (wellFormed : s.wellFormed = true) (plain : s.isReturn = false)
    (short : s.tokens.length ≤ size) :
    Yields (Grammar.statement expression block) (Option.map Stmt.erase) (some s.erase)
      (s.tokens ++ .symbol ";" :: rest) (.symbol ";" :: rest) := by
  cases s with
  | localFunction n f line =>
    have split : keyworded expression block =
        [] ++ ("local", Grammar.localFunction block) :: _ := rfl
    exact statement_of_keyworded split nofun (inner.localFunction wellFormed short)
  | localVars names values line =>
    have split : keyworded expression block =
        [("local", Grammar.localFunction block)] ++ ("local", Grammar.localVars expression) :: _ :=
      rfl
    have read : Yields _ _ _ _ (.symbol ";" :: rest) := inner.localVars wellFormed short
    obtain ⟨n, ns, rfl⟩ : ∃ n ns, names = n :: ns := by
      refine List.exists_cons_of_ne_nil ?_
      rintro rfl
      simp at wellFormed
    have earlier : ∀ w, ∀ a ∈ [("local", Grammar.localFunction block)], a.1 = "local" →
        Rejects a.2 (.keyword "local" :: .name n :: w) := by
      intro w a member _
      obtain rfl := List.mem_singleton.mp member
      exact .exact fun _ => (yields_keyword (by simp [keywords])).then_rejects fun _ _ =>
        (rejects_keyword (by simp [keywords]) (by simp)).bind _
    cases values with
    | nil => exact statement_of_keyworded split (earlier _) read
    | cons => exact statement_of_keyworded split (earlier _) read
  | functionDecl target f line =>
    have split : keyworded expression block =
        [_, _] ++ ("function", Grammar.functionDecl block) :: _ := rfl
    exact statement_of_keyworded split (by simp) (inner.functionDecl wellFormed short)
  | doBlock body line =>
    have split : keyworded expression block = [_, _, _] ++ ("do", Grammar.doBlock block) :: _ := rfl
    exact statement_of_keyworded split (by simp) (inner.doBlock wellFormed short)
  | whileLoop condition body line =>
    have split : keyworded expression block =
        [_, _, _, _] ++ ("while", Grammar.whileLoop expression block) :: _ := rfl
    exact statement_of_keyworded split (by simp) (inner.whileLoop wellFormed short)
  | branch clauses otherwise line =>
    have split : keyworded expression block =
        [_, _, _, _, _] ++ ("if", Grammar.branch expression block) :: _ := rfl
    have read : Yields _ _ _ _ (.symbol ";" :: rest) := inner.branch wellFormed short
    obtain ⟨c, cs, rfl⟩ : ∃ c cs, clauses = c :: cs := by
      refine List.exists_cons_of_ne_nil ?_
      rintro rfl
      cases otherwise <;> simp at wellFormed
    cases otherwise with
    | none => exact statement_of_keyworded split (by simp) read
    | some => exact statement_of_keyworded split (by simp) read
  | numericFor n start stop step body line =>
    have split : keyworded expression block =
        [_, _, _, _, _, _] ++ ("for", Grammar.numericFor expression block) :: _ := rfl
    have read : Yields _ _ _ _ (.symbol ";" :: rest) := inner.numericFor wellFormed short
    cases step with
    | none => exact statement_of_keyworded split (by simp) read
    | some step => exact statement_of_keyworded split (by simp) read
  | genericFor names values body line =>
    have split : keyworded expression block =
        [("local", Grammar.localFunction block), ("local", Grammar.localVars expression),
          ("function", Grammar.functionDecl block), ("do", Grammar.doBlock block),
          ("while", Grammar.whileLoop expression block), ("if", Grammar.branch expression block),
          ("for", Grammar.numericFor expression block)] ++
            ("for", Grammar.genericFor expression block) :: _ := rfl
    have read : Yields _ _ _ _ (.symbol ";" :: rest) := inner.genericFor wellFormed short
    obtain ⟨n, ns, rfl⟩ : ∃ n ns, names = n :: ns := by
      refine List.exists_cons_of_ne_nil ?_
      rintro rfl
      simp at wellFormed
    have earlier : Rejects (Grammar.numericFor expression block)
        ((Stmt.genericFor (n :: ns) values body line).tokens ++ .symbol ";" :: rest) := by
      refine .exact fun _ => (yields_keyword (by simp [keywords])).then_rejects fun _ _ =>
        yields_name.then_rejects fun _ _ => .equals (inner.refuses.bind _) ?_
      cases ns <;> simp
    exact statement_of_keyworded split (by simpa using earlier) read
  | breakLoop line =>
    have split : keyworded expression block =
        [_, _, _, _, _, _, _, _] ++ ("break", Grammar.breakLoop) :: _ := rfl
    refine statement_of_keyworded split (by simp) ?_
    exact .exact fun _ => (yields_keyword (by simp [keywords])).bind fun _ _ => .pure rfl
  | assign targets values line =>
    have read : Yields _ _ _ _ (.symbol ";" :: rest) := inner.assign wellFormed short
    simp only [Stmt.wellFormed, Bool.and_eq_true, Bool.not_eq_true', List.isEmpty_eq_false_iff,
      Target.allWellFormed_eq, List.all_eq_true] at wellFormed
    obtain ⟨t, ts, rfl⟩ := List.exists_cons_of_ne_nil wellFormed.1.1.1
    have formed := wellFormed.1.2 t List.mem_cons_self
    rw [← t.wellFormed_toExpr] at formed
    rw [Stmt.tokens, Target.listTokens, ← t.tokens_toExpr, List.append_assoc, List.append_assoc]
      at read ⊢
    exact statement_of_leads t.isHead_toExpr formed read
  | call c line =>
    have read : Yields _ _ (Stmt.call c line).erase ((Expr.call c).tokens ++ _)
        (.symbol ";" :: rest) := inner.call wellFormed short
    have formed : (Expr.call c).wellFormed = true := wellFormed
    exact statement_of_leads rfl formed read
  | returnValues => cases plain
  | other => simp at wellFormed

/-! ## Blocks -/

/-- Statements are read as long as there is one. -/
theorem statements {ss : List Stmt} (wellFormed : ∀ s ∈ ss, s.wellFormed = true)
    (plain : ∀ s ∈ ss, s.isReturn = false) (short : (Stmt.listTokens ss).length ≤ size)
    (last : Rejects (Grammar.statement expression block) rest) :
    Repeats (Grammar.statement expression block) (Option.map Stmt.erase)
      (ss.flatMap fun s => [some s.erase, none]) (Stmt.listTokens ss ++ rest) rest := by
  induction ss with
  | nil => exact .nil last
  | cons s ss ih =>
    rw [Stmt.listTokens, List.length_append, List.length_cons] at short
    have others := ih (fun s' member => wellFormed s' (List.mem_cons_of_mem s member))
      (fun s' member => plain s' (List.mem_cons_of_mem s member)) (by omega)
    have separator : Yields (Grammar.statement expression block) (Option.map Stmt.erase) none
        (.symbol ";" :: (Stmt.listTokens ss ++ rest)) (Stmt.listTokens ss ++ rest) :=
      .left ((yields_symbol (by decide)).bind fun _ _ => .pure rfl)
    have first : Yields _ _ _ _ (.symbol ";" :: (Stmt.listTokens ss ++ rest)) :=
      inner.statement (wellFormed s List.mem_cons_self) (plain s List.mem_cons_self) (by omega)
    have some := s.tokens_ne_nil (wellFormed s List.mem_cons_self)
    rw [Stmt.listTokens, List.append_assoc, List.cons_append]
    refine .cons first ?_ (.cons separator (Nat.lt_succ_self _) others)
    have := List.length_pos_iff.mpr some
    rw [List.length_append]
    omega

/-- No further statement is sought where a block returns or ends. -/
theorem lastStatement {last : Option Stmt} (wellFormed : ∀ s ∈ last, s.wellFormed = true)
    (returns : ∀ s ∈ last, ∃ values line, s = .returnValues values line)
    (short : (Stmt.listTokens last.toList).length ≤ size) (ends : EndsBlock rest) :
    Yields (opt (Grammar.returnValues expression)) (Option.map Stmt.erase) (last.map Stmt.erase)
        (Stmt.listTokens last.toList ++ rest) rest ∧
      Rejects (Grammar.statement expression block) (Stmt.listTokens last.toList ++ rest) := by
  cases last with
  | none =>
    refine ⟨.opt_none ?_, rejects_statement fun l head => ?_⟩
    · refine .exact fun _ => (rejects_keyword (by simp [keywords]) fun head => ?_).bind _
      exact absurd (ends _ head) (by decide)
    · exact List.mem_append_left [.keyword "return"] (ends l head)
  | some s =>
    obtain ⟨values, line, rfl⟩ := returns s rfl
    have inside : (Stmt.returnValues values line).tokens.length ≤ size := by
      rw [Option.toList_some, Stmt.listTokens, List.length_append] at short
      omega
    have read : Yields _ _ _ _ rest := inner.returnValues (wellFormed _ rfl) inside
    have tokens : Stmt.listTokens (some (Stmt.returnValues values line)).toList ++ rest =
        (Stmt.returnValues values line).tokens ++ .symbol ";" :: rest := by
      simp
    rw [tokens]
    refine ⟨read.opt_some, rejects_statement fun l head => ?_⟩
    cases head
    decide

theorem blockOf : CoversBlocks (size + 1) (Grammar.blockOf expression block) := by
  intro b wellFormed short rest ends
  cases b with
  | mk ss line =>
    obtain ⟨before, last, rfl, plain, returns⟩ := Block.exists_last wellFormed
    simp only [Block.wellFormed, Bool.and_eq_true, Stmt.allWellFormed_eq, List.all_eq_true]
      at wellFormed
    rw [Block.tokens, Stmt.listTokens_append] at short ⊢
    rw [List.length_append] at short
    obtain ⟨returned, finished⟩ := inner.lastStatement
      (fun s member => wellFormed.2 s (List.mem_append_right _ (Option.mem_toList.mpr member)))
      returns (by omega) ends
    have more := inner.statements (fun s member => wellFormed.2 s (List.mem_append_left _ member))
      plain (by omega) finished
    rw [List.append_assoc]
    refine .mark fun _ => (Yields.many more).bind fun found same => returned.bind
      fun last' same' => .pure ?_
    rw [Block.erase, Block.erase, Stmt.eraseAll_eq, Stmt.eraseAll_eq, List.map_append,
      List.map_append, ← List.reduceOption_map, same, reduceOption_separated, ← Option.toList_map,
      ← Option.toList_map, same']

end Inner

/-! ## All levels of nesting -/

end MiniLua

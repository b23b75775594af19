import Mathlib.Data.List.ReduceOption
import MiniLua.Proofs.Placing.Expressions

/-!
# The tokens of statements and blocks

A statement that starts with a keyword is on the line of that keyword. A call or an assignment is on
the line of the place that the grammar has got to without passing blanks: of its first token only
if the statement before has passed them.
-/

namespace MiniLua

open Computability

/-- Where the grammar stands between statements, the blanks there passed or not. -/
def Footing.between : Bool → Footing
  | true => .before
  | false => .behind

namespace Grammar

open MiniLua.Parser

variable {text : List Char} {entry : Footing} {before : Language Spaced} {passed : Bool}
  {expression : Parser Expr} {block : Parser Block}

/-- From this footing on, `p` reads a statement. -/
def SpansStmt (text : List Char) (entry : Footing) (passed : Bool) (p : Parser Stmt) : Prop :=
  Spans text entry p (fun s => .between s.openEnded) fun s => s.readings passed

theorem consumes_stmt {s : Stmt} {read : Language Spaced} (same : .between s.openEnded = entry)
    (h : read ≤ before * s.readings passed) : Consumes text entry read (pure s)
      (fun s => .between s.openEnded) fun s => before * s.readings passed :=
  .last same h

theorem readings_namedLambda (parts : List String) (line : Nat) (body : List String × Block) :
    (namedLambda parts line body).readings = bodyReadings body := by
  rw [namedLambda, Lambda.readings, bodyReadings]

theorem le_readings_dotted (line : Nat) (parts : List String) (e : Expr) :
    e.readings * (parts.map fun n => sign "." * (Lexeme.name n).alone).prod ≤
      (parts.foldl (fun (e : Expr) part => .index e (.string part line) line) e).readings := by
  induction parts generalizing e with
  | nil => rw [List.map_nil, List.prod_nil, mul_one, List.foldl_nil]
  | cons part parts ih =>
    rw [List.map_cons, List.prod_cons, List.foldl_cons, ← mul_assoc]
    refine (mul_le_mul_left ?_ _).trans (ih _)
    rw [Expr.readings]
    exact mul_le_mul_right le_add_self _

theorem le_readings_dottedTarget (line : Nat) (first : String) (rest : List String) :
    (Lexeme.name first).alone * (rest.map fun n => sign "." * (Lexeme.name n).alone).prod ≤
      (dottedTarget line first rest).readings := by
  unfold dottedTarget
  split
  next none =>
    rw [List.reverse_eq_nil_iff.mp none, List.map_nil, List.prod_nil, mul_one, Target.readings]
  next last before same =>
    rw [Target.readings, List.reverse_eq_iff.mp same, List.reverse_cons, List.map_append,
      List.prod_append, ← mul_assoc]
    have table := le_readings_dotted line before.reverse (.name first line)
    rw [Expr.readings] at table
    refine mul_le_mul' table ?_
    rw [List.map_singleton, List.prod_singleton]
    exact le_add_self

section

variable (body : SpansBlock text block)

include body

theorem spans_localFunction : SpansStmt text entry passed (localFunction block) := by
  intro before
  rw [localFunction]
  refine .exact fun place => .bind (spans_keywordOn (by simp [keywords])) fun _ =>
    .bind (spans_keyword (by simp [keywords])) fun _ => .bind spans_name fun n =>
    .bind (spans_functionBody body) fun parts => consumes_stmt rfl ?_
  rw [Stmt.readings, readings_namedLambda]
  simp only [mul_assoc, le_refl]

theorem spans_functionDecl : SpansStmt text entry passed (functionDecl block) := by
  intro before
  rw [functionDecl]
  have parts : Spans text .behind (symbol "." *> name) (fun _ => .behind)
      fun n => sign "." * (Lexeme.name n).alone := by
    refine fun before => .point id ?_
    simp only [← mul_assoc]
    exact spans_name _
  refine .exact fun place => .bind (spans_keywordOn (by simp [keywords])) fun _ =>
    .bind spans_name fun first => .bind parts.many fun rest =>
    .bind (spans_functionBody body) fun parts => consumes_stmt rfl ?_
  rw [Stmt.readings, readings_namedLambda]
  have target := le_readings_dottedTarget place.line first rest
  simp only [mul_assoc]
  rw [← mul_assoc (Lexeme.alone _)]
  gcongr

theorem spans_doBlock : SpansStmt text entry passed (doBlock block) := by
  intro before
  rw [doBlock]
  refine .exact fun place => .bind (spans_keywordOn (by simp [keywords])) fun _ =>
    .bind body fun b => .bind (spans_keyword (by simp [keywords])) fun _ => consumes_stmt rfl ?_
  rw [Stmt.readings]
  simp only [mul_assoc, le_refl]

end

theorem spans_breakLoop : SpansStmt text entry passed breakLoop := by
  intro before
  rw [breakLoop]
  refine .exact fun place => .bind (spans_keywordOn (by simp [keywords])) fun _ =>
    consumes_stmt rfl ?_
  rw [Stmt.readings]

section

variable (phrase : Phrase text expression)

include phrase

theorem spans_initialisers : Spans text entry (initialisers expression) (fun _ => .before)
    fun values => values.elim 1 fun es => sign "=" * separated Expr.readings es := by
  have values : Spans text entry (symbol "=" *> expressionList expression) (fun _ => .before)
      fun es => sign "=" * separated Expr.readings es := by
    refine fun before => .equals phrase.refuses.expressionList ?_
    simp only [← mul_assoc]
    exact spans_expressionList phrase _
  rw [initialisers]
  exact values.optBefore

theorem spans_localVars : SpansStmt text entry passed (localVars expression) := by
  intro before
  rw [localVars]
  refine .exact fun place => .bind (spans_keywordOn (by simp [keywords])) fun _ =>
    .bind (Spans.commaList fun _ => spans_name) fun names =>
    .bind (spans_initialisers phrase) fun values => consumes_stmt rfl ?_
  have known := separated_le_names names
  cases values with
  | none =>
    rw [Option.getD_none, Stmt.readings]
    simp only [Option.elim_none, mul_one, mul_assoc]
    gcongr
  | some values =>
    cases values with
    | nil =>
      simp only [Option.elim_some, separated, mul_zero]
      exact bot_le
    | cons e es =>
      rw [Option.getD_some, Stmt.readings, Expr.moreReadings_eq]
      simp only [Option.elim_some, mul_assoc]
      gcongr
      rfl

theorem spans_returnValues (passed : Bool) :
    Spans text entry (returnValues expression) (fun _ => .anywhere) fun s => s.readings passed := by
  intro before
  rw [returnValues]
  refine .exact fun place => .bind (spans_keywordOn (by simp [keywords])) fun _ =>
    .bind (spans_optExpressions phrase) fun values =>
    .bind (spans_symbol (by decide)).opt fun closed => (Consumes.pure ?_).loosen
  dsimp only
  rw [Stmt.readings]
  simp only [mul_assoc]
  gcongr
  cases closed with
  | none => exact le_self_add
  | some _ => exact le_add_self

variable (body : SpansBlock text block)

include body

theorem spans_whileLoop : SpansStmt text entry passed (whileLoop expression block) := by
  intro before
  rw [whileLoop]
  refine .exact fun place => .bind (spans_keywordOn (by simp [keywords])) fun _ =>
    .bind (phrase.spans _) fun condition => .bind (spans_keyword (by simp [keywords])) fun _ =>
    .bind body fun b => .bind (spans_keyword (by simp [keywords])) fun _ => consumes_stmt rfl ?_
  rw [Stmt.readings]
  simp only [mul_assoc, le_refl]

theorem spans_clauseAfter {w : String} {led : Language Spaced}
    (start : Spans text entry (keyword w) (fun _ => .behind) fun _ => led) :
    Spans text entry (clauseAfter expression block w) (fun _ => .anywhere)
      fun c => led * c.readings := by
  intro before
  rw [clauseAfter]
  refine .bind start fun _ => .bind (phrase.spans _) fun condition =>
    .bind (spans_keyword (by simp [keywords])) fun _ => .bind body fun b => .pure ?_
  simp only [Clause.readings, mul_assoc, le_refl]

theorem spans_branch : SpansStmt text entry passed (branch expression block) := by
  intro before
  rw [branch]
  have otherwise : Spans text .anywhere (keyword "else" *> block) (fun _ => .anywhere)
      fun b => word "else" * b.readings :=
    .seqRight (spans_keyword (by simp [keywords])) fun _ => body
  have others : Spans text .anywhere (clauseAfter expression block "elseif") (fun _ => .anywhere)
      fun c => word "elseif" * c.readings :=
    spans_clauseAfter phrase body (spans_keyword (by simp [keywords]))
  refine .exact fun place =>
    .bind (spans_clauseAfter phrase body (spans_keywordOn (by simp [keywords]))) fun first =>
    .bind others.many fun rest => .bind otherwise.opt fun b =>
    .bind (spans_keyword (by simp [keywords])) fun _ => consumes_stmt rfl ?_
  cases b with
  | none =>
    rw [Stmt.readings, Clause.moreReadings_eq]
    simp only [Option.elim_none, one_mul, mul_assoc, le_refl]
  | some b =>
    rw [Stmt.readings, Clause.moreReadings_eq]
    simp only [Option.elim_some, mul_assoc, le_refl]

theorem spans_numericFor : SpansStmt text entry passed (numericFor expression block) := by
  intro before
  rw [numericFor]
  have step : Spans text .before (symbol "," *> expression) (fun _ => .before)
      fun e => sign "," * e.readings :=
    .seqRight (spans_symbol (by decide)) fun _ => phrase.spans _
  refine .exact fun place => .bind (spans_keywordOn (by simp [keywords])) fun _ =>
    .bind spans_name fun n => .equals (phrase.refuses.bind _)
    (.bind (phrase.spans _) fun start => .bind (spans_symbol (by decide)) fun _ =>
    .bind (phrase.spans _) fun stop => .bind step.opt fun increment =>
    .bind (spans_keyword (by simp [keywords])) fun _ => .bind body fun b =>
    .bind (spans_keyword (by simp [keywords])) fun _ => consumes_stmt rfl ?_)
  cases increment with
  | none =>
    rw [Stmt.readings]
    simp only [Option.elim_none, one_mul, mul_assoc, le_refl]
  | some e =>
    rw [Stmt.readings]
    simp only [Option.elim_some, mul_assoc, le_refl]

theorem spans_genericFor : SpansStmt text entry passed (genericFor expression block) := by
  intro before
  rw [genericFor]
  refine .exact fun place => .bind (spans_keywordOn (by simp [keywords])) fun _ =>
    .bind (Spans.commaList fun _ => spans_name) fun names =>
    .bind (spans_keyword (by simp [keywords])) fun _ => .bind (spans_expressionList phrase)
    fun values => .bind (spans_keyword (by simp [keywords])) fun _ => .bind body fun b =>
    .bind (spans_keyword (by simp [keywords])) fun _ => consumes_stmt rfl ?_
  have known := separated_le_names names
  have listed := Expr.separated_le values
  rw [Stmt.readings]
  simp only [mul_assoc]
  gcongr

end

/-! ## Calls and assignments -/

theorem readings_toExpr (t : Target) : t.toExpr.readings = t.readings := by
  cases t with
  | name n line => rw [Target.toExpr, Target.readings, Expr.readings]
  | index target key line => rw [Target.toExpr, Target.readings, Expr.readings]

theorem separated_le_targets (targets : List Target) :
    separated Expr.readings (targets.map Target.toExpr) ≤ Target.listReadings targets := by
  cases targets with
  | nil => exact bot_le
  | cons t ts =>
    rw [Target.listReadings, Target.moreReadings_eq, List.map_cons, separated, List.map_map,
      readings_toExpr]
    refine mul_le_mul_right (le_of_eq (congrArg List.prod (List.map_congr_left fun t _ => ?_))) _
    rw [Function.comp_apply, readings_toExpr]

/-- The tokens of a call or an assignment, on whatever line. -/
def looseReadings : Stmt → Language Spaced
  | .assign targets values _ =>
    Target.listReadings targets * (sign "=" * Expr.listReadings values)
  | .call c _ => c.readings
  | _ => 0

theorem looseReadings_le (s : Stmt) (passed : Bool) :
    reportedOn passed s.line ⊓ looseReadings s ≤ s.readings passed := by
  cases s with
  | assign targets values line => rw [Stmt.readings, looseReadings, Stmt.line]
  | call c line => rw [Stmt.readings, looseReadings, Stmt.line]
  | _ => exact inf_le_right.trans bot_le

theorem nil_mem_mul {A B : Language Spaced} (h : [] ∈ A * B) : [] ∈ A ∧ [] ∈ B := by
  obtain ⟨u, first, v, second, same⟩ := Language.mem_mul.mp h
  obtain ⟨rfl, rfl⟩ := List.append_eq_nil_iff.mp same
  exact ⟨first, second⟩

theorem nil_not_mem_alone (l : Lexeme) : [] ∉ l.alone := by
  rintro ⟨p, same, -⟩
  cases same

theorem nil_not_mem_bareReadings (args : List Expr) : [] ∉ Expr.bareReadings args := by
  intro member
  unfold Expr.bareReadings at member
  split at member
  next e =>
    cases e with
    | string text line =>
      rw [Expr.isBareArgument, if_pos rfl, Expr.readings] at member
      exact nil_not_mem_alone _ member
    | table fields line =>
      rw [Expr.isBareArgument, if_pos rfl, Expr.readings] at member
      exact nil_not_mem_alone _ (nil_mem_mul member).2
    | _ => exact member
  next => exact member

/-- A call or an assignment has a token. -/
theorem nil_not_mem_looseReadings (s : Stmt) : [] ∉ looseReadings s := by
  intro member
  cases s with
  | assign targets values line =>
    exact nil_not_mem_alone _ (nil_mem_mul (nil_mem_mul member).2).1
  | call c line =>
    cases c with
    | mk callee args line =>
      rw [looseReadings, Call.readings] at member
      rcases (nil_mem_mul member).2 with parens | bare
      · exact nil_not_mem_alone _ (nil_mem_mul parens).2
      · exact nil_not_mem_bareReadings args bare
  | _ => exact member

/-- What a call or an assignment is built from are its tokens. -/
theorem readings_toStatement? {heads : List Expr} {values : Option (List Expr)} {line : Nat}
    {s : Stmt} (h : toStatement? heads values line = some s) :
    s.openEnded = true ∧ s.line = line ∧
      separated Expr.readings heads *
        values.elim 1 (fun es => sign "=" * separated Expr.readings es) ≤ looseReadings s := by
  unfold toStatement? at h
  split at h
  next values =>
    obtain ⟨targets, found, rfl⟩ := Option.map_eq_some_iff.mp h
    refine ⟨rfl, rfl, ?_⟩
    rw [Expr.eq_map_toExpr found, looseReadings]
    exact mul_le_mul' (separated_le_targets targets)
      (mul_le_mul_right (Expr.separated_le values) _)
  next =>
    split at h
    next head =>
      obtain ⟨call, found, rfl⟩ := Option.map_eq_some_iff.mp h
      refine ⟨rfl, rfl, ?_⟩
      cases head with
      | call c =>
        cases found
        simp only [separated, looseReadings, Expr.readings, List.map_nil, List.prod_nil,
          Option.elim_none, mul_one, le_refl]
      | _ => cases found
    next => cases h

theorem prefixExpr_fail {c : Cursor} (stuck : Stuck (skip c)) :
    prefixExpr expression c = .fail := by
  have nameless : nameRef c = .fail := by
    rw [nameRef, mark_bind]
    exact bind_of_fail (Stuck.name_eq (by rwa [skip_skipComments]))
  have unopened : parenExpr expression c = .fail := by
    rw [parenExpr, exact_bind]
    exact bind_of_fail (Stuck.symbol_eq (by rwa [skip_skip]) (by decide))
  exact bind_of_fail (orElse_fail nameless unopened)

/-- The line that a call or an assignment is reported on is that of the place behind the
comments. -/
theorem reported_eq {c after : Cursor} {p : Spaced} {ps : List Spaced} {l : Lexeme} {ts : List Token}
    (stand : (Footing.between passed).At text c (p :: ps))
    (front : Front text (skip c) l after ts) :
    p.reported passed = (skipComments c).line := by
  cases passed with
  | true =>
    obtain ⟨p', ps', same, token, -⟩ := stand.token front
    obtain ⟨early, laid, still⟩ := stand
    cases same
    rw [Spaced.reported, if_pos rfl, token, skipComments_of_skip_eq still, still]
  | false => exact Footing.At.early_eq stand front

theorem mem_reportedOn {c c' : Cursor} {heads : List Expr} {w ps : List Spaced}
    (stand : (Footing.between passed).At text c (w ++ ps)) (some : w ≠ [])
    (read : commaList (prefixExpr expression) (skipComments c) = .ok heads c') :
    w ∈ reportedOn passed (skipComments c).line := by
  obtain ⟨p, v, rfl⟩ := List.exists_cons_of_ne_nil some
  refine ⟨p, v, rfl, ?_⟩
  rcases stand.stuck_or_front with stuck | ⟨l, after, ts, front⟩
  · rw [commaList, bind_of_fail (prefixExpr_fail (by rwa [skip_skipComments]))] at read
    cases read
  · exact (reported_eq stand front).symm

/-- A call or an assignment is on the line that its first token is reported on. -/
theorem spans_expressionStatement (phrase : Phrase text expression) :
    SpansStmt text (.between passed) passed (expressionStatement expression) := by
  refine .of_reads fun {c s c' ps} read stand => ?_
  rw [expressionStatement, mark_bind] at read
  obtain ⟨heads, c₁, first, read⟩ := bind_eq_ok read
  obtain ⟨values, c₂, second, read⟩ := bind_eq_ok read
  have targets : Spans text (.between passed) (commaList (prefixExpr expression))
      (fun _ => .behind) (separated Expr.readings) :=
    Spans.commaList fun _ => spans_prefixExpr phrase
  obtain ⟨w, ps₁, rfl, mid, tokens⟩ := targets.reads first stand.skipComments
  obtain ⟨w', ps₂, rfl, there, tokens'⟩ := (spans_initialisers phrase).reads second mid
  cases found : toStatement? heads values (skipComments c).line with
  | none =>
    rw [found] at read
    cases read
  | some s' =>
    rw [found] at read
    cases read
    obtain ⟨goesOn, line, whole⟩ := readings_toStatement? found
    have member := whole (Language.append_mem_mul tokens tokens')
    rw [← List.append_assoc] at stand
    -- the line was taken behind the comments, before anything was known of the first token
    have some : w ++ w' ≠ [] := fun none => nil_not_mem_looseReadings s (none ▸ member)
    refine ⟨w ++ w', ps₂, (List.append_assoc ..).symm, by rw [goesOn]; exact there, ?_⟩
    exact looseReadings_le s passed ⟨line ▸ mem_reportedOn stand some first, member⟩

/-! ## Rows of statements -/

/-- The blanks are passed behind the statement; behind a semicolon they are not. -/
def passes (s : Option Stmt) : Bool := s.elim false Stmt.openEnded

/-- The tokens of a statement, or a semicolon. -/
def stepReadings (passed : Bool) (s : Option Stmt) : Language Spaced :=
  s.elim (sign ";") fun s => s.readings passed

theorem semicolon_mul_row_le (ss : List Stmt) (passed : Bool) :
    sign ";" * Stmt.rowReadings ss false ≤ Stmt.rowReadings ss passed := by
  cases ss with
  | nil =>
    rw [Stmt.rowReadings, Stmt.rowReadings]
    exact mul_kstar_le_kstar
  | cons s ss =>
    -- the semicolons of a row come in one stretch before each statement
    have several : sign ";" * (s.readings false + sign ";" * (sign ";")∗ * s.readings false) =
        sign ";" * (sign ";")∗ * s.readings false := by
      rw [← one_add_mul, Language.one_add_self_mul_kstar_eq_kstar, mul_assoc]
    rw [Stmt.rowReadings, Stmt.rowReadings, ← mul_assoc, several]
    exact mul_le_mul_left le_add_self _

theorem chained_le_row (statements : List (Option Stmt)) (passed : Bool) :
    chained passes stepReadings passed statements ≤
      Stmt.rowReadings statements.reduceOption passed := by
  induction statements generalizing passed with
  | nil =>
    rw [chained, List.reduceOption_nil, Stmt.rowReadings]
    exact one_le_kstar
  | cons s statements ih =>
    rw [chained]
    cases s with
    | none =>
      rw [List.reduceOption_cons_of_none]
      exact (mul_le_mul_right (ih false) _).trans (semicolon_mul_row_le _ passed)
    | some s =>
      rw [List.reduceOption_cons_of_some, Stmt.rowReadings]
      exact mul_le_mul' le_self_add (ih s.openEnded)

theorem chained_concat (statements : List (Option Stmt)) (passed : Bool) (s : Option Stmt) :
    chained passes stepReadings passed (statements ++ [s]) =
      chained passes stepReadings passed statements *
        stepReadings (stateAfter passes passed statements) s := by
  induction statements generalizing passed with
  | nil => rw [List.nil_append, chained, chained, chained, stateAfter, one_mul, mul_one]
  | cons s' statements ih => rw [List.cons_append, chained, chained, stateAfter, ih, mul_assoc]

section

variable (phrase : Phrase text expression) (body : SpansBlock text block)

include phrase body

theorem spans_statement (passed : Bool) :
    Spans text (.between passed) (statement expression block) (fun s => .between (passes s))
      (stepReadings passed) := by
  intro before
  rw [statement]
  refine .orElse (.seqRight (spans_symbol (by decide)) fun _ => .last rfl le_rfl) (.map ?_)
  exact .orElse (spans_localFunction body before) (.orElse (spans_localVars phrase before)
    (.orElse (spans_functionDecl body before) (.orElse (spans_doBlock body before)
    (.orElse (spans_whileLoop phrase body before) (.orElse (spans_branch phrase body before)
    (.orElse (spans_numericFor phrase body before) (.orElse (spans_genericFor phrase body before)
    (.orElse (spans_breakLoop before) (spans_expressionStatement phrase before)))))))))

theorem spans_blockOf : SpansBlock text (blockOf expression block) := by
  intro before
  rw [blockOf]
  have row : Spans text .behind (many (statement expression block))
      (fun as => .between (stateAfter passes false as)) (chained passes stepReadings false) :=
    Spans.manyFrom (spans_statement phrase body) false
  refine .mark fun place => .bind row fun statements =>
    .bind (spans_returnValues phrase (stateAfter passes false statements)).opt fun last =>
    (Consumes.pure ?_).loosen
  rw [Block.readings, mul_assoc]
  refine mul_le_mul_right ?_ before
  cases last with
  | none =>
    rw [Option.elim_none, mul_one, Option.toList_none, List.append_nil]
    exact chained_le_row statements false
  | some s =>
    have whole := chained_le_row (statements ++ [some s]) false
    rw [chained_concat, List.reduceOption_append, List.reduceOption_singleton] at whole
    exact whole

end

/-! ## The whole grammar -/

theorem spans_unary_block (depth : Nat) :
    SpansLevel text (unary depth) ∧ SpansBlock text (Grammar.block depth) := by
  induction depth with
  | zero => exact ⟨fun _ _ => .fail, fun _ => .fail⟩
  | succ depth ih =>
    obtain ⟨nested, body⟩ := ih
    have phrase : Phrase text (expressionOf (unary depth)) :=
      ⟨spans_expressionOf nested, refuses_expression depth⟩
    rw [unary, Grammar.block]
    exact ⟨spans_unaryOf nested phrase body, spans_blockOf phrase body⟩

end Grammar

end MiniLua

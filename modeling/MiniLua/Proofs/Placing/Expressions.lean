import MiniLua.Proofs.Placing.Consuming

/-!
# The tokens of expressions

Every production for expressions reads a stretch of tokens that its answer can be read from. Behind
an expression the grammar has skipped to the next token, since it has looked for a `^` there.
-/

namespace MiniLua

open MiniLua.Parser

variable {text : List Char} {entry : Footing} {before : Language Spaced} {α β : Type}

theorem Consumes.seqRight {p : Parser α} {q : Parser β} {mid : α → Footing} {own : Language Spaced}
    {exit : β → Footing} {built : β → Language Spaced} (hp : Spans text entry p mid fun _ => own)
    (hq : ∀ a, Consumes text (mid a) (before * own) q exit built) :
    Consumes text entry before (p *> q) exit built :=
  .bind hp hq

/-- A parser behind one whose answer is not kept. -/
theorem Spans.seqRight {p : Parser α} {q : Parser β} {mid : α → Footing} {led : Language Spaced}
    {exit : β → Footing} {own : β → Language Spaced} (hp : Spans text entry p mid fun _ => led)
    (hq : ∀ a, Spans text (mid a) q exit own) :
    Spans text entry (p *> q) exit fun b => led * own b := by
  refine fun before => .seqRight hp fun a => ?_
  simp only [← mul_assoc]
  exact hq a _

theorem Spans.commaList {p : Parser α} {foot : Footing} {own : α → Language Spaced}
    (h : ∀ entry, Spans text entry p (fun _ => foot) own) :
    Spans text entry (Parser.commaList p) (fun _ => foot) (separated own) := by
  intro before
  rw [Parser.commaList]
  have others : Spans text foot (Parser.symbol "," *> p) (fun _ => foot)
      fun a => sign "," * own a := .seqRight (spans_symbol (by decide)) fun _ => h _
  refine .bind (h entry) fun first => .bind others.many fun rest => .pure ?_
  rw [separated, mul_assoc]

/-! ## Lists in trees -/

section

variable {own : α → Language Spaced}

theorem eq_prod_map {listed : List α → Language Spaced} (none : listed [] = 1)
    (more : ∀ a as, listed (a :: as) = own a * listed as) (as : List α) :
    listed as = (as.map own).prod := by
  induction as with
  | nil => rw [none, List.map_nil, List.prod_nil]
  | cons a as ih => rw [more, ih, List.map_cons, List.prod_cons]

/-- Where each step reads something behind, so do all steps. -/
theorem foldl_eq_mul_prod {read : β → Language Spaced} {step : β → α → β}
    (behind : ∀ b a, read (step b a) = read b * own a) (b : β) (as : List α) :
    read (as.foldl step b) = read b * (as.map own).prod := by
  induction as generalizing b with
  | nil => rw [List.foldl_nil, List.map_nil, List.prod_nil, mul_one]
  | cons a as ih => rw [List.foldl_cons, ih, behind, List.map_cons, List.prod_cons, mul_assoc]

end

theorem Expr.moreReadings_eq : ∀ es : List Expr,
    Expr.moreReadings es = (es.map fun e => sign "," * e.readings).prod :=
  eq_prod_map (by rw [Expr.moreReadings]) fun _ _ => by rw [Expr.moreReadings]

theorem Expr.separated_le (es : List Expr) :
    separated Expr.readings es ≤ Expr.listReadings es := by
  cases es with
  | nil => exact bot_le
  | cons e es => rw [Expr.listReadings, separated, Expr.moreReadings_eq]

theorem separated_le_names (ns : List String) :
    separated (fun n => (Lexeme.name n).alone) ns ≤ namesReadings ns := by
  cases ns with
  | nil => exact bot_le
  | cons n ns => exact le_rfl

theorem Field.moreReadings_eq : ∀ fs : List Field,
    Field.moreReadings fs = (fs.map fun f => (sign "," + sign ";") * f.readings).prod :=
  eq_prod_map (by rw [Field.moreReadings]) fun _ _ => by rw [Field.moreReadings]

theorem Target.moreReadings_eq : ∀ ts : List Target,
    Target.moreReadings ts = (ts.map fun t => sign "," * t.readings).prod :=
  eq_prod_map (by rw [Target.moreReadings]) fun _ _ => by rw [Target.moreReadings]

theorem Clause.moreReadings_eq : ∀ cs : List Clause,
    Clause.moreReadings cs = (cs.map fun c => word "elseif" * c.readings).prod :=
  eq_prod_map (by rw [Clause.moreReadings]) fun _ _ => by rw [Clause.moreReadings]

theorem Expr.bareReadings_le (e : Expr) : Expr.bareReadings [e] ≤ e.readings := by
  rw [Expr.bareReadings]
  split
  next => exact le_rfl
  next => exact bot_le

namespace Grammar

variable {expression : Parser Expr} {block : Parser Block}

/-- From anywhere on, `p` reads an expression and skips to the next token. -/
def SpansLevel (text : List Char) (p : Parser Expr) : Prop :=
  ∀ entry, Spans text entry p (fun _ => .before) Expr.readings

/-- Behind a token, `block` reads a block. -/
def SpansBlock (text : List Char) (block : Parser Block) : Prop :=
  Spans text .behind block (fun _ => .anywhere) Block.readings

/-- What is needed of a parser for expressions. -/
structure Phrase (text : List Char) (expression : Parser Expr) : Prop where
  spans : SpansLevel text expression
  refuses : Refuses expression

theorem spans_literal : Spans text entry literal (fun _ => .behind) Expr.readings := by
  intro before
  rw [literal]
  refine .exact fun place => ?_
  refine .orElse (.seqRight (spans_keyword (by simp [keywords])) fun _ => .pure ?_) ?_
  · rw [Expr.readings]
  refine .orElse (.seqRight (spans_keyword (by simp [keywords])) fun _ => .pure ?_) ?_
  · rw [Expr.readings]
  refine .orElse (.seqRight (spans_keyword (by simp [keywords])) fun _ => .pure ?_) ?_
  · rw [Expr.readings]
  refine .orElse (.bind spans_number fun value => .pure ?_) ?_
  · rw [Expr.readings]
  refine .bind spans_string fun text => .pure ?_
  rw [Expr.readings]

theorem spans_nameRef : Spans text entry nameRef (fun _ => .behind) Expr.readings := by
  intro before
  rw [nameRef]
  refine .mark fun place => .bind spans_name fun n => .pure ?_
  rw [Expr.readings]

/-- The parameters and the body of a function, and `end`. -/
def bodyReadings (body : List String × Block) : Language Spaced :=
  sign "(" * namesReadings body.1 * sign ")" * body.2.readings * word "end"

theorem spans_functionBody (body : SpansBlock text block) :
    Spans text entry (functionBody block) (fun _ => .behind) bodyReadings := by
  intro before
  rw [functionBody]
  refine .bind (spans_symbol (by decide)) fun _ =>
    .bind (Spans.commaList fun _ => spans_name).opt fun params =>
    .bind (spans_symbol (by decide)) fun _ => .bind body fun b =>
    .bind (spans_keyword (by simp [keywords])) fun _ => .pure ?_
  have names : params.elim 1 (separated fun n => (Lexeme.name n).alone) ≤
      namesReadings (params.getD []) := by
    cases params with
    | none => exact le_rfl
    | some params => exact separated_le_names params
  rw [bodyReadings]
  simp only [mul_assoc]
  gcongr

theorem spans_functionExpr (body : SpansBlock text block) :
    Spans text entry (functionExpr block) (fun _ => .behind) Expr.readings := by
  intro before
  rw [functionExpr]
  refine .exact fun place => .bind (spans_keyword (by simp [keywords])) fun _ =>
    .bind (spans_functionBody body) fun parts => .pure ?_
  rw [Expr.readings, Lambda.readings, mul_assoc, bodyReadings]

section

variable (phrase : Phrase text expression)

include phrase

theorem spans_expressionList : Spans text entry (expressionList expression) (fun _ => .before)
    (separated Expr.readings) := by
  intro before
  rw [expressionList]
  exact .exact fun _ => Spans.commaList phrase.spans before

/-- Expressions that may be left out. -/
theorem spans_optExpressions :
    Spans text entry (opt (expressionList expression)) (fun _ => .before)
      fun values => Expr.listReadings (values.getD []) := by
  refine (spans_expressionList phrase).optBefore.mono fun values => ?_
  cases values with
  | none => rw [Option.getD_none, Option.elim_none, Expr.listReadings]
  | some values => exact Expr.separated_le values

/-! ## Tables -/

theorem spans_bracketField :
    Spans text entry (bracketField expression) (fun _ => .before) Field.readings := by
  intro before
  rw [bracketField]
  refine .exact fun place => .bracket (phrase.refuses.bind _) (.bind (phrase.spans _) fun key =>
    .bind (spans_symbol (by decide)) fun _ => .equals (phrase.refuses.bind _)
    (.bind (phrase.spans _) fun value => .pure ?_))
  rw [Field.readings, add_mul, add_mul, mul_add]
  refine le_self_add.trans' (le_of_eq ?_)
  simp only [mul_assoc]

theorem spans_namedField :
    Spans text entry (namedField expression) (fun _ => .before) Field.readings := by
  intro before
  rw [namedField]
  refine .mark fun place => .bind spans_name fun n => .equals (phrase.refuses.bind _)
    (.bind (phrase.spans _) fun value => .pure ?_)
  rw [Field.readings, add_mul, add_mul, mul_add]
  refine le_add_self.trans' (le_of_eq ?_)
  simp only [Expr.nameReadings, mul_assoc]

theorem spans_positionalField :
    Spans text entry (positionalField expression) (fun _ => .before) Field.readings := by
  intro before
  rw [positionalField]
  refine .exact fun place => .bind (phrase.spans _) fun value => .pure ?_
  rw [Field.readings]

theorem spans_field : Spans text entry (field expression) (fun _ => .before) Field.readings :=
  fun before => .orElse (spans_bracketField phrase before)
    (.orElse (spans_namedField phrase before) (spans_positionalField phrase before))

omit phrase in
theorem spans_fieldSeparator :
    Spans text entry fieldSeparator (fun _ => .behind) fun _ => sign "," + sign ";" :=
  fun before => .orElse ((spans_symbol (by decide)).mono (fun _ => le_self_add) before)
    ((spans_symbol (by decide)).mono (fun _ => le_add_self) before)

theorem spans_fieldList :
    Spans text entry (fieldList expression) (fun _ => .anywhere) Field.listReadings := by
  intro before
  rw [fieldList]
  have others : Spans text .before (fieldSeparator *> field expression)
      (fun _ => .before) fun f => (sign "," + sign ";") * f.readings :=
    .seqRight spans_fieldSeparator fun _ => spans_field phrase
  refine .bind (spans_field phrase) fun first => .bind others.many fun rest =>
    .bind spans_fieldSeparator.opt fun last => (Consumes.pure ?_).loosen
  rw [Field.listReadings, Field.moreReadings_eq]
  simp only [mul_assoc]
  gcongr
  cases last with
  | none => exact le_self_add
  | some _ => exact le_add_self

theorem spans_tableConstructor : Spans text entry (tableConstructor expression) (fun _ => .behind)
    fun e => Expr.bareReadings [e] := by
  intro before
  rw [tableConstructor]
  refine .exact fun place => .bind (spans_symbol (by decide)) fun _ =>
    .bind (spans_fieldList phrase).opt fun fields => .bind (spans_symbol (by decide)) fun _ =>
    .pure (le_of_eq ?_)
  dsimp only
  rw [Expr.bareReadings, Expr.isBareArgument, if_pos rfl, Expr.readings]
  cases fields with
  | none => simp only [mul_assoc]; rfl
  | some fields => simp only [mul_assoc]; rfl

/-! ## Suffixes -/

theorem spans_parenExpr :
    Spans text entry (parenExpr expression) (fun _ => .behind) Expr.readings := by
  intro before
  rw [parenExpr]
  refine .exact fun place => .bind (spans_symbol (by decide)) fun _ => .bind (phrase.spans _)
    fun inner => .bind (spans_symbol (by decide)) fun _ => .pure (le_of_eq ?_)
  simp only [Expr.readings, mul_assoc]

/-- The arguments of a call, in parentheses or not. -/
def argsReadings (args : List Expr) : Language Spaced :=
  sign "(" * Expr.listReadings args * sign ")" + Expr.bareReadings args

theorem spans_parenArgs :
    Spans text entry (parenArgs expression) (fun _ => .behind) argsReadings := by
  intro before
  rw [parenArgs]
  refine .bind (spans_symbol (by decide)) fun _ => .bind (spans_optExpressions phrase)
    fun args => .bind (spans_symbol (by decide)) fun _ => .pure ?_
  rw [argsReadings, mul_add]
  refine le_self_add.trans' (le_of_eq ?_)
  simp only [mul_assoc]

omit phrase in
theorem spans_stringArg : Spans text entry stringArg (fun _ => .behind) argsReadings := by
  intro before
  rw [stringArg]
  refine .exact fun place => .bind spans_string fun s => .pure ?_
  rw [argsReadings, Expr.bareReadings, Expr.isBareArgument, if_pos rfl, Expr.readings]
  exact mul_le_mul_right le_add_self before

theorem spans_callArgs :
    Spans text entry (callArgs expression) (fun _ => .behind) argsReadings := by
  intro before
  rw [callArgs]
  refine .orElse (spans_parenArgs phrase before) (.orElse ?_ (spans_stringArg before))
  refine .bind (spans_tableConstructor phrase) fun t => .pure ?_
  exact mul_le_mul_right le_add_self before

omit phrase in
/-- What is read behind the expression that a suffix is applied to. -/
def Suffix.readings : Suffix → Language Spaced
  | index key _ => sign "[" * key.readings * sign "]" + sign "." * key.nameReadings
  | call args _ => argsReadings args

omit phrase in
theorem Suffix.readings_apply (head : Expr) (s : Suffix) :
    (s.apply head).readings = head.readings * s.readings := by
  cases s with
  | index key line => rw [Suffix.apply, Expr.readings, Suffix.readings]
  | call args line => rw [Suffix.apply, Expr.readings, Call.readings, Suffix.readings, argsReadings]

theorem spans_suffix : Spans text entry (suffix expression) (fun _ => .behind) Suffix.readings := by
  intro before
  rw [suffix]
  refine .orElse ?_ (.orElse ?_ ?_)
  · rw [indexSuffix]
    refine .exact fun place => .bracket (phrase.refuses.bind _) (.bind (phrase.spans _) fun key =>
      .bind (spans_symbol (by decide)) fun _ => .pure ?_)
    rw [Suffix.readings, mul_add]
    refine le_self_add.trans' (le_of_eq ?_)
    simp only [mul_assoc]
  · rw [fieldSuffix]
    refine .exact fun place => .point bind_of_fail (.bind spans_name fun n => .pure ?_)
    rw [Suffix.readings, mul_add]
    refine le_add_self.trans' (le_of_eq ?_)
    simp only [Expr.nameReadings, mul_assoc]
  · rw [callSuffix]
    exact .here fun place => .bind (spans_callArgs phrase) fun args => .pure le_rfl

theorem spans_prefixExpr :
    Spans text entry (prefixExpr expression) (fun _ => .behind) Expr.readings := by
  intro before
  rw [prefixExpr]
  have head : Spans text entry (nameRef <|> parenExpr expression) (fun _ => .behind)
      Expr.readings := fun before => .orElse (spans_nameRef before) (spans_parenExpr phrase before)
  refine .bind head fun head => .bind (spans_suffix phrase).many fun suffixes => .pure ?_
  rw [foldl_eq_mul_prod Suffix.readings_apply, mul_assoc]

theorem spans_simpleExpr (body : SpansBlock text block) :
    Spans text entry (simpleExpr expression block) (fun _ => .behind) Expr.readings :=
  fun before => .orElse (spans_literal before) (.orElse (spans_functionExpr body before)
    (.orElse ((spans_tableConstructor phrase).mono Expr.bareReadings_le before)
      (spans_prefixExpr phrase before)))

end

/-! ## Operators -/

theorem readings_binaryAt (left : Expr) (op : BinaryOp) (right : Expr) :
    (binaryAt left op right).readings = left.readings * sign op.symbol * right.readings := by
  rw [binaryAt, Expr.readings]

theorem readings_concatChain (first : Expr) (rest : List Expr) :
    (concatChain first rest).readings =
      first.readings * (rest.map fun e => sign ".." * e.readings).prod := by
  induction rest generalizing first with
  | nil => rw [concatChain, List.map_nil, List.prod_nil, mul_one]
  | cons second rest ih =>
    rw [concatChain, readings_binaryAt, ih, List.map_cons, List.prod_cons]
    simp only [mul_assoc]
    rfl

variable {p : Parser Expr}

theorem spans_logicalLevel {op : Connective} (h : SpansLevel text p) :
    SpansLevel text (logicalLevel op p) := by
  intro entry before
  rw [logicalLevel]
  have known : op.word ∈ keywords := by cases op <;> simp [keywords, Connective.word]
  have others : Spans text .before (keyword op.word *> p) (fun _ => .before)
      fun e => word op.word * e.readings := .seqRight (spans_keyword known) fun _ => h _
  refine .bind (h _) fun first => .bind others.many fun rest => .pure ?_
  have logical (left right : Expr) : (Expr.logical op left right left.line).readings =
      left.readings * (word op.word * right.readings) := by rw [Expr.readings, mul_assoc]
  rw [foldl_eq_mul_prod logical, mul_assoc]

theorem spans_concatLevel (h : SpansLevel text p) : SpansLevel text (concatLevel p) := by
  intro entry before
  rw [concatLevel]
  have others : Spans text .before (symbol ".." *> p) (fun _ => .before)
      fun e => sign ".." * e.readings := .seqRight (spans_symbol (by decide)) fun _ => h _
  refine .bind (h _) fun first => .bind others.many fun rest => .pure ?_
  rw [readings_concatChain, mul_assoc]

theorem spans_leftLevel {ops : List BinaryOp} (guarded : Guarded ops) (h : SpansLevel text p) :
    SpansLevel text (leftLevel ops p) := by
  intro entry before
  rw [leftLevel]
  have others : Spans text .before
      (operatorOf ops >>= fun op => p >>= fun right => pure (op, right)) (fun _ => .before)
      fun step => sign step.1.symbol * step.2.readings := fun before =>
    .bind (spans_operatorOf guarded) fun op => .bind (h _) fun right => .pure (mul_assoc ..).le
  refine .bind (h _) fun first => .bind others.many fun rest => .pure ?_
  have binary (left : Expr) (step : BinaryOp × Expr) : (binaryAt left step.1 step.2).readings =
      left.readings * (sign step.1.symbol * step.2.readings) := by
    rw [readings_binaryAt, mul_assoc]
  rw [foldl_eq_mul_prod binary, mul_assoc]

theorem spans_expressionOf (h : SpansLevel text p) : SpansLevel text (expressionOf p) := by
  rw [expressionOf]
  have products : SpansLevel text (leftLevel mulOps p) := spans_leftLevel (by decide) h
  have sums : SpansLevel text (leftLevel addOps _) := spans_leftLevel (by decide) products
  have joined := spans_concatLevel sums
  have compared : SpansLevel text (leftLevel compareOps _) := spans_leftLevel (by decide) joined
  exact spans_logicalLevel (spans_logicalLevel compared)

theorem spans_powerExpr {simple : Parser Expr}
    (hs : ∀ entry, Spans text entry simple (fun _ => .behind) Expr.readings)
    (h : SpansLevel text p) : SpansLevel text (powerExpr simple p) := by
  intro entry before
  rw [powerExpr]
  have power : Spans text .behind (symbol "^" *> p) (fun _ => .before)
      fun e => sign "^" * e.readings := .seqRight (spans_symbol (by decide)) fun _ => h _
  refine .bind (hs _) fun base => .bind power.opt fun exponent => ?_
  cases exponent with
  | none => exact .pure (mul_one _).le
  | some exponent =>
    refine .pure ?_
    rw [readings_binaryAt]
    simp only [mul_assoc]
    rfl

theorem spans_unaryOperation (h : SpansLevel text p) : SpansLevel text (unaryOperation p) := by
  intro entry before
  rw [unaryOperation]
  have operator : ∀ entry, Spans text entry unaryOperator (fun _ => .behind)
      fun op => op.lexeme.alone := fun _ before =>
    .orElse (.seqRight (spans_keyword (by simp [keywords])) fun _ => .pure le_rfl)
      (.orElse (.seqRight (spans_symbol (by decide)) fun _ => .pure le_rfl)
        (.seqRight (spans_symbol (by decide)) fun _ => .pure le_rfl))
  refine .exact fun place => .bind (operator _) fun op => .bind (h _) fun e => .pure ?_
  rw [Expr.readings, mul_assoc]

theorem spans_unaryOf (h : SpansLevel text p) (phrase : Phrase text (expressionOf p))
    (body : SpansBlock text block) :
    SpansLevel text (unaryOf p block) := fun entry before =>
  .orElse (spans_unaryOperation h entry before)
    (spans_powerExpr (fun _ => spans_simpleExpr phrase body) h entry before)

end Grammar

end MiniLua

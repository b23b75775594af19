import MiniLua.Proofs.Reading.Tracking

/-!
# The literals of expressions

Every production for expressions reads its literals from the tokens in order.
-/

namespace MiniLua

open MiniLua.Parser

variable {text : List Char} {before : List Literal} {α β : Type}

/-! ## Further combinators -/

theorem Reads.seqRight {p : Parser α} {q : Parser β} {built : β → List Literal}
    (hp : Silent text p) (hq : Reads text before q built) :
    Reads text before (p *> q) built :=
  .next hp fun _ => hq

theorem Reads.map {p : Parser α} {f : α → β} {built : β → List Literal}
    (h : Reads text before p fun a => built (f a)) : Reads text before (f <$> p) built where
  grows read := by
    obtain ⟨a, c₁, first, done⟩ := bind_eq_ok read
    cases done
    exact h.grows first
  tracks read aligned := by
    obtain ⟨a, c₁, first, done⟩ := bind_eq_ok read
    cases done
    exact h.tracks first aligned

theorem Adds.commaList {p : Parser α} {own : α → List Literal} (h : Adds text p own) :
    Adds text (Parser.commaList p) fun as => as.flatMap own := by
  intro before
  rw [Parser.commaList]
  have others : Adds text (Parser.symbol "," >>= fun _ => p) own := fun before =>
    .next (silent_symbol (by decide)) fun _ => h before
  refine .bind h fun first => .bind others.many fun rest => .pure ?_
  dsimp only
  rw [List.flatMap_cons, List.append_assoc]

namespace Grammar

variable {expression : Parser Expr} {block : Parser Block}

theorem adds_literal : Adds text literal Expr.literals := by
  intro before
  rw [literal]
  refine .next silent_exact fun place => ?_
  refine .orElse (.seqRight (silent_keyword (by simp [keywords])) (.pure ?_)) ?_
  · rw [Expr.literals, List.append_nil]
  refine .orElse (.seqRight (silent_keyword (by simp [keywords])) (.pure ?_)) ?_
  · rw [Expr.literals, List.append_nil]
  refine .orElse (.seqRight (silent_keyword (by simp [keywords])) (.pure ?_)) ?_
  · rw [Expr.literals, List.append_nil]
  refine .orElse (.bind adds_number fun value => .pure ?_) ?_
  · rw [Expr.literals]
  refine .bind adds_string fun text => .pure ?_
  rw [Expr.literals]

theorem adds_nameRef : Adds text nameRef Expr.literals := by
  intro before
  rw [nameRef]
  refine .next silent_mark fun place => .bind adds_name fun n => .pure ?_
  rw [Expr.literals]

theorem adds_names : Adds text (commaList name) Literal.names :=
  adds_name.commaList.congr fun _ => List.map_eq_flatMap

/-- The literals of a function's parameters and body. -/
def bodyLiterals (body : List String × Block) : List Literal :=
  Literal.names body.1 ++ body.2.literals

theorem adds_functionBody (body : Adds text block Block.literals) :
    Adds text (functionBody block) bodyLiterals := by
  intro before
  rw [functionBody]
  refine .next (silent_symbol (by decide)) fun _ => .bind adds_names.opt fun params =>
    .next (silent_symbol (by decide)) fun _ => .bind body fun b =>
    .next (silent_keyword (by simp [keywords])) fun _ => .pure ?_
  cases params <;> simp [bodyLiterals, Literal.names]

theorem adds_functionExpr (body : Adds text block Block.literals) :
    Adds text (functionExpr block) Expr.literals := by
  intro before
  rw [functionExpr]
  refine .next silent_exact fun place => .next (silent_keyword (by simp [keywords])) fun _ =>
    .bind (adds_functionBody body) fun parts => .pure ?_
  rw [Expr.literals, Lambda.literals, bodyLiterals]

section

variable (operand : Operand text expression)

include operand

theorem adds_expressionList : Adds text (expressionList expression) Expr.allLiterals := by
  intro before
  rw [expressionList]
  exact .next silent_exact fun _ => operand.adds.commaList.congr Expr.allLiterals_eq before

theorem expressionList_fail {c : Cursor} (barren : Barren c) (unquoted : string c = .fail) :
    expressionList expression c = .fail := by
  have none := operand.refuses barren.skip ((string_congr (skip_skip c)).trans unquoted)
  rw [expressionList, exact_bind, commaList, bind_of_fail none]

/-! ## Tables -/

theorem adds_bracketField : Adds text (bracketField expression) Field.literals := by
  intro before
  rw [bracketField]
  refine .next silent_exact fun place => .bracket operand fun key =>
    .next (silent_symbol (by decide)) fun _ => .equals (fun barren unquoted => ?_) ?_
  · exact bind_of_fail (operand.refuses barren unquoted)
  · refine .bind operand.adds fun value => .pure ?_
    rw [Field.literals, List.append_assoc]

theorem adds_namedField : Adds text (namedField expression) Field.literals := by
  intro before
  rw [namedField]
  refine .next silent_mark fun place => .bind adds_name fun n =>
    .equals (fun barren unquoted => ?_) ?_
  · exact bind_of_fail (operand.refuses barren unquoted)
  · refine .bind operand.adds fun value => .pure ?_
    rw [Field.literals, Expr.literals, List.append_assoc]

theorem adds_positionalField : Adds text (positionalField expression) Field.literals := by
  intro before
  rw [positionalField]
  refine .next silent_exact fun place => .bind operand.adds fun value => .pure ?_
  rw [Field.literals]

theorem adds_field : Adds text (field expression) Field.literals := fun before =>
  .orElse (adds_bracketField operand before)
    (.orElse (adds_namedField operand before) (adds_positionalField operand before))

omit operand in
theorem silent_fieldSeparator : Silent text fieldSeparator := fun before =>
  .orElse (silent_symbol (by decide) before) (silent_symbol (by decide) before)

theorem adds_fieldList : Adds text (fieldList expression) Field.allLiterals := by
  intro before
  rw [fieldList]
  have others : Adds text (fieldSeparator >>= fun _ => field expression) Field.literals :=
    fun before => .next silent_fieldSeparator fun _ => adds_field operand before
  refine .bind (adds_field operand) fun first => .bind others.many fun rest =>
    .next silent_fieldSeparator.opt fun _ => .pure ?_
  rw [Field.allLiterals_eq, List.flatMap_cons, List.append_assoc]

theorem adds_tableConstructor : Adds text (tableConstructor expression) Expr.literals := by
  intro before
  rw [tableConstructor]
  refine .next silent_exact fun place => .next (silent_symbol (by decide)) fun _ =>
    .bind (adds_fieldList operand).opt fun fields =>
    .next (silent_symbol (by decide)) fun _ => .pure ?_
  cases fields <;> rw [Expr.literals] <;> rfl

/-! ## Suffixes -/

theorem adds_parenExpr : Adds text (parenExpr expression) Expr.literals := by
  intro before
  rw [parenExpr]
  refine .next silent_exact fun place => .next (silent_symbol (by decide)) fun _ =>
    .bind operand.adds fun inner => .next (silent_symbol (by decide)) fun _ => .pure ?_
  rw [Expr.literals]

theorem adds_parenArgs : Adds text (parenArgs expression) Expr.allLiterals := by
  intro before
  rw [parenArgs]
  refine .next (silent_symbol (by decide)) fun _ => .bind (adds_expressionList operand).opt
    fun args => .next (silent_symbol (by decide)) fun _ => .pure ?_
  cases args <;> rfl

omit operand in
theorem adds_stringArg : Adds text stringArg Expr.allLiterals := by
  intro before
  rw [stringArg]
  refine .next silent_exact fun place => .bind adds_string fun s => .pure ?_
  rw [Expr.allLiterals, Expr.literals, Expr.allLiterals, List.append_nil]

theorem adds_callArgs : Adds text (callArgs expression) Expr.allLiterals := by
  intro before
  rw [callArgs]
  refine .orElse (adds_parenArgs operand before) (.orElse ?_ (adds_stringArg before))
  refine .bind (adds_tableConstructor operand) fun t => .pure ?_
  rw [Expr.allLiterals, Expr.allLiterals, List.append_nil]

end

def Suffix.literals : Suffix → List Literal
  | index key _ => key.literals
  | call args _ => Expr.allLiterals args

theorem Suffix.literals_apply (head : Expr) (s : Suffix) :
    (s.apply head).literals = head.literals ++ s.literals := by
  cases s with
  | index key line => rw [Suffix.apply, Expr.literals, Suffix.literals]
  | call args line => rw [Suffix.apply, Expr.literals, Call.literals, Suffix.literals]

theorem Suffix.literals_foldl (head : Expr) (suffixes : List Suffix) :
    (suffixes.foldl Suffix.apply head).literals =
      head.literals ++ suffixes.flatMap Suffix.literals := by
  induction suffixes generalizing head with
  | nil => rw [List.foldl_nil, List.flatMap_nil, List.append_nil]
  | cons s suffixes ih =>
    rw [List.foldl_cons, ih, Suffix.literals_apply, List.flatMap_cons, List.append_assoc]

section

variable (operand : Operand text expression)

include operand

theorem adds_suffix : Adds text (suffix expression) Suffix.literals := by
  intro before
  rw [suffix]
  refine .orElse ?_ (.orElse ?_ ?_)
  · rw [indexSuffix]
    exact .next silent_exact fun place => .bracket operand fun key =>
      .next (silent_symbol (by decide)) fun _ => .pure rfl
  · rw [fieldSuffix]
    refine .next silent_exact fun place => .point bind_of_fail (.bind adds_name fun n => .pure ?_)
    rw [Suffix.literals, Expr.literals]
  · rw [callSuffix]
    exact .next silent_here fun place => .bind (adds_callArgs operand) fun args => .pure rfl

theorem adds_prefixExpr : Adds text (prefixExpr expression) Expr.literals := by
  intro before
  rw [prefixExpr]
  have head : Adds text (nameRef <|> parenExpr expression) Expr.literals := fun before =>
    .orElse (adds_nameRef before) (adds_parenExpr operand before)
  refine .bind head fun head => .bind (adds_suffix operand).many fun suffixes => .pure ?_
  rw [Suffix.literals_foldl, List.append_assoc]

theorem adds_simpleExpr (body : Adds text block Block.literals) :
    Adds text (simpleExpr expression block) Expr.literals := fun before =>
  .orElse (adds_literal before) (.orElse (adds_functionExpr body before)
    (.orElse (adds_tableConstructor operand before) (adds_prefixExpr operand before)))

end

/-! ## Operators -/

variable {p : Parser Expr}

theorem adds_logicalLevel {op : Connective} (h : Adds text p Expr.literals) :
    Adds text (logicalLevel op p) Expr.literals := by
  intro before
  rw [logicalLevel]
  have known : op.word ∈ keywords := by cases op <;> simp [keywords, Connective.word]
  have others : Adds text (keyword op.word >>= fun _ => p) Expr.literals := fun before =>
    .next (silent_keyword known) fun _ => h before
  refine .bind h fun first => .bind others.many fun rest => .pure ?_
  rw [literals_logical_foldl, List.append_assoc]

theorem adds_concatLevel (h : Adds text p Expr.literals) :
    Adds text (concatLevel p) Expr.literals := by
  intro before
  rw [concatLevel]
  have others : Adds text (symbol ".." >>= fun _ => p) Expr.literals := fun before =>
    .next (silent_symbol (by decide)) fun _ => h before
  refine .bind h fun first => .bind others.many fun rest => .pure ?_
  rw [literals_concatChain, List.append_assoc]

theorem adds_leftLevel (ops : List BinaryOp) (operators : Silent text (operatorOf ops))
    (h : Adds text p Expr.literals) : Adds text (leftLevel ops p) Expr.literals := by
  intro before
  rw [leftLevel]
  have others : Adds text (operatorOf ops >>= fun op => p >>= fun right => pure (op, right))
      fun step => step.2.literals := fun before =>
    .next operators fun op => .bind h fun right => .pure rfl
  refine .bind h fun first => .bind others.many fun rest => .pure ?_
  rw [literals_binary_foldl, List.append_assoc]

theorem silent_operatorOf {ops : List BinaryOp} (guarded : Guarded ops) :
    Silent text (operatorOf ops) := by
  refine Reads.terminal fun {c op c' ts} read aligned => ?_
  rcases aligned.stuck_or_front with stuck | ⟨lexeme, after, ts', front, rfl⟩
  · rw [stuck.operatorOf_eq guarded] at read
    cases read
  · rw [front.operatorOf_eq guarded] at read
    cases found : ops.find? (lexeme = .symbol ·.symbol) with
    | none =>
      rw [found] at read
      cases read
    | some op =>
      rw [found] at read
      cases read
      obtain rfl : lexeme = .symbol op.symbol := by simpa using List.find?_some found
      exact ⟨_, ts', front, rfl, rfl⟩

theorem adds_expressionOf (h : Adds text p Expr.literals) :
    Adds text (expressionOf p) Expr.literals := by
  rw [expressionOf]
  have products := adds_leftLevel mulOps (silent_operatorOf (by decide)) h
  have sums := adds_leftLevel addOps (silent_operatorOf (by decide)) products
  have joined := adds_concatLevel sums
  have compared := adds_leftLevel compareOps (silent_operatorOf (by decide)) joined
  exact adds_logicalLevel (adds_logicalLevel compared)

theorem adds_powerExpr {simple : Parser Expr} (hs : Adds text simple Expr.literals)
    (h : Adds text p Expr.literals) : Adds text (powerExpr simple p) Expr.literals := by
  intro before
  rw [powerExpr]
  have power : Adds text (symbol "^" *> p) Expr.literals := fun before =>
    .seqRight (silent_symbol (by decide)) (h before)
  refine .bind hs fun base => .bind power.opt fun exponent => ?_
  cases exponent with
  | none => exact .pure (List.append_nil _).symm
  | some exponent =>
    refine .pure ?_
    rw [literals_binaryAt, List.append_assoc]
    rfl

theorem adds_unaryOf (h : Adds text p Expr.literals) (operand : Operand text (expressionOf p))
    (body : Adds text block Block.literals) : Adds text (unaryOf p block) Expr.literals := by
  intro before
  rw [unaryOf]
  refine .orElse ?_ (adds_powerExpr (adds_simpleExpr operand body) h before)
  have operator : Silent text unaryOperator := fun before =>
    .orElse (.seqRight (silent_keyword (by simp [keywords])) (.pure (List.append_nil _)))
      (.orElse (.seqRight (silent_symbol (by decide)) (.pure (List.append_nil _)))
        (.seqRight (silent_symbol (by decide)) (.pure (List.append_nil _))))
  rw [unaryOperation]
  refine .next silent_exact fun place => .next operator fun op => .bind h fun e => .pure ?_
  rw [Expr.literals]

end Grammar

end MiniLua

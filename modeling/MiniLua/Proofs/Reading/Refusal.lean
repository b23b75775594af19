import MiniLua.Proofs.Reading.Literals
import MiniLua.Proofs.Reading.Steps

/-!
# Where no expression starts

An expression starts with one of few terminals. Where none of these is read there is no expression,
and where only a string is read the expression starts with that string.
-/

namespace MiniLua.Grammar

open MiniLua.Text MiniLua.Spelling MiniLua.Parser MiniLua.Lexer

variable {c c' : Cursor} {expression : Parser Expr} {block : Parser Block}

/-- Nothing that an expression may start with is read here, strings apart. -/
structure Barren (c : Cursor) : Prop where
  keyword : ∀ word ∈ ["nil", "true", "false", "function", "not"], Parser.keyword word c = .fail
  symbol : ∀ s ∈ ["\x7b", "(", "#", "-"], Parser.symbol s c = .fail
  name : Parser.name c = .fail
  number : Parser.number c = .fail

namespace Barren

theorem congr {d : Cursor} (h : Barren c) (same : Parser.skip d = Parser.skip c) : Barren d where
  keyword word known := (keyword_congr same word).trans (h.keyword word known)
  symbol s known := (symbol_congr same s).trans (h.symbol s known)
  name := (name_congr same).trans h.name
  number := (number_congr same).trans h.number

theorem skip (h : Barren c) : Barren (Parser.skip c) := h.congr (skip_skip c)

theorem skipComments (h : Barren c) : Barren (Parser.skipComments c) :=
  h.congr (skip_skipComments c)

theorem literal_eq (h : Barren c) : literal c =
    (string >>= fun text => pure (.string text (Parser.skip c).line)) (Parser.skip c) := by
  have words := h.skip.keyword
  rw [literal, exact_bind, orElse_of_fail (seqRight_of_fail (words "nil" (by decide))),
    orElse_of_fail (seqRight_of_fail (words "true" (by decide))),
    orElse_of_fail (seqRight_of_fail (words "false" (by decide))),
    orElse_of_fail (bind_of_fail h.skip.number)]

theorem functionExpr_fail (h : Barren c) : functionExpr block c = .fail := by
  rw [functionExpr, exact_bind, bind_of_fail (h.skip.keyword "function" (by decide))]

theorem tableConstructor_fail (h : Barren c) : tableConstructor expression c = .fail := by
  rw [tableConstructor, exact_bind, bind_of_fail (h.skip.symbol "\x7b" (by decide))]

theorem nameRef_fail (h : Barren c) : nameRef c = .fail := by
  rw [nameRef, mark_bind, bind_of_fail h.skipComments.name]

theorem parenExpr_fail (h : Barren c) : parenExpr expression c = .fail := by
  rw [parenExpr, exact_bind, bind_of_fail (h.skip.symbol "(" (by decide))]

theorem prefixExpr_fail (h : Barren c) : prefixExpr expression c = .fail := by
  rw [prefixExpr, bind_of_fail (orElse_fail h.nameRef_fail h.parenExpr_fail)]

theorem simpleExpr_eq (h : Barren c) : simpleExpr expression block c = literal c := by
  rw [simpleExpr]
  cases same : literal c with
  | ok e c' => exact orElse_of_ok same
  | stop why => exact orElse_of_stop same
  | fail =>
    rw [orElse_of_fail same, orElse_of_fail h.functionExpr_fail,
      orElse_of_fail h.tableConstructor_fail, h.prefixExpr_fail]

theorem unaryOperation_fail {operand : Parser Expr} (h : Barren c) :
    unaryOperation operand c = .fail := by
  rw [unaryOperation, exact_bind]
  refine bind_of_fail ?_
  rw [unaryOperator]
  refine orElse_fail ?_ (orElse_fail ?_ ?_)
  · exact seqRight_of_fail (h.skip.keyword "not" (by decide))
  · exact seqRight_of_fail (h.skip.symbol "#" (by decide))
  · exact seqRight_of_fail (h.skip.symbol "-" (by decide))

end Barren

/-! ## Refusal -/

theorem expressionOf_fail {operand : Parser Expr} (h : operand c = .fail) :
    expressionOf operand c = .fail := by
  have products : leftLevel mulOps operand c = .fail := by rw [leftLevel, bind_of_fail h]
  have sums : leftLevel addOps (leftLevel mulOps operand) c = .fail := by
    rw [leftLevel, bind_of_fail products]
  have joined : concatLevel (leftLevel addOps (leftLevel mulOps operand)) c = .fail := by
    rw [concatLevel, bind_of_fail sums]
  rw [expressionOf, logicalLevel, bind_of_fail]
  rw [logicalLevel, bind_of_fail]
  rw [leftLevel, bind_of_fail joined]

/-- Where nothing that an expression may start with is read, `p` reads nothing either. -/
def Refuses {α : Type} (p : Parser α) : Prop :=
  ∀ c, Barren c → string c = .fail → p c = .fail

theorem Refuses.bind {α β : Type} {p : Parser α} (h : Refuses p) (f : α → Parser β) :
    Refuses (p >>= f) := fun c barren unquoted => bind_of_fail (h c barren unquoted)

theorem Refuses.expressionList (h : Refuses expression) : Refuses (expressionList expression) := by
  intro c barren unquoted
  have none := h _ barren.skip ((string_congr (skip_skip c)).trans unquoted)
  rw [Grammar.expressionList, exact_bind, commaList, bind_of_fail none]

/-- Where not even a string is read there is no expression. -/
theorem expression_fail (depth : Nat) (h : Barren c) (unquoted : string c = .fail) :
    Grammar.expression depth c = .fail := by
  refine expressionOf_fail ?_
  cases depth with
  | zero => rfl
  | succ depth =>
    have simple : simpleExpr (expressionOf (unary depth)) (Grammar.block depth) c = .fail := by
      rw [h.simpleExpr_eq, h.literal_eq,
        bind_of_fail ((string_congr (skip_skip c)).trans unquoted)]
    rw [unary, unaryOf, orElse_of_fail h.unaryOperation_fail, powerExpr, bind_of_fail simple]

theorem refuses_expression (depth : Nat) : Refuses (Grammar.expression depth) :=
  fun _ barren unquoted => expression_fail depth barren unquoted

/-! ## Strings in front -/

theorem literals_logical_foldl (op : Connective) (first : Expr) (rest : List Expr) :
    (rest.foldl (fun left right => .logical op left right left.line) first).literals =
      first.literals ++ rest.flatMap Expr.literals := by
  induction rest generalizing first with
  | nil => rw [List.foldl_nil, List.flatMap_nil, List.append_nil]
  | cons e rest ih =>
    rw [List.foldl_cons, ih, Expr.literals, List.flatMap_cons, List.append_assoc]

theorem literals_binaryAt (left : Expr) (op : BinaryOp) (right : Expr) :
    (binaryAt left op right).literals = left.literals ++ right.literals := by
  rw [binaryAt, Expr.literals]

theorem literals_binary_foldl (first : Expr) (rest : List (BinaryOp × Expr)) :
    (rest.foldl (fun left (op, right) => binaryAt left op right) first).literals =
      first.literals ++ rest.flatMap (·.2.literals) := by
  induction rest generalizing first with
  | nil => rw [List.foldl_nil, List.flatMap_nil, List.append_nil]
  | cons step rest ih =>
    rw [List.foldl_cons, ih, literals_binaryAt, List.flatMap_cons, List.append_assoc]

theorem literals_concatChain (first : Expr) (rest : List Expr) :
    (concatChain first rest).literals = first.literals ++ rest.flatMap Expr.literals := by
  induction rest generalizing first with
  | nil => rw [concatChain, List.flatMap_nil, List.append_nil]
  | cons e rest ih => rw [concatChain, literals_binaryAt, ih, List.flatMap_cons]

/-- What `p` reads here starts with the literals `ls`. -/
def Begins (ls : List Literal) (p : Parser Expr) (c : Cursor) : Prop :=
  ∀ e c', p c = .ok e c' → ls <+: e.literals

variable {ls : List Literal} {operand : Parser Expr}

theorem Begins.of_first {f : Expr → Parser Expr} (h : Begins ls operand c)
    (keeps : ∀ first c₁ e c₂, f first c₁ = .ok e c₂ → first.literals <+: e.literals) :
    Begins ls (operand >>= f) c := by
  intro e c' read
  obtain ⟨first, c₁, found, rest⟩ := bind_eq_ok read
  exact (h first c₁ found).trans (keeps first c₁ e c' rest)

theorem Begins.logicalLevel {op : Connective} (h : Begins ls operand c) :
    Begins ls (logicalLevel op operand) c := by
  rw [Grammar.logicalLevel]
  refine h.of_first fun first c₁ e c₂ rest => ?_
  obtain ⟨others, c₃, -, done⟩ := bind_eq_ok rest
  cases done
  rw [literals_logical_foldl]
  exact List.prefix_append _ _

theorem Begins.leftLevel {ops : List BinaryOp} (h : Begins ls operand c) :
    Begins ls (leftLevel ops operand) c := by
  rw [Grammar.leftLevel]
  refine h.of_first fun first c₁ e c₂ rest => ?_
  obtain ⟨others, c₃, -, done⟩ := bind_eq_ok rest
  cases done
  rw [literals_binary_foldl]
  exact List.prefix_append _ _

theorem Begins.concatLevel (h : Begins ls operand c) : Begins ls (concatLevel operand) c := by
  rw [Grammar.concatLevel]
  refine h.of_first fun first c₁ e c₂ rest => ?_
  obtain ⟨others, c₃, -, done⟩ := bind_eq_ok rest
  cases done
  rw [literals_concatChain]
  exact List.prefix_append _ _

theorem Begins.powerExpr {unary : Parser Expr} (h : Begins ls operand c) :
    Begins ls (powerExpr operand unary) c := by
  rw [Grammar.powerExpr]
  refine h.of_first fun base c₁ e c₂ rest => ?_
  obtain ⟨exponent, c₃, -, done⟩ := bind_eq_ok rest
  cases exponent with
  | none =>
    cases done
    exact List.prefix_refl _
  | some exponent =>
    cases done
    rw [literals_binaryAt]
    exact List.prefix_append _ _

/-- Where a string is read, and nothing else an expression may start with, the expression starts
with that string. -/
theorem begins_string (depth : Nat) {text : String} (h : Barren c)
    (quoted : string c = .ok text c') : Begins [.text text] (Grammar.expression depth) c := by
  refine .logicalLevel (.logicalLevel (.leftLevel (.concatLevel (.leftLevel (.leftLevel ?_)))))
  intro e c₁ read
  cases depth with
  | zero => cases read
  | succ depth =>
    rw [unary, unaryOf, orElse_of_fail h.unaryOperation_fail] at read
    refine Begins.powerExpr ?_ e c₁ read
    intro e c₁ simple
    rw [h.simpleExpr_eq, h.literal_eq,
      bind_of_ok ((string_congr (skip_skip c)).trans quoted)] at simple
    cases simple
    exact ⟨[], by rw [Expr.literals, List.append_nil]⟩

end MiniLua.Grammar

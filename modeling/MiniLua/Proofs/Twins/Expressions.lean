import MiniLua.Proofs.Rendering.Building
import MiniLua.Proofs.Twins.Basic

/-!
# Expressions in two texts
-/

namespace MiniLua

open MiniLua.Parser MiniLua.Grammar

variable {P : Pair} {α β γ δ : Type} {n : Nat} {strict : Bool} {view : α → γ}

namespace Alike

/-! ## Symbols that may be cut off -/

section

variable {f g : Unit → Parser α} {m : Nat} (enough : m ≤ n + 1)

include enough

theorem equals (refuses : Refuses (f ())) (refuses' : Refuses (g ()))
    (others : Alike P n strict view (f ()) (g ())) :
    Alike P m true view (Parser.symbol "=" >>= f) (Parser.symbol "=" >>= g) := by
  refine .mono (.token (takes_equals refuses) (takes_equals refuses') (fun l u some => ?_)
    fun _ => others) enough
  rw [Lexeme.only_eq_some.mp some]
  rfl

theorem bracket (refuses : Refuses (f ())) (refuses' : Refuses (g ()))
    (others : Alike P n strict view (f ()) (g ())) :
    Alike P m true view (Parser.symbol "[" >>= f) (Parser.symbol "[" >>= g) := by
  refine .mono (.token (takes_bracket refuses) (takes_bracket refuses') (fun l u some => ?_)
    fun _ => others) enough
  rw [Lexeme.only_eq_some.mp some]
  rfl

theorem point (refuses : ∀ {c}, Parser.name c = .fail → f () c = .fail)
    (refuses' : ∀ {c}, Parser.name c = .fail → g () c = .fail)
    (others : Alike P n strict view (f ()) (g ())) :
    Alike P m true view (Parser.symbol "." >>= f) (Parser.symbol "." >>= g) := by
  refine .mono (.token (takes_point refuses) (takes_point refuses') (fun l u some => ?_)
    fun _ => others) enough
  rw [Lexeme.only_eq_some.mp some]
  rfl

end

theorem operatorOf {ops : List BinaryOp} (guarded : Guarded ops) :
    Alike P n true id (Grammar.operatorOf ops) (Grammar.operatorOf ops) := by
  refine .terminal (takes_operatorOf guarded) fun l op found => ?_
  obtain rfl : l = .symbol op.symbol := by simpa using List.find?_some found
  cases op with
  | arith op => cases op <;> rfl
  | _ => rfl

theorem commaList {p q : Parser α} (h : Alike P n true view p q) :
    Alike P n true (List.map view) (Parser.commaList p) (Parser.commaList q) := by
  have others : Alike P n true view (Parser.symbol "," >>= fun _ => p)
      (Parser.symbol "," >>= fun _ => q) :=
    (symbol (by decide) (by decide)).bind fun _ _ _ => h
  refine h.bind fun a b same => others.many.bind fun as bs sames => .pure ?_
  rw [List.map_cons, List.map_cons, same, sames]

end Alike

/-- Parsers for expressions of the two texts. -/
structure Operands (P : Pair) (n : Nat) (p q : Parser Expr) : Prop where
  alike : Alike P n true Expr.erase p q
  refuses : Refuses p
  refuses' : Refuses q

namespace Alike

variable {p q : Parser Expr} {body body' : Parser Block}

theorem literal : Alike P n true Expr.erase Grammar.literal Grammar.literal := by
  refine .exact fun x y => .orElse (.bind (.keyword (by simp [keywords])) fun _ _ _ => .pure rfl) ?_
  refine .orElse (.bind (.keyword (by simp [keywords])) fun _ _ _ => .pure rfl) ?_
  refine .orElse (.bind (.keyword (by simp [keywords])) fun _ _ _ => .pure rfl) ?_
  refine .orElse (.bind .number fun value value' same => .pure ?_) ?_
  · simpa using same
  refine .bind .string fun text text' same => .pure ?_
  simpa using same

theorem nameRef : Alike P n true Expr.erase Grammar.nameRef Grammar.nameRef := by
  refine .mark fun x y => .bind .name fun word word' same => .pure ?_
  simpa using same

/-- Parameters and body, up to lines. -/
def bodyView (body : List String × Block) : List String × Block := body.map id Block.erase

theorem functionBody (block : Alike P n false Block.erase body body') :
    Alike P (n + 1) true bodyView (Grammar.functionBody body) (Grammar.functionBody body') := by
  refine .parens (name.commaList.opt) fun params params' same => .bind block fun b b' same' =>
    .bind (.keyword (by simp [keywords])) fun _ _ _ => .pure ?_
  obtain rfl : params = params' := by simpa using same
  rw [bodyView, bodyView, Prod.map, Prod.map, same']

theorem functionExpr (block : Alike P n false Block.erase body body') :
    Alike P (n + 1) true Expr.erase (Grammar.functionExpr body) (Grammar.functionExpr body') := by
  refine .exact fun x y => .bind (.keyword (by simp [keywords])) fun _ _ _ =>
    .bind (functionBody block) fun b b' same => .pure ?_
  obtain ⟨params, b⟩ := b
  obtain ⟨params', b'⟩ := b'
  simpa [bodyView] using same

/-! ## Tables -/

theorem separator : Alike P n true id Grammar.fieldSeparator Grammar.fieldSeparator :=
  .orElse (.symbol (by decide) (by decide)) (.symbol (by decide) (by decide))

section

variable (operands : Operands P n p q)

include operands

theorem expressionList :
    Alike P n true Expr.eraseAll (Grammar.expressionList p) (Grammar.expressionList q) := by
  rw [funext Expr.eraseAll_eq]
  exact .exact fun _ _ => operands.alike.commaList

theorem bracketField :
    Alike P (n + 1) true Field.erase (Grammar.bracketField p) (Grammar.bracketField q) := by
  refine .exact fun x y => .bracket le_rfl (operands.refuses.bind _) (operands.refuses'.bind _)
    (.bind operands.alike fun key key' same => .bind (.symbol (by decide) (by decide))
      fun _ _ _ => .equals (Nat.le_succ n) (operands.refuses.bind _) (operands.refuses'.bind _)
        (.bind operands.alike fun value value' same' => .pure ?_))
  simp [same, same']

theorem namedField :
    Alike P (n + 1) true Field.erase (Grammar.namedField p) (Grammar.namedField q) := by
  refine .mark fun x y => .bind .name fun word word' same =>
    .equals le_rfl (operands.refuses.bind _) (operands.refuses'.bind _)
      (.bind operands.alike fun value value' same' => .pure ?_)
  obtain rfl : word = word' := same
  simp [same']

theorem positionalField :
    Alike P n true Field.erase (Grammar.positionalField p) (Grammar.positionalField q) := by
  refine .exact fun x y => .bind operands.alike fun value value' same => .pure ?_
  simp [same]

theorem field : Alike P n true Field.erase (Grammar.field p) (Grammar.field q) :=
  .orElse (bracketField operands |>.mono (Nat.le_succ n))
    (.orElse (namedField operands |>.mono (Nat.le_succ n)) (positionalField operands))

theorem fieldList :
    Alike P n true Field.eraseAll (Grammar.fieldList p) (Grammar.fieldList q) := by
  have others : Alike P n true Field.erase (Grammar.fieldSeparator >>= fun _ => Grammar.field p)
      (Grammar.fieldSeparator >>= fun _ => Grammar.field q) :=
    separator.bind fun _ _ _ => field operands
  refine .bind (field operands) fun first first' same => .bind others.many fun rest rest' sames =>
    .bind separator.opt fun _ _ _ => .pure ?_
  rw [Field.eraseAll_eq, Field.eraseAll_eq, List.map_cons, List.map_cons, same, sames]

theorem tableConstructor :
    Alike P (n + 1) true Expr.erase (Grammar.tableConstructor p) (Grammar.tableConstructor q) := by
  refine .exact fun x y => .next (.symbol (by decide) (by decide)) fun _ _ _ =>
    .bind (fieldList operands).opt fun fields fields' same =>
    .bind (.symbol (by decide) (by decide)) fun _ _ _ => .pure ?_
  cases fields with
  | none =>
    cases fields' with
    | none => rfl
    | some fields' => cases same
  | some fields =>
    cases fields' with
    | none => cases same
    | some fields' => simpa using same

/-! ## Suffixes -/

theorem parenExpr :
    Alike P (n + 1) true Expr.erase (Grammar.parenExpr p) (Grammar.parenExpr q) := by
  refine .exact fun x y => .parens operands.alike fun e e' same => .pure ?_
  simp [same]

theorem parenArgs :
    Alike P (n + 1) true Expr.eraseAll (Grammar.parenArgs p) (Grammar.parenArgs q) := by
  refine .parens (expressionList operands).opt fun args args' same => .pure ?_
  cases args with
  | none =>
    cases args' with
    | none => rfl
    | some args' => cases same
  | some args =>
    cases args' with
    | none => cases same
    | some args' => simpa using same

omit operands in
theorem stringArg : Alike P n true Expr.eraseAll Grammar.stringArg Grammar.stringArg := by
  refine .exact fun x y => .bind .string fun text text' same => .pure ?_
  obtain rfl : text = text' := same
  simp

theorem callArgs :
    Alike P (n + 1) true Expr.eraseAll (Grammar.callArgs p) (Grammar.callArgs q) := by
  refine .orElse (parenArgs operands) (.orElse ?_ stringArg)
  refine .bind (tableConstructor operands) fun t t' same => .pure ?_
  simp [same]

theorem suffix :
    Alike P (n + 1) true Suffix.erase (Grammar.suffix p) (Grammar.suffix q) := by
  refine .orElse ?_ (.orElse ?_ ?_)
  · refine .exact fun x y => .bracket le_rfl (operands.refuses.bind _) (operands.refuses'.bind _)
      (.bind operands.alike fun key key' same => .bind (.symbol (by decide) (by decide))
        fun _ _ _ => .pure ?_)
    rw [Suffix.erase, Suffix.erase, same]
  · refine .exact fun x y => .point le_rfl bind_of_fail bind_of_fail
      (.bind (.name (n := n)) fun word word' same => .pure ?_)
    obtain rfl : word = word' := same
    rfl
  · refine .here fun x y => .bind (callArgs operands) fun args args' same => .pure ?_
    rw [Suffix.erase, Suffix.erase, same]

theorem prefixExpr :
    Alike P (n + 1) true Expr.erase (Grammar.prefixExpr p) (Grammar.prefixExpr q) := by
  refine .next (.orElse .nameRef (parenExpr operands)) fun head head' same =>
    .bind ((suffix operands).mono (Nat.le_succ n)).many fun suffixes suffixes' sames => .pure ?_
  rw [erase_foldl_apply, erase_foldl_apply, same, sames]

theorem simpleExpr (block : Alike P n false Block.erase body body') :
    Alike P (n + 1) true Expr.erase (Grammar.simpleExpr p body) (Grammar.simpleExpr q body') :=
  .orElse .literal (.orElse (functionExpr block)
    (.orElse (tableConstructor operands) (prefixExpr operands)))

end

/-! ## Operators -/

section

variable (h : Alike P n true Expr.erase p q)

include h

theorem leftLevel {ops : List BinaryOp} (guarded : Guarded ops) :
    Alike P n true Expr.erase (Grammar.leftLevel ops p) (Grammar.leftLevel ops q) := by
  have others : Alike P n true (Prod.map id Expr.erase)
      (Grammar.operatorOf ops >>= fun op => p >>= fun right => Pure.pure (op, right))
      (Grammar.operatorOf ops >>= fun op => q >>= fun right => Pure.pure (op, right)) := by
    refine (operatorOf guarded).bind fun op op' same => .bind h fun right right' same' => .pure ?_
    rw [Prod.map, Prod.map, same', same]
  refine .bind h fun first first' same => .bind others.many fun rest rest' sames => .pure ?_
  rw [erase_foldl_binaryAt, erase_foldl_binaryAt, same, sames]

theorem concatLevel :
    Alike P n true Expr.erase (Grammar.concatLevel p) (Grammar.concatLevel q) := by
  have others : Alike P n true Expr.erase (Parser.symbol ".." >>= fun _ => p)
      (Parser.symbol ".." >>= fun _ => q) :=
    (symbol (by decide) (by decide)).bind fun _ _ _ => h
  refine .bind h fun first first' same => .bind others.many fun rest rest' sames => .pure ?_
  rw [erase_concatChain, erase_concatChain, same, sames]

theorem logicalLevel (op : Connective) :
    Alike P n true Expr.erase (Grammar.logicalLevel op p) (Grammar.logicalLevel op q) := by
  have known : op.word ∈ keywords := by cases op <;> simp [keywords, Connective.word]
  have others : Alike P n true Expr.erase (Parser.keyword op.word >>= fun _ => p)
      (Parser.keyword op.word >>= fun _ => q) :=
    (keyword known).bind fun _ _ _ => h
  refine .bind h fun first first' same => .bind others.many fun rest rest' sames => .pure ?_
  rw [erase_foldl_logical, erase_foldl_logical, same, sames]

theorem expressionOf :
    Alike P n true Expr.erase (Grammar.expressionOf p) (Grammar.expressionOf q) :=
  logicalLevel (logicalLevel (leftLevel (concatLevel (leftLevel (leftLevel h (by decide))
    (by decide))) (by decide)) .and) .or

theorem powerExpr {simple simple' : Parser Expr}
    (first : Alike P (n + 1) true Expr.erase simple simple') :
    Alike P (n + 1) true Expr.erase (Grammar.powerExpr simple p) (Grammar.powerExpr simple' q) := by
  have power : Alike P n true Expr.erase (Parser.symbol "^" *> p) (Parser.symbol "^" *> q) :=
    (symbol (by decide) (by decide)).bind fun _ _ _ => h
  refine .next first fun base base' same => .bind power.opt fun exponent exponent' same' =>
    (?_ : Alike P n false _ _ _)
  cases exponent with
  | none =>
    cases exponent' with
    | none => exact .pure same
    | some e' => cases same'
  | some e =>
    cases exponent' with
    | none => cases same'
    | some e' =>
      refine .pure ?_
      rw [erase_binaryAt, erase_binaryAt, same, Option.some.inj same']

theorem unaryOperation :
    Alike P (n + 1) true Expr.erase (Grammar.unaryOperation p) (Grammar.unaryOperation q) := by
  have operator : Alike P (n + 1) true id Grammar.unaryOperator Grammar.unaryOperator :=
    .orElse (.bind (.keyword (by simp [keywords])) fun _ _ _ => .pure rfl)
      (.orElse (.bind (.symbol (by decide) (by decide)) fun _ _ _ => .pure rfl)
        (.bind (.symbol (by decide) (by decide)) fun _ _ _ => .pure rfl))
  refine .exact fun x y => .next operator fun op op' same => .bind h fun e e' same' => .pure ?_
  obtain rfl : op = op' := same
  simp [same']

theorem unaryOf (operands : Operands P n (Grammar.expressionOf p) (Grammar.expressionOf q))
    (block : Alike P n false Block.erase body body') :
    Alike P (n + 1) true Expr.erase (Grammar.unaryOf p body) (Grammar.unaryOf q body') :=
  .orElse (unaryOperation h) (powerExpr h (simpleExpr operands block))

end

end Alike

end MiniLua

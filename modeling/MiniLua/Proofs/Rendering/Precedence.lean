import MiniLua.Proofs.Rendering.Building
import MiniLua.Proofs.Rendering.Tokens
import MiniLua.Proofs.Rendering.Yields

/-!
# Operators are read as they bind

Each level of operators reads its operands from the next level and goes on as long as its own
operators follow. So an expression is read back from its tokens on every level that its outermost
operator belongs to or binds tighter than.
-/

namespace MiniLua

open MiniLua.Parser MiniLua.Grammar

/-- How tightly a token binds to the expression in front of it; 0 if it does not go on with it. -/
def Lexeme.binding : Lexeme → Nat
  | .keyword "or" => 1
  | .keyword "and" => 2
  | .symbol "<" => 3
  | .symbol ">" => 3
  | .symbol "<=" => 3
  | .symbol ">=" => 3
  | .symbol "==" => 3
  | .symbol "~=" => 3
  | .symbol ".." => 4
  | .symbol "+" => 5
  | .symbol "-" => 5
  | .symbol "*" => 6
  | .symbol "/" => 6
  | .symbol "//" => 6
  | .symbol "%" => 6
  | .symbol "^" => 8
  | .symbol "[" => 9
  | .symbol "." => 9
  | .symbol "(" => 9
  | .symbol "\x7b" => 9
  | .string _ => 9
  | _ => 0

theorem BinaryOp.binding_symbol (op : BinaryOp) : (Lexeme.symbol op.symbol).binding = op.level := by
  cases op with
  | arith op => cases op <;> rfl
  | _ => rfl

theorem Connective.binding_word (op : Connective) :
    (Lexeme.keyword op.word).binding = op.level := by
  cases op <;> rfl

theorem Connective.level_le (op : Connective) : op.level ≤ 2 := by
  cases op <;> decide

theorem BinaryOp.level_le (op : BinaryOp) : op.level ≤ 8 := by
  rcases op with (_ | _ | _ | _ | _ | _ | _) | _ | _ | _ | _ | _ | _ | _ <;> decide

theorem BinaryOp.eq_pow_of_level {op : BinaryOp} (h : op.level = 8) : op = .arith .pow := by
  revert h
  rcases op with (_ | _ | _ | _ | _ | _ | _) | _ | _ | _ | _ | _ | _ | _ <;> decide

theorem BinaryOp.symbol_injective {op op' : BinaryOp} (h : op.symbol = op'.symbol) : op = op' := by
  revert h
  rcases op with (_ | _ | _ | _ | _ | _ | _) | _ | _ | _ | _ | _ | _ | _ <;>
    rcases op' with (_ | _ | _ | _ | _ | _ | _) | _ | _ | _ | _ | _ | _ | _ <;> decide

theorem Expr.one_le_level (e : Expr) : 1 ≤ e.level := by
  cases e with
  | logical op => cases op <;> exact Nat.le_of_ble_eq_true rfl
  | binary op =>
    rcases op with (_ | _ | _ | _ | _ | _ | _) | _ | _ | _ | _ | _ | _ | _ <;>
      exact Nat.le_of_ble_eq_true rfl
  | _ => exact Nat.le_of_ble_eq_true rfl

/-- What follows does not go on with an expression of this level. -/
def Looser (k : Nat) (rest : List Lexeme) : Prop := ∀ l, rest.head? = some l → l.binding < k

theorem Looser.mono {k k' : Nat} {rest : List Lexeme} (h : Looser k rest) (le : k ≤ k') :
    Looser k' rest := fun l head => Nat.lt_of_lt_of_le (h l head) le

theorem Looser.cons {k : Nat} {l : Lexeme} {rest : List Lexeme} (h : l.binding < k) :
    Looser k (l :: rest) := by
  intro l' head
  cases head
  exact h

/-- `p` reads every expression of at most `size` tokens whose outermost operator binds at least as
tightly as `k`. -/
def Covers (size k : Nat) (p : Parser Expr) : Prop :=
  ∀ e : Expr, k ≤ e.level → e.wellFormed = true → e.tokens.length ≤ size →
    ∀ rest, Looser k rest → Yields p Expr.erase e.erase (e.tokens ++ rest) rest

theorem Expr.binary_of_level {e : Expr} {k : Nat} (h : e.level = k) (low : 3 ≤ k) (high : k ≤ 6) :
    ∃ op left right line, e = .binary op left right line ∧ op.level = k := by
  cases e with
  | binary op left right line => exact ⟨op, left, right, line, rfl, h⟩
  | logical op =>
    cases op <;> simp [Expr.level, Connective.level] at h <;> omega
  | _ => simp [Expr.level] at h; omega

theorem Expr.power_of_level {e : Expr} (h : e.level = 8) :
    ∃ base exponent line, e = .binary (.arith .pow) base exponent line := by
  cases e with
  | binary op base exponent line =>
    obtain rfl := BinaryOp.eq_pow_of_level h
    exact ⟨base, exponent, line, rfl⟩
  | logical op => exact absurd (h.symm.trans_le op.level_le) (by decide)
  | _ => cases h

theorem Expr.unary_of_level {e : Expr} (h : e.level = 7) :
    ∃ op operand line, e = .unary op operand line := by
  cases e with
  | unary op operand line => exact ⟨op, operand, line, rfl⟩
  | binary op =>
    change op.level = 7 at h
    revert h
    rcases op with (_ | _ | _ | _ | _ | _ | _) | _ | _ | _ | _ | _ | _ | _ <;> intro h <;> cases h
  | logical op => exact absurd (h.symm.trans_le op.level_le) (by decide)
  | _ => cases h

theorem Expr.logical_of_level {e : Expr} {op : Connective} (h : e.level = op.level) :
    ∃ left right line, e = .logical op left right line := by
  cases e with
  | logical op' left right line =>
    obtain rfl : op' = op := by
      change op'.level = op.level at h
      revert h
      cases op <;> cases op' <;> decide
    exact ⟨left, right, line, rfl⟩
  | binary op' =>
    cases op <;> cases op' <;>
      simp [Expr.level, BinaryOp.level, Connective.level, ArithOp.level] at h
    all_goals split at h <;> cases h
  | _ => cases op <;> simp [Expr.level, Connective.level] at h

namespace Covers

variable {size k : Nat} {operand : Parser Expr} {rest : List Lexeme}

/-! ## Operators that group to the left -/

section

variable {ops : List BinaryOp} (guarded : Guarded ops)

include guarded

theorem yields_operatorOf {op : BinaryOp} (member : op ∈ ops) :
    Yields (operatorOf ops) id op (.symbol op.symbol :: rest) rest := by
  have found : ops.find? (Lexeme.symbol op.symbol = .symbol ·.symbol) = some op := by
    cases same : ops.find? (Lexeme.symbol op.symbol = .symbol ·.symbol) with
    | none => simpa using List.find?_eq_none.mp same op member
    | some op' =>
      have symbols : op.symbol = op'.symbol := by simpa using List.find?_some same
      rw [BinaryOp.symbol_injective symbols]
  exact .of_takes (takes_operatorOf guarded) found (.pure rfl)

theorem rejects_operatorOf (levels : ∀ op ∈ ops, op.level = k) (follows : Looser k rest) :
    Rejects (operatorOf ops) rest := by
  refine .of_takes (takes_operatorOf guarded) fun l w' same => ?_
  refine List.find?_eq_none.mpr fun op member here => ?_
  obtain rfl : l = .symbol op.symbol := by simpa using here
  have low := follows _ (by rw [same]; rfl)
  rw [op.binding_symbol, levels op member] at low
  exact absurd low (Nat.lt_irrefl k)

/-- Operators and operands of a level, seen from the operand before them. -/
abbrev leftSteps (ops : List BinaryOp) (operand : Parser Expr) : Parser (BinaryOp × Expr) := do
  let op ← operatorOf ops
  let right ← operand
  return (op, right)

theorem yields_leftLevel (covers : Covers size (k + 1) operand) (low : 3 ≤ k) (high : k ≤ 6)
    (levels : ∀ op : BinaryOp, op.level = k → op ∈ ops ∧ op.leftLevel = k ∧ op.rightLevel = k + 1)
    (e : Expr) (tight : k ≤ e.level) (wellFormed : e.wellFormed = true)
    (short : e.tokens.length ≤ size) {steps : List (BinaryOp × Expr)} {mid : List Lexeme}
    (follows : Looser (k + 1) mid)
    (more : Repeats (leftSteps ops operand) (Prod.map id Expr.erase) steps mid rest) :
    Yields (Grammar.leftLevel ops operand) Expr.erase
      (steps.foldl (fun left (op, right) => binaryAt left op right) e.erase)
      (e.tokens ++ mid) rest := by
  by_cases outer : e.level = k
  · obtain ⟨op, left, right, line, rfl, same⟩ := Expr.binary_of_level outer low high
    obtain ⟨member, leftLevel, rightLevel⟩ := levels op same
    simp only [Expr.wellFormed, Bool.and_eq_true, decide_eq_true_eq] at wellFormed
    simp only [Expr.tokens, List.length_append, List.length_cons] at short
    obtain ⟨⟨⟨tightLeft, tightRight⟩, leftFormed⟩, rightFormed⟩ := wellFormed
    have step : Yields (leftSteps ops operand) (Prod.map id Expr.erase) (op, right.erase)
        (.symbol op.symbol :: (right.tokens ++ mid)) mid := by
      refine (yields_operatorOf guarded member).bind fun op' same => ?_
      refine (covers right (rightLevel ▸ tightRight) rightFormed (by omega) mid follows).bind
        fun right' same' => .pure ?_
      obtain rfl : op' = op := same
      rw [Prod.map, same']
      rfl
    have shorter : mid.length < (Lexeme.symbol op.symbol :: (right.tokens ++ mid)).length := by
      simp only [List.length_cons, List.length_append]
      omega
    have binds : Looser (k + 1) (.symbol op.symbol :: (right.tokens ++ mid)) := by
      refine .cons ?_
      rw [op.binding_symbol, same]
      exact Nat.lt_succ_self k
    have whole := yields_leftLevel covers low high levels left (leftLevel ▸ tightLeft) leftFormed
      (by omega) binds (.cons step shorter more)
    rw [Expr.tokens, List.append_assoc, List.cons_append]
    have node : (Expr.binary op left right line).erase = binaryAt left.erase op right.erase := by
      rw [binaryAt, Expr.line_erase, Expr.erase]
    rw [node]
    exact whole
  · refine (covers e (by omega) wellFormed short mid follows).bind fun first same =>
      (Yields.many more).bind fun others sames => .pure ?_
    rw [erase_foldl_binaryAt, same, sames]
termination_by e.tokens.length
decreasing_by
  subst_vars
  simp only [Expr.tokens, List.length_append, List.length_cons]
  omega

theorem leftLevel (covers : Covers size (k + 1) operand) (low : 3 ≤ k) (high : k ≤ 6)
    (levels : ∀ op : BinaryOp, op.level = k → op ∈ ops ∧ op.leftLevel = k ∧ op.rightLevel = k + 1)
    (only : ∀ op ∈ ops, op.level = k) : Covers size k (Grammar.leftLevel ops operand) := by
  intro e tight wellFormed short rest follows
  exact yields_leftLevel guarded covers low high levels e tight wellFormed short
    (follows.mono (Nat.le_succ k)) (.nil ((rejects_operatorOf guarded only follows).bind _))

end

/-! ## Connectives -/

section

variable {op : Connective}

theorem yields_logicalLevel (covers : Covers size (op.level + 1) operand) (e : Expr)
    (tight : op.level ≤ e.level) (wellFormed : e.wellFormed = true)
    (short : e.tokens.length ≤ size) {steps : List Expr} {mid : List Lexeme}
    (follows : Looser (op.level + 1) mid)
    (more : Repeats (keyword op.word >>= fun _ => operand) Expr.erase steps mid rest) :
    Yields (Grammar.logicalLevel op operand) Expr.erase
      (steps.foldl (fun left right => .logical op left right left.line) e.erase)
      (e.tokens ++ mid) rest := by
  have known : op.word ∈ keywords := by cases op <;> simp [keywords, Connective.word]
  by_cases outer : e.level = op.level
  · obtain ⟨left, right, line, rfl⟩ := Expr.logical_of_level outer
    simp only [Expr.wellFormed, Bool.and_eq_true, decide_eq_true_eq] at wellFormed
    simp only [Expr.tokens, List.length_append, List.length_cons] at short
    obtain ⟨⟨⟨tightLeft, tightRight⟩, leftFormed⟩, rightFormed⟩ := wellFormed
    have step : Yields (keyword op.word >>= fun _ => operand) Expr.erase right.erase
        (.keyword op.word :: (right.tokens ++ mid)) mid :=
      (yields_keyword known).bind fun _ _ =>
        covers right tightRight rightFormed (by omega) mid follows
    have shorter : mid.length < (Lexeme.keyword op.word :: (right.tokens ++ mid)).length := by
      simp only [List.length_cons, List.length_append]
      omega
    have binds : Looser (op.level + 1) (.keyword op.word :: (right.tokens ++ mid)) := by
      refine .cons ?_
      rw [op.binding_word]
      exact Nat.lt_succ_self _
    have whole := yields_logicalLevel covers left tightLeft leftFormed (by omega) binds
      (.cons step shorter more)
    rw [Expr.tokens, List.append_assoc, List.cons_append]
    have node : (Expr.logical op left right line).erase =
        .logical op left.erase right.erase left.erase.line := by
      rw [Expr.line_erase, Expr.erase]
    rw [node]
    exact whole
  · refine (covers e (by omega) wellFormed short mid follows).bind fun first same =>
      (Yields.many more).bind fun others sames => .pure ?_
    rw [erase_foldl_logical, same, sames]
termination_by e.tokens.length
decreasing_by
  subst_vars
  simp only [Expr.tokens, List.length_append, List.length_cons]
  omega

theorem logicalLevel (covers : Covers size (op.level + 1) operand) :
    Covers size op.level (Grammar.logicalLevel op operand) := by
  intro e tight wellFormed short rest follows
  have known : op.word ∈ keywords := by cases op <;> simp [keywords, Connective.word]
  have last : Rejects (keyword op.word) rest := by
    refine rejects_keyword known fun head => ?_
    have low := follows _ head
    rw [op.binding_word] at low
    exact absurd low (Nat.lt_irrefl _)
  exact yields_logicalLevel covers e tight wellFormed short (follows.mono (Nat.le_succ _))
    (.nil (last.bind _))

end

/-! ## Concatenations, which group to the right -/

theorem chain (covers : Covers size 5 operand) (e : Expr) (tight : 4 ≤ e.level)
    (wellFormed : e.wellFormed = true) (short : e.tokens.length ≤ size)
    (follows : Looser 4 rest) (last : Rejects (symbol ".." >>= fun _ => operand) rest) :
    ∃ first others mid, concatChain first others = e.erase ∧
      mid.length ≤ (e.tokens ++ rest).length ∧
      Yields operand Expr.erase first (e.tokens ++ rest) mid ∧
      Repeats (symbol ".." >>= fun _ => operand) Expr.erase others mid rest := by
  by_cases outer : e.level = 4
  · obtain ⟨op, left, right, line, rfl, same⟩ := Expr.binary_of_level outer (by decide) (by decide)
    obtain rfl : op = .concat := by
      revert same
      rcases op with (_ | _ | _ | _ | _ | _ | _) | _ | _ | _ | _ | _ | _ | _ <;> decide
    simp only [Expr.wellFormed, Bool.and_eq_true, decide_eq_true_eq] at wellFormed
    simp only [Expr.tokens, List.length_append, List.length_cons] at short
    obtain ⟨⟨⟨tightLeft, tightRight⟩, leftFormed⟩, rightFormed⟩ := wellFormed
    obtain ⟨first, others, mid, same, shorter, yields, more⟩ :=
      chain covers right tightRight rightFormed (by omega) follows last
    rw [Expr.tokens, List.append_assoc, List.cons_append]
    refine ⟨left.erase, first :: others, .symbol ".." :: (right.tokens ++ rest), ?_, ?_, ?_, ?_⟩
    · rw [concatChain, same, binaryAt, Expr.line_erase, Expr.erase]
    · rw [List.length_append]
      exact Nat.le_add_left _ _
    · exact covers left tightLeft leftFormed (by omega) _ (.cons (by decide))
    · refine .cons ((yields_symbol (by decide)).bind fun _ _ => yields) ?_ more
      rw [List.length_cons]
      omega
  · exact ⟨e.erase, [], rest, rfl, by simp, covers e (by omega) wellFormed short rest
      (follows.mono (by decide)), .nil last⟩
termination_by e.tokens.length
decreasing_by
  subst_vars
  simp only [Expr.tokens, List.length_append, List.length_cons]
  omega

theorem concatLevel (covers : Covers size 5 operand) : Covers size 4 (Grammar.concatLevel operand) := by
  intro e tight wellFormed short rest follows
  have last : Rejects (symbol "..") rest := by
    refine rejects_symbol (by decide) fun head => ?_
    exact absurd (follows _ head) (by decide)
  obtain ⟨first, others, mid, same, -, yields, more⟩ :=
    chain covers e tight wellFormed short follows (last.bind _)
  refine yields.bind fun a first' => (Yields.many more).bind fun as others' => .pure ?_
  rw [erase_concatChain, first', others', same]

/-! ## All binary operators -/

theorem expressionOf (covers : Covers size 7 operand) :
    Covers size 1 (Grammar.expressionOf operand) := by
  have products : Covers size 6 (Grammar.leftLevel mulOps operand) := by
    refine leftLevel (by decide) covers (by decide) (by decide) ?_ (by decide)
    rintro (op | _) level
    · cases op <;> first | exact absurd level (by decide) | decide
    all_goals exact absurd level (by decide)
  have sums : Covers size 5 (Grammar.leftLevel addOps (Grammar.leftLevel mulOps operand)) := by
    refine leftLevel (by decide) products (by decide) (by decide) ?_ (by decide)
    rintro (op | _) level
    · cases op <;> first | exact absurd level (by decide) | decide
    all_goals exact absurd level (by decide)
  have compared : Covers size 3 (Grammar.leftLevel compareOps (Grammar.concatLevel
      (Grammar.leftLevel addOps (Grammar.leftLevel mulOps operand)))) := by
    refine leftLevel (by decide) (concatLevel sums) (by decide) (by decide) ?_ (by decide)
    rintro (op | _) level
    · cases op <;> exact absurd level (by decide)
    all_goals first | exact absurd level (by decide) | decide
  have conjunctions : Covers size Connective.and.level (Grammar.logicalLevel .and _) :=
    logicalLevel compared
  exact (logicalLevel conjunctions : Covers size Connective.or.level (Grammar.logicalLevel .or _))

end Covers

end MiniLua

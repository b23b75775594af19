import MiniLua.Grammar.Statement
import MiniLua.Proofs.Rendering.Erasure

/-!
# What the grammar builds, up to lines

The grammar puts a tree together from its parts. Up to lines the tree depends on nothing but the
parts up to lines.
-/

namespace MiniLua

theorem Expr.line_erase (e : Expr) : e.erase.line = 0 := by
  cases e with
  | call c =>
    cases c
    rfl
  | function f =>
    cases f
    rfl
  | _ => rfl

namespace Grammar

/-! ## Expressions -/

def Suffix.erase : Suffix → Suffix
  | index key _ => .index key.erase 0
  | call args _ => .call (Expr.eraseAll args) 0

theorem erase_apply (head : Expr) (s : Suffix) :
    (s.apply head).erase = s.erase.apply head.erase := by
  cases s <;> simp [Suffix.apply, Suffix.erase]

theorem erase_foldl_apply (head : Expr) (suffixes : List Suffix) :
    (suffixes.foldl Suffix.apply head).erase =
      (suffixes.map Suffix.erase).foldl Suffix.apply head.erase := by
  induction suffixes generalizing head with
  | nil => rfl
  | cons s suffixes ih => rw [List.foldl_cons, ih, erase_apply, List.map_cons, List.foldl_cons]

theorem erase_binaryAt (left : Expr) (op : BinaryOp) (right : Expr) :
    (binaryAt left op right).erase = binaryAt left.erase op right.erase := by
  simp [binaryAt, Expr.line_erase]

theorem erase_foldl_binaryAt (first : Expr) (rest : List (BinaryOp × Expr)) :
    (rest.foldl (fun left (op, right) => binaryAt left op right) first).erase =
      (rest.map (Prod.map id Expr.erase)).foldl (fun left (op, right) => binaryAt left op right)
        first.erase := by
  induction rest generalizing first with
  | nil => rfl
  | cons step rest ih => rw [List.foldl_cons, ih, erase_binaryAt, List.map_cons, List.foldl_cons]; rfl

theorem erase_concatChain (first : Expr) (rest : List Expr) :
    (concatChain first rest).erase = concatChain first.erase (rest.map Expr.erase) := by
  induction rest generalizing first with
  | nil => rfl
  | cons e rest ih => rw [concatChain, erase_binaryAt, ih, List.map_cons, concatChain]

theorem erase_foldl_logical (op : Connective) (first : Expr) (rest : List Expr) :
    (rest.foldl (fun left right => .logical op left right left.line) first).erase =
      (rest.map Expr.erase).foldl (fun left right => .logical op left right left.line)
        first.erase := by
  induction rest generalizing first with
  | nil => rfl
  | cons e rest ih =>
    rw [List.foldl_cons, ih, List.map_cons, List.foldl_cons, Expr.erase, Expr.line_erase]

/-! ## Statements -/

theorem erase_namedLambda (parts : List String) (line : Nat) (body : List String × Block) :
    (namedLambda parts line body).erase = namedLambda parts 0 (body.map id Block.erase) := by
  simp [namedLambda]

theorem erase_dottedTarget (line : Nat) (first : String) (rest : List String) :
    (dottedTarget line first rest).erase = dottedTarget 0 first rest := by
  have table : ∀ (parts : List String) (e : Expr),
      (parts.foldl (fun (e : Expr) part => .index e (.string part line) line) e).erase =
        parts.foldl (fun (e : Expr) part => .index e (.string part 0) 0) e.erase := by
    intro parts
    induction parts with
    | nil => exact fun e => rfl
    | cons part parts ih =>
      intro e
      rw [List.foldl_cons, ih, List.foldl_cons, Expr.erase, Expr.erase]
  unfold dottedTarget
  split
  next none => rw [Target.erase]
  next last before same => rw [Target.erase, table, Expr.erase, Expr.erase]

theorem erase_toTarget? (e : Expr) : e.toTarget?.map Target.erase = e.erase.toTarget? := by
  cases e <;> simp [Expr.toTarget?]

theorem erase_toCall? (e : Expr) : e.toCall?.map Call.erase = e.erase.toCall? := by
  cases e <;> simp [Expr.toCall?]

theorem erase_mapM_toTarget? (heads : List Expr) :
    (heads.mapM Expr.toTarget?).map Target.eraseAll = (heads.map Expr.erase).mapM Expr.toTarget? := by
  induction heads with
  | nil => rfl
  | cons e heads ih =>
    rw [List.mapM_cons, List.map_cons, List.mapM_cons, ← ih, ← erase_toTarget?]
    cases e.toTarget? with
    | none => rfl
    | some t =>
      cases heads.mapM Expr.toTarget? <;> rfl

theorem erase_toStatement? (heads : List Expr) (values : Option (List Expr)) (line : Nat) :
    (toStatement? heads values line).map Stmt.erase =
      toStatement? (heads.map Expr.erase) (values.map Expr.eraseAll) 0 := by
  cases values with
  | some values =>
    simp only [toStatement?, Option.map_some, ← erase_mapM_toTarget?, Option.map_map]
    rfl
  | none =>
    match heads with
    | [] => rfl
    | [head] =>
      simp only [toStatement?, Option.map_none, List.map_cons, List.map_nil, ← erase_toCall?,
        Option.map_map]
      rfl
    | _ :: _ :: _ => rfl

end Grammar

end MiniLua

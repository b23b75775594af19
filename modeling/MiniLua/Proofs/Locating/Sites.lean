import Mathlib.Data.List.Basic
import MiniLua.Ast.Basic

/-!
# The sites of a program

A site is a node that can give an error its line: an expression, a field of a table constructor or a
statement. What an assignment stores into counts as the expression that reads it.
-/

namespace MiniLua

inductive Site where
  | expr (e : Expr)
  | field (f : Field)
  | stmt (s : Stmt)

def Site.line : Site → Nat
  | .expr e => e.line
  | .field f => f.line
  | .stmt s => s.line

/-- The node is one of the grammar's, not one that stands for what no text spells. -/
def Site.spelled : Site → Bool
  | .expr (.other _ _) => false
  | .stmt (.other _ _) => false
  | _ => true

mutual

/-- The sites of an expression: itself and those in it, the bodies of functions included. -/
def Expr.sites : Expr → List Site
  | e@(.nil _) => [.expr e]
  | e@(.bool _ _) => [.expr e]
  | e@(.number _ _) => [.expr e]
  | e@(.string _ _) => [.expr e]
  | e@(.name _ _) => [.expr e]
  | e@(.index target key _) => .expr e :: (target.sites ++ key.sites)
  | .call c => c.sites
  | e@(.function f) => .expr e :: f.sites
  | e@(.table fields _) => .expr e :: Field.allSites fields
  | e@(.paren inner _) => .expr e :: inner.sites
  | e@(.logical _ left right _) => .expr e :: (left.sites ++ right.sites)
  | e@(.binary _ left right _) => .expr e :: (left.sites ++ right.sites)
  | e@(.unary _ operand _) => .expr e :: operand.sites
  | e@(.other _ _) => [.expr e]

def Expr.allSites : List Expr → List Site
  | [] => []
  | e :: es => e.sites ++ Expr.allSites es

def Call.sites : Call → List Site
  | c@(.mk callee args _) => .expr (.call c) :: (callee.sites ++ Expr.allSites args)

def Lambda.sites : Lambda → List Site
  | .mk _ body _ _ => body.sites

def Field.sites : Field → List Site
  | f@(.positional value _) => .field f :: value.sites
  | f@(.keyed key value _) => .field f :: (key.sites ++ value.sites)

def Field.allSites : List Field → List Site
  | [] => []
  | f :: fs => f.sites ++ Field.allSites fs

def Target.sites : Target → List Site
  | t@(.name _ _) => [.expr t.toExpr]
  | t@(.index target key _) => .expr t.toExpr :: (target.sites ++ key.sites)

def Target.allSites : List Target → List Site
  | [] => []
  | t :: ts => t.sites ++ Target.allSites ts

def Clause.sites : Clause → List Site
  | .mk condition body => condition.sites ++ body.sites

def Clause.allSites : List Clause → List Site
  | [] => []
  | c :: cs => c.sites ++ Clause.allSites cs

def Stmt.sites : Stmt → List Site
  | s@(.localVars _ values _) => .stmt s :: Expr.allSites values
  | s@(.assign targets values _) => .stmt s :: (Target.allSites targets ++ Expr.allSites values)
  | s@(.call c _) => .stmt s :: c.sites
  | s@(.doBlock body _) => .stmt s :: body.sites
  | s@(.whileLoop condition body _) => .stmt s :: (condition.sites ++ body.sites)
  | s@(.branch clauses none _) => .stmt s :: Clause.allSites clauses
  | s@(.branch clauses (some body) _) => .stmt s :: (Clause.allSites clauses ++ body.sites)
  | s@(.numericFor _ start stop none body _) =>
    .stmt s :: (start.sites ++ (stop.sites ++ body.sites))
  | s@(.numericFor _ start stop (some step) body _) =>
    .stmt s :: (start.sites ++ (stop.sites ++ (step.sites ++ body.sites)))
  | s@(.genericFor _ values body _) => .stmt s :: (Expr.allSites values ++ body.sites)
  | s@(.functionDecl target f _) => .stmt s :: (target.sites ++ f.sites)
  | s@(.localFunction _ f _) => .stmt s :: f.sites
  | s@(.returnValues values _) => .stmt s :: Expr.allSites values
  | s@(.breakLoop _) => [.stmt s]
  | s@(.other _ _) => [.stmt s]

def Stmt.allSites : List Stmt → List Site
  | [] => []
  | s :: ss => s.sites ++ Stmt.allSites ss

def Block.sites : Block → List Site
  | .mk statements _ => Stmt.allSites statements

end

attribute [simp] Expr.sites Expr.allSites Call.sites Lambda.sites Field.sites Field.allSites
  Target.sites Target.allSites Clause.sites Clause.allSites Stmt.sites Stmt.allSites Block.sites

theorem Expr.allSites_eq (es : List Expr) : Expr.allSites es = es.flatMap Expr.sites := by
  induction es with
  | nil => rw [Expr.allSites, List.flatMap_nil]
  | cons e es ih => rw [Expr.allSites, List.flatMap_cons, ih]

theorem Field.allSites_eq (fs : List Field) : Field.allSites fs = fs.flatMap Field.sites := by
  induction fs with
  | nil => rw [Field.allSites, List.flatMap_nil]
  | cons f fs ih => rw [Field.allSites, List.flatMap_cons, ih]

theorem Target.allSites_eq (ts : List Target) : Target.allSites ts = ts.flatMap Target.sites := by
  induction ts with
  | nil => rw [Target.allSites, List.flatMap_nil]
  | cons t ts ih => rw [Target.allSites, List.flatMap_cons, ih]

theorem Clause.allSites_eq (cs : List Clause) : Clause.allSites cs = cs.flatMap Clause.sites := by
  induction cs with
  | nil => rw [Clause.allSites, List.flatMap_nil]
  | cons c cs ih => rw [Clause.allSites, List.flatMap_cons, ih]

theorem Stmt.allSites_eq (ss : List Stmt) : Stmt.allSites ss = ss.flatMap Stmt.sites := by
  induction ss with
  | nil => rw [Stmt.allSites, List.flatMap_nil]
  | cons s ss ih => rw [Stmt.allSites, List.flatMap_cons, ih]

theorem Target.sites_toExpr (t : Target) : t.toExpr.sites = t.sites := by
  cases t with
  | name n line => rw [Target.toExpr, Target.sites, Expr.sites, Target.toExpr]
  | index target key line => rw [Target.toExpr, Target.sites, Expr.sites, Target.toExpr]

theorem Expr.mem_sites (e : Expr) : .expr e ∈ e.sites := by
  cases e with
  | call c =>
    cases c
    rw [Expr.sites, Call.sites]
    exact List.mem_cons_self
  | _ =>
    rw [Expr.sites]
    exact List.mem_cons_self

theorem Stmt.mem_sites (s : Stmt) : .stmt s ∈ s.sites := by
  fun_cases Stmt.sites s <;> exact List.mem_cons_self

end MiniLua

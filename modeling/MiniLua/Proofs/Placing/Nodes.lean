import MiniLua.Proofs.Locating.Sites
import MiniLua.Proofs.Placing.Expressions

/-!
# Statements within trees

The tokens that a tree is read from contain, for each statement in it at whatever depth, a stretch
that this statement is read from.
-/

namespace MiniLua

/-- Every stretch out of `L` contains one for each of these statements. -/
def Contains (L : Language Spaced) (sites : List Site) : Prop :=
  ∀ w ∈ L, ∀ s, .stmt s ∈ sites → ∃ passed u, u <:+: w ∧ u ∈ s.readings passed

namespace Contains

variable {A B : Language Spaced} {S T : List Site}

theorem nil : Contains A [] := by
  intro w _ s member
  cases member

theorem zero : Contains 0 S := by
  intro w member
  cases member

theorem expr (h : Contains A S) (e : Expr) : Contains A (.expr e :: S) := by
  intro w tokens s member
  rcases List.mem_cons.mp member with same | member
  · cases same
  · exact h w tokens s member

theorem field (h : Contains A S) (f : Field) : Contains A (.field f :: S) := by
  intro w tokens s member
  rcases List.mem_cons.mp member with same | member
  · cases same
  · exact h w tokens s member

theorem stmt {s : Stmt} {passed : Bool} (h : Contains (s.readings passed) S) :
    Contains (s.readings passed) (.stmt s :: S) := by
  intro w tokens s' member
  rcases List.mem_cons.mp member with same | member
  · cases same
    exact ⟨passed, w, List.infix_rfl, tokens⟩
  · exact h w tokens s' member

theorem append (h : Contains A S) (h' : Contains A T) : Contains A (S ++ T) := by
  intro w tokens s member
  rcases List.mem_append.mp member with member | member
  · exact h w tokens s member
  · exact h' w tokens s member

theorem left (h : Contains A S) : Contains (A * B) S := by
  intro w tokens s member
  obtain ⟨u, first, v, -, rfl⟩ := Language.mem_mul.mp tokens
  obtain ⟨passed, t, within, readings⟩ := h u first s member
  exact ⟨passed, t, within.trans (List.prefix_append u v).isInfix, readings⟩

theorem right (h : Contains B S) : Contains (A * B) S := by
  intro w tokens s member
  obtain ⟨u, -, v, second, rfl⟩ := Language.mem_mul.mp tokens
  obtain ⟨passed, t, within, readings⟩ := h v second s member
  exact ⟨passed, t, within.trans (List.suffix_append u v).isInfix, readings⟩

theorem mul (h : Contains A S) (h' : Contains B T) : Contains (A * B) (S ++ T) :=
  h.left.append h'.right

theorem add (h : Contains A S) (h' : Contains B S) : Contains (A + B) S := by
  rintro w (tokens | tokens)
  · exact h w tokens
  · exact h' w tokens

theorem mono (h : Contains A S) (narrower : B ≤ A) : Contains B S :=
  fun w tokens => h w (narrower tokens)

end Contains

theorem contains_nameReadings (e : Expr) : Contains e.nameReadings e.sites := by
  cases e with
  | string text line =>
    rw [Expr.sites]
    exact Contains.nil.expr _
  | _ => exact .zero

/-- The key of an index, in brackets or behind a point. -/
theorem contains_key {key : Expr} (h : Contains key.readings key.sites) :
    Contains (sign "[" * key.readings * sign "]" + sign "." * key.nameReadings) key.sites :=
  .add (.left (.right h)) (.right (contains_nameReadings key))

mutual

theorem Expr.contains : ∀ e : Expr, Contains e.readings e.sites
  | .nil _ => by rw [Expr.sites]; exact Contains.nil.expr _
  | .bool _ _ => by rw [Expr.sites]; exact Contains.nil.expr _
  | .number _ _ => by rw [Expr.sites]; exact Contains.nil.expr _
  | .string _ _ => by rw [Expr.sites]; exact Contains.nil.expr _
  | .name _ _ => by rw [Expr.sites]; exact Contains.nil.expr _
  | .index target key _ => by
    rw [Expr.readings, Expr.sites]
    exact (target.contains.mul (contains_key key.contains)).expr _
  | .call c => by
    rw [Expr.readings, Expr.sites]
    exact c.contains
  | .function f => by
    rw [Expr.readings, Expr.sites]
    exact (Contains.right f.contains).expr _
  | .table fields _ => by
    rw [Expr.readings, Expr.sites]
    exact (Contains.left (.right (Field.contains_list fields))).expr _
  | .paren inner _ => by
    rw [Expr.readings, Expr.sites]
    exact (Contains.left (.right inner.contains)).expr _
  | .logical _ l r _ => by
    rw [Expr.readings, Expr.sites]
    exact (Contains.mul (.left l.contains) r.contains).expr _
  | .binary _ l r _ => by
    rw [Expr.readings, Expr.sites]
    exact (Contains.mul (.left l.contains) r.contains).expr _
  | .unary _ operand _ => by
    rw [Expr.readings, Expr.sites]
    exact (Contains.right operand.contains).expr _
  | .other _ _ => .zero

theorem Expr.contains_list : ∀ es : List Expr, Contains (Expr.listReadings es) (Expr.allSites es)
  | [] => by rw [Expr.allSites]; exact .nil
  | e :: es => by
    rw [Expr.listReadings, Expr.allSites]
    exact .mul e.contains (Expr.contains_more es)

theorem Expr.contains_more : ∀ es : List Expr, Contains (Expr.moreReadings es) (Expr.allSites es)
  | [] => by rw [Expr.allSites]; exact .nil
  | e :: es => by
    rw [Expr.moreReadings, Expr.allSites]
    exact .mul (.right e.contains) (Expr.contains_more es)

theorem Expr.contains_bare : ∀ es : List Expr, Contains (Expr.bareReadings es) (Expr.allSites es)
  | [] => .zero
  | [e] => by
    rw [Expr.allSites, Expr.allSites, List.append_nil]
    exact e.contains.mono e.bareReadings_le
  | _ :: _ :: _ => .zero

theorem Call.contains : ∀ c : Call, Contains c.readings c.sites
  | .mk callee args _ => by
    rw [Call.readings, Call.sites]
    exact (Contains.mul callee.contains (.add (.left (.right (Expr.contains_list args)))
      (Expr.contains_bare args))).expr _

theorem Lambda.contains : ∀ f : Lambda, Contains f.readings f.sites
  | .mk _ body _ _ => by
    rw [Lambda.readings, Lambda.sites]
    exact .left (.right body.contains)

theorem Field.contains : ∀ f : Field, Contains f.readings f.sites
  | .positional value _ => by
    rw [Field.readings, Field.sites]
    exact value.contains.field _
  | .keyed key value _ => by
    rw [Field.readings, Field.sites]
    exact (Contains.mul (.left (.add (.left (.right key.contains)) (contains_nameReadings key)))
      value.contains).field _

theorem Field.contains_list : ∀ fs : List Field,
    Contains (Field.listReadings fs) (Field.allSites fs)
  | [] => by rw [Field.allSites]; exact .nil
  | f :: fs => by
    rw [Field.listReadings, Field.allSites]
    exact .left (.mul f.contains (Field.contains_more fs))

theorem Field.contains_more : ∀ fs : List Field,
    Contains (Field.moreReadings fs) (Field.allSites fs)
  | [] => by rw [Field.allSites]; exact .nil
  | f :: fs => by
    rw [Field.moreReadings, Field.allSites]
    exact .mul (.right f.contains) (Field.contains_more fs)

theorem Target.contains : ∀ t : Target, Contains t.readings t.sites
  | .name _ _ => by rw [Target.sites]; exact Contains.nil.expr _
  | .index target key _ => by
    rw [Target.readings, Target.sites]
    exact (target.contains.mul (contains_key key.contains)).expr _

theorem Target.contains_list : ∀ ts : List Target,
    Contains (Target.listReadings ts) (Target.allSites ts)
  | [] => by rw [Target.allSites]; exact .nil
  | t :: ts => by
    rw [Target.listReadings, Target.allSites]
    exact .mul t.contains (Target.contains_more ts)

theorem Target.contains_more : ∀ ts : List Target,
    Contains (Target.moreReadings ts) (Target.allSites ts)
  | [] => by rw [Target.allSites]; exact .nil
  | t :: ts => by
    rw [Target.moreReadings, Target.allSites]
    exact .mul (.right t.contains) (Target.contains_more ts)

theorem Clause.contains : ∀ c : Clause, Contains c.readings c.sites
  | .mk condition body => by
    rw [Clause.readings, Clause.sites]
    exact .mul (.left condition.contains) body.contains

theorem Clause.contains_more : ∀ cs : List Clause,
    Contains (Clause.moreReadings cs) (Clause.allSites cs)
  | [] => by rw [Clause.allSites]; exact .nil
  | c :: cs => by
    rw [Clause.moreReadings, Clause.allSites]
    exact .mul (.right c.contains) (Clause.contains_more cs)

theorem Stmt.contains : ∀ (s : Stmt) (passed : Bool), Contains (s.readings passed) s.sites
  | .localVars _ [] _, _ => by
    rw [Stmt.sites, Expr.allSites]
    exact Contains.nil.stmt
  | .localVars _ (e :: es) _, _ => by
    refine Eq.mpr (by rw [Stmt.sites, Expr.allSites]) (Contains.stmt ?_)
    rw [Stmt.readings]
    exact .right (.right (.mul e.contains (Expr.contains_more es)))
  | .assign targets values _, _ => by
    rw [Stmt.sites]
    refine Contains.stmt ?_
    rw [Stmt.readings]
    exact Contains.mono (.mul (Target.contains_list targets) (.right (Expr.contains_list values)))
      inf_le_right
  | .call c _, _ => by
    rw [Stmt.sites]
    refine Contains.stmt ?_
    rw [Stmt.readings]
    exact c.contains.mono inf_le_right
  | .doBlock body _, _ => by
    rw [Stmt.sites]
    refine Contains.stmt ?_
    rw [Stmt.readings]
    exact .left (.right body.contains)
  | .whileLoop condition body _, _ => by
    rw [Stmt.sites]
    refine Contains.stmt ?_
    rw [Stmt.readings]
    exact .left (.mul (.left (.right condition.contains)) body.contains)
  | .branch [] _ _, _ => .zero
  | .branch (c :: cs) none _, _ => by
    rw [Stmt.sites, Clause.allSites]
    refine Contains.stmt ?_
    rw [Stmt.readings]
    exact .left (.mul (.right c.contains) (Clause.contains_more cs))
  | .branch (c :: cs) (some otherwise) _, _ => by
    rw [Stmt.sites, Clause.allSites]
    refine Contains.stmt ?_
    rw [Stmt.readings]
    exact .left (.mul (.mul (.right c.contains) (Clause.contains_more cs))
      (.right otherwise.contains))
  | .numericFor _ start stop none body _, _ => by
    rw [Stmt.sites]
    refine Contains.stmt ?_
    rw [Stmt.readings]
    exact .left (.append (.left (.left (.left (.left (.right start.contains)))))
      (.mul (.left (.right stop.contains)) body.contains))
  | .numericFor _ start stop (some step) body _, _ => by
    rw [Stmt.sites]
    refine Contains.stmt ?_
    rw [Stmt.readings]
    exact .left (.append (.left (.left (.left (.left (.left (.right start.contains))))))
      (.append (.left (.left (.left (.right stop.contains))))
        (.mul (.left (.right (.right step.contains))) body.contains)))
  | .genericFor _ values body _, _ => by
    rw [Stmt.sites]
    refine Contains.stmt ?_
    rw [Stmt.readings]
    exact .left (.mul (.left (.right (Expr.contains_list values))) body.contains)
  | .functionDecl target f _, _ => by
    rw [Stmt.sites]
    refine Contains.stmt ?_
    rw [Stmt.readings]
    exact .mul (.right target.contains) f.contains
  | .localFunction _ f _, _ => by
    rw [Stmt.sites]
    refine Contains.stmt ?_
    rw [Stmt.readings]
    exact .right f.contains
  | .returnValues values _, _ => by
    rw [Stmt.sites]
    refine Contains.stmt ?_
    rw [Stmt.readings]
    exact .left (.right (Expr.contains_list values))
  | .breakLoop _, _ => by
    rw [Stmt.sites]
    exact Contains.nil.stmt
  | .other _ _, _ => .zero

theorem Stmt.contains_row : ∀ (ss : List Stmt) (passed : Bool),
    Contains (Stmt.rowReadings ss passed) (Stmt.allSites ss)
  | [], _ => by rw [Stmt.allSites]; exact .nil
  | s :: ss, passed => by
    rw [Stmt.rowReadings, Stmt.allSites]
    exact .mul (.add (s.contains passed) (.right (s.contains false)))
      (Stmt.contains_row ss s.openEnded)

theorem Block.contains : ∀ b : Block, Contains b.readings b.sites
  | .mk statements _ => by
    rw [Block.readings, Block.sites]
    exact Stmt.contains_row statements false

end

end MiniLua

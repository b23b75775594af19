import MiniLua.Proofs.Scoping.Names

/-!
# Shared variables

Frames form a tree that everything created in them shares. However the tree grows, a frame below the
global one keeps the names it was made with, so a name goes on resolving to the frame it was found in;
and an assignment is seen exactly where the name resolves to the same frame.
-/

namespace MiniLua

namespace Bindings

theorem lookup_cons (b : String × Value) (bs : Bindings) (n : String) :
    List.lookup n (b :: bs) = if n = b.1 then some b.2 else bs.lookup n := by
  rw [List.lookup_cons]
  by_cases h : n = b.1
  · rw [if_pos h, beq_iff_eq.mpr h]
  · rw [if_neg h, beq_eq_false_iff_ne.mpr h]

theorem lookup_bind (name : String) (v : Value) (bs : Bindings) (n : String) :
    (bind name v bs).lookup n = if n = name then some v else bs.lookup n := by
  induction bs with
  | nil => exact lookup_cons (name, v) [] n
  | cons b bs ih =>
    by_cases same : b.1 = name
    · rw [bind, if_pos same, lookup_cons, lookup_cons, same]
      split <;> rfl
    · rw [bind, if_neg same, lookup_cons, lookup_cons, ih]
      by_cases h : n = b.1
      · rw [if_pos h, if_pos h, if_neg (h ▸ same)]
      · rw [if_neg h, if_neg h]

end Bindings

namespace Frames

/-! ## Scopes that lead out -/

/-- The frames of a scope are there; the last of them is the global one and the others are not. -/
inductive Outward (fs : Frames) : Scope → Prop
  | globals : 0 < fs.size → Outward fs [0]
  | frame {id : FrameId} {scope : Scope} : id ≠ 0 → id < fs.size → Outward fs scope →
    Outward fs (id :: scope)

/-- The frames are still there, and below the global one they bind the names they did. -/
structure Stable (fs fs' : Frames) : Prop where
  size : fs.size ≤ fs'.size
  names : ∀ id ≠ 0, id < fs.size → ∀ n, (fs'.bindings id).binds n = (fs.bindings id).binds n

variable {fs fs' fs'' : Frames} {scope : Scope} {n : String} {v : Value}

theorem Stable.refl (fs : Frames) : fs.Stable fs := ⟨Nat.le_refl _, fun _ _ _ _ => rfl⟩

theorem Stable.trans (h : fs.Stable fs') (h' : fs'.Stable fs'') : fs.Stable fs'' where
  size := Nat.le_trans h.size h'.size
  names := by
    intro id inner inside n
    rw [h'.names id inner (Nat.lt_of_lt_of_le inside h.size), h.names id inner inside]

theorem Outward.stable (h : fs.Outward scope) (stable : fs.Stable fs') : fs'.Outward scope := by
  induction h with
  | globals inside => exact .globals (Nat.lt_of_lt_of_le inside stable.size)
  | frame inner inside _ ih => exact .frame inner (Nat.lt_of_lt_of_le inside stable.size) ih

theorem Outward.root (h : fs.Outward scope) : Frames.root scope = 0 := by
  induction h with
  | globals => rfl
  | @frame id scope _ _ rest ih =>
    cases rest with
    | globals => rfl
    | frame => simpa [Frames.root] using ih

/-! ## What an operation changes -/

theorem stable_push (fs : Frames) (bs : Bindings) : fs.Stable (Array.push fs bs) where
  size := by simp
  names := by
    intro id _ inside n
    rw [bindings_push, if_neg (Nat.ne_of_lt inside)]

theorem stable_assign (outward : fs.Outward scope) (name : String) (v : Value) :
    fs.Stable (fs.assign scope name v) where
  size := Nat.le_of_eq (size_define _ _ _ _).symm
  names := fun _ inner _ n => binds_assign fs scope name v outward.root inner n

theorem resolve?_cons (fs : Frames) (id : FrameId) (scope : Scope) (n : String) :
    fs.resolve? (id :: scope) n =
      if (fs.bindings id).binds n then some id else fs.resolve? scope n := by
  cases bound : (fs.bindings id).binds n <;> simp [resolve?, bound]

theorem binds_of_resolve? {id : FrameId} (found : fs.resolve? scope n = some id) :
    (fs.bindings id).binds n = true := by
  have bound := List.find?_some found
  exact bound

/-- Frames that bind a name alike are found alike. -/
theorem resolve?_congr
    (same : ∀ id ∈ scope, (fs'.bindings id).binds n = (fs.bindings id).binds n) :
    fs'.resolve? scope n = fs.resolve? scope n := by
  induction scope with
  | nil => rfl
  | cons id scope ih =>
    obtain ⟨first, rest⟩ := List.forall_mem_cons.mp same
    rw [resolve?_cons, resolve?_cons, first, ih rest]

/-- A name found below the global frame is found in the same frame ever after, and one that is not
found there never will be. -/
theorem resolve?_stable (outward : fs.Outward scope) (stable : fs.Stable fs') (n : String)
    {id : FrameId} (inner : id ≠ 0) :
    fs'.resolve? scope n = some id ↔ fs.resolve? scope n = some id := by
  induction outward with
  | globals _ =>
    have nowhere (fs : Frames) : fs.resolve? [0] n ≠ some id := by
      intro found
      have there := List.mem_of_find?_eq_some found
      exact inner (List.mem_singleton.mp there)
    exact iff_of_false (nowhere fs') (nowhere fs)
  | @frame id' scope inner' inside _ ih =>
    rw [resolve?_cons, resolve?_cons, stable.names id' inner' inside n]
    split
    · exact Iff.rfl
    · exact ih

theorem lookup_eq (fs : Frames) (scope : Scope) (n : String) :
    fs.lookup scope n =
      ((fs.resolve? scope n).bind fun id => (fs.bindings id).lookup n).getD .nil := by
  unfold lookup
  cases fs.resolve? scope n <;> rfl

theorem Outward.lt_size (h : fs.Outward scope) : ∀ id ∈ scope, id < fs.size := by
  induction h with
  | globals inside => exact List.forall_mem_singleton.mpr inside
  | frame _ inside _ ih => exact List.forall_mem_cons.mpr ⟨inside, ih⟩

theorem Outward.zero_mem (h : fs.Outward scope) : 0 ∈ scope := by
  induction h with
  | globals => exact List.mem_singleton_self 0
  | frame _ _ _ ih => exact List.mem_cons_of_mem _ ih

theorem lookup_push (outward : fs.Outward scope) (bs : Bindings) (n : String) :
    lookup (Array.push fs bs) scope n = fs.lookup scope n := by
  have there : ∀ id ∈ scope, bindings (Array.push fs bs) id = fs.bindings id := by
    intro id member
    rw [bindings_push, if_neg (Nat.ne_of_lt (outward.lt_size id member))]
  have same : resolve? (Array.push fs bs) scope n = fs.resolve? scope n :=
    resolve?_congr fun id member => by rw [there id member]
  rw [lookup_eq, lookup_eq, same]
  cases found : fs.resolve? scope n with
  | none => rfl
  | some id => rw [Option.bind_some, Option.bind_some, there id (List.mem_of_find?_eq_some found)]

/-! ## Assignment -/

/-- The frame that an assignment writes. -/
def home (fs : Frames) (scope : Scope) (name : String) : FrameId :=
  (fs.resolve? scope name).getD (root scope)

theorem Outward.home_lt (outward : fs.Outward scope) (name : String) :
    fs.home scope name < fs.size := by
  unfold home
  cases found : fs.resolve? scope name with
  | none =>
    rw [Option.getD_none, outward.root]
    exact outward.lt_size 0 outward.zero_mem
  | some id => exact outward.lt_size id (List.mem_of_find?_eq_some found)

theorem lookup_bindings_assign (outward : fs.Outward scope) (name : String) (v : Value)
    (id : FrameId) (n : String) :
    ((fs.assign scope name v).bindings id).lookup n =
      if id = fs.home scope name ∧ n = name then some v else (fs.bindings id).lookup n := by
  have inside := outward.home_lt name
  change ((fs.define (fs.home scope name) name v).bindings id).lookup n = _
  rw [bindings_define]
  by_cases same : id = fs.home scope name
  · rw [if_pos ⟨same.symm, inside⟩, Bindings.lookup_bind]
    simp [same]
  · rw [if_neg (fun h => same h.1.symm), if_neg (fun h => same h.1)]

theorem binds_bindings_assign (outward : fs.Outward scope) (name : String) (v : Value)
    (id : FrameId) (n : String) :
    ((fs.assign scope name v).bindings id).binds n = true ↔
      id = fs.home scope name ∧ n = name ∨ (fs.bindings id).binds n = true := by
  have inside := outward.home_lt name
  change ((fs.define (fs.home scope name) name v).bindings id).binds n = true ↔ _
  rw [bindings_define]
  by_cases same : id = fs.home scope name
  · rw [if_pos ⟨same.symm, inside⟩, Bindings.binds_bind]
    simp [same]
  · rw [if_neg (fun h => same h.1.symm)]
    simp [same]

/-- An assignment changes only what other names resolve to if it makes a global of its name. -/
theorem resolve?_assign (outward : fs.Outward scope) {scope' : Scope} (outward' : fs.Outward scope')
    (name : String) (v : Value) (n : String) :
    (fs.assign scope name v).resolve? scope' n =
      if n = name ∧ fs.resolve? scope name = none ∧ fs.resolve? scope' name = none then some 0
      else fs.resolve? scope' n := by
  have binds := binds_bindings_assign outward name v
  have alike (h : n = name → (fs.bindings (fs.home scope name)).binds name = true) :
      (fs.assign scope name v).resolve? scope' n = fs.resolve? scope' n := by
    refine resolve?_congr fun id _ => ?_
    rw [Bool.eq_iff_iff, binds]
    constructor
    · rintro (⟨rfl, rfl⟩ | bound)
      · exact h rfl
      · exact bound
    · exact .inr
  by_cases same : n = name
  · subst same
    cases first : fs.resolve? scope n with
    | some id =>
      rw [if_neg (by simp)]
      refine alike fun _ => ?_
      rw [home, first]
      exact binds_of_resolve? first
    | none =>
      have kept {id : FrameId} (inner : id ≠ 0) :=
        resolve?_stable outward' (stable_assign outward n v) n inner
      have root : fs.home scope n = 0 := by rw [home, first, Option.getD_none, outward.root]
      have unbound : ¬ (fs.bindings 0).binds n = true :=
        List.find?_eq_none.mp first 0 outward.zero_mem
      cases second : fs.resolve? scope' n with
      | some id =>
        have inner : id ≠ 0 := by
          rintro rfl
          exact unbound (binds_of_resolve? second)
        rw [if_neg (by simp)]
        exact (kept inner).mpr second
      | none =>
        rw [if_pos ⟨rfl, rfl, rfl⟩]
        cases after : (fs.assign scope n v).resolve? scope' n with
        | none =>
          have missed := List.find?_eq_none.mp after 0 outward'.zero_mem
          exact absurd ((binds 0 n).mpr (.inl ⟨root.symm, rfl⟩)) missed
        | some id =>
          -- a frame below the global one would have been found before
          by_cases inner : id = 0
          · rw [inner]
          · rw [(kept inner).mp after] at second
            cases second
  · rw [if_neg (fun h => same h.1)]
    exact alike fun h => absurd h same

/-- An assignment is seen where the name resolves to the same frame, or to none as well. -/
theorem lookup_assign (outward : fs.Outward scope) {scope' : Scope} (outward' : fs.Outward scope')
    (name : String) (v : Value) (n : String) :
    (fs.assign scope name v).lookup scope' n =
      if n = name ∧ fs.resolve? scope' name = fs.resolve? scope name then v
      else fs.lookup scope' n := by
  have reads := lookup_bindings_assign outward name v
  rw [lookup_eq, lookup_eq, resolve?_assign outward outward']
  by_cases same : n = name
  · subst same
    cases first : fs.resolve? scope n with
    | none =>
      have root : fs.home scope n = 0 := by rw [home, first, Option.getD_none, outward.root]
      cases second : fs.resolve? scope' n with
      | none => simp [reads, root]
      | some id =>
        have other : id ≠ 0 := by
          rintro rfl
          exact List.find?_eq_none.mp first 0 outward.zero_mem (binds_of_resolve? second)
        simp [reads, root, other]
    | some id =>
      have found : fs.home scope n = id := by rw [home, first, Option.getD_some]
      cases second : fs.resolve? scope' n with
      | none => simp
      | some id' => by_cases h : id' = id <;> simp [reads, found, h]
  · simp [reads, same]

end Frames

/-! ## Trees of frames -/

/-- A store of frames with every scope that has been handed out, the global one first. -/
structure ScopeTree where
  frames : Frames
  scopes : List Scope

/-- What is done to a tree; a scope is named by its place among those handed out. -/
inductive ScopeOp where
  | push (parent : Nat) (bs : Bindings)
  | declare (parent : Nat) (names : List String) (values : List Value)
  | assign (scope : Nat) (name : String) (value : Value)

namespace ScopeTree

def start (globals : Bindings) : ScopeTree := ⟨#[globals], [[0]]⟩

/-- A new frame under a scope; there is no such scope, and no frame, under one not handed out. -/
def enter (t : ScopeTree) (parent : Nat) (bs : Bindings) : ScopeTree :=
  match t.scopes[parent]? with
  | some scope =>
    let (frames, scope) := t.frames.push scope bs
    ⟨frames, t.scopes ++ [scope]⟩
  | none => t

def act (t : ScopeTree) : ScopeOp → ScopeTree
  | .push parent bs => t.enter parent bs
  | .declare parent names values => t.enter parent (.ofLists names values)
  | .assign i name v =>
    match t.scopes[i]? with
    | some scope => { t with frames := t.frames.assign scope name v }
    | none => t

def run (t : ScopeTree) (ops : List ScopeOp) : ScopeTree := ops.foldl act t

/-- Every scope leads out to the global frame. -/
def Rooted (t : ScopeTree) : Prop := ∀ scope ∈ t.scopes, t.frames.Outward scope

/-- The tree has grown: its frames are stable and its scopes are still handed out. -/
structure Grown (t t' : ScopeTree) : Prop where
  stable : t.frames.Stable t'.frames
  scopes : t.scopes ⊆ t'.scopes

variable {t t' t'' : ScopeTree}

theorem Grown.refl (t : ScopeTree) : t.Grown t := ⟨.refl _, List.Subset.refl _⟩

theorem Grown.trans (h : t.Grown t') (h' : t'.Grown t'') : t.Grown t'' :=
  ⟨h.stable.trans h'.stable, List.Subset.trans h.scopes h'.scopes⟩

theorem rooted_start (globals : Bindings) : (start globals).Rooted := by
  intro scope member
  rw [List.mem_singleton.mp member]
  exact .globals Nat.one_pos

/-- Where the root is `0` from the start, a new frame is not: it comes after the global one. -/
theorem enter_rooted (rooted : t.Rooted) (parent : Nat) (bs : Bindings) :
    (t.enter parent bs).Rooted ∧ t.Grown (t.enter parent bs) := by
  unfold enter
  cases handed : t.scopes[parent]? with
  | none => exact ⟨rooted, .refl t⟩
  | some scope =>
    have outward := rooted scope (List.mem_of_getElem? handed)
    have stable := Frames.stable_push t.frames bs
    refine ⟨fun scope' member => ?_, stable, List.subset_append_left _ _⟩
    obtain old | new := List.mem_append.mp member
    · exact (rooted scope' old).stable stable
    · rw [List.mem_singleton.mp new]
      have inside := outward.lt_size 0 outward.zero_mem
      exact .frame (Nat.ne_of_gt inside) (by simp [Frames.push]) (outward.stable stable)

theorem act_rooted (rooted : t.Rooted) (op : ScopeOp) :
    (t.act op).Rooted ∧ t.Grown (t.act op) := by
  cases op with
  | push parent bs => exact enter_rooted rooted parent bs
  | declare parent names values => exact enter_rooted rooted parent _
  | assign i name v =>
    rw [act]
    cases handed : t.scopes[i]? with
    | none => exact ⟨rooted, .refl t⟩
    | some scope =>
      have stable := Frames.stable_assign (rooted scope (List.mem_of_getElem? handed)) name v
      exact ⟨fun scope' member => (rooted scope' member).stable stable, stable,
        List.Subset.refl _⟩

theorem run_rooted (rooted : t.Rooted) (ops : List ScopeOp) :
    (t.run ops).Rooted ∧ t.Grown (t.run ops) := by
  induction ops generalizing t with
  | nil => exact ⟨rooted, .refl t⟩
  | cons op ops ih =>
    obtain ⟨rooted', grown⟩ := act_rooted rooted op
    obtain ⟨rooted'', grown'⟩ := ih rooted'
    exact ⟨rooted'', grown.trans grown'⟩

/-- A frame below the global one never binds another set of names, so a name resolves to it for ever
or never. A new frame changes what no scope reads; an assignment changes the readings of one name,
in the scopes that resolve it alike. -/
theorem shared_variables (globals : Bindings) (before after : List ScopeOp) :
    let t := (start globals).run before
    let t' := t.run after
    (∀ id ≠ 0, id < t.frames.size → ∀ n,
      (t'.frames.bindings id).binds n = (t.frames.bindings id).binds n) ∧
    (∀ scope ∈ t.scopes, scope ∈ t'.scopes ∧ ∀ n, ∀ id ≠ 0,
      t'.frames.resolve? scope n = some id ↔ t.frames.resolve? scope n = some id) ∧
    (∀ scope ∈ t.scopes, ∀ parent bs n,
      (t.enter parent bs).frames.lookup scope n = t.frames.lookup scope n) ∧
    (∀ e₁ ∈ t.scopes, ∀ e₂ ∈ t.scopes, ∀ n v m,
      (t.frames.assign e₁ n v).lookup e₂ m =
        if m = n ∧ t.frames.resolve? e₂ n = t.frames.resolve? e₁ n then v
        else t.frames.lookup e₂ m) := by
  intro t t'
  have rooted : t.Rooted := (run_rooted (rooted_start globals) before).1
  have grown : t.Grown t' := (run_rooted rooted after).2
  refine ⟨grown.stable.names, fun scope member => ⟨grown.scopes member, fun n id inner => ?_⟩,
    fun scope member parent bs n => ?_, fun e₁ member e₂ member' n v m => ?_⟩
  · exact Frames.resolve?_stable (rooted scope member) grown.stable n inner
  · unfold enter
    cases t.scopes[parent]? with
    | none => rfl
    | some _ => exact Frames.lookup_push (rooted scope member) bs n
  · exact Frames.lookup_assign (rooted e₁ member) (rooted e₂ member') n v m

/-- A closure holds the scope `[1, 0]` and `x` is declared again below it: a store of `x` by the
closure is not read past the later declaration, and the global `x` is untouched. -/
theorem shadowed_apart :
    let t := (start [("x", .nil)]).run
      [.declare 0 ["x"] [.bool true], .declare 1 ["x"] [.bool false]]
    let stored := t.frames.assign [1, 0] "x" (.string "new")
    stored.lookup [1, 0] "x" = .string "new" ∧ stored.lookup [2, 1, 0] "x" = .bool false ∧
      stored.lookup [0] "x" = .nil := by
  have assigned := (shared_variables [("x", .nil)]
    [.declare 0 ["x"] [.bool true], .declare 1 ["x"] [.bool false]] []).2.2.2
  have read (e₂ : Scope) (member : e₂ ∈ [[0], [1, 0], [2, 1, 0]]) :=
    assigned [1, 0] (by decide) e₂ member "x" (.string "new") "x"
  exact ⟨(read [1, 0] (by decide)).trans rfl, (read [2, 1, 0] (by decide)).trans rfl,
    (read [0] (by decide)).trans rfl⟩

end ScopeTree

end MiniLua

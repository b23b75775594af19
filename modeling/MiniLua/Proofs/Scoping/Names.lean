import MiniLua.Scope

/-!
# Names of frames

Which names a frame binds after a store, and which one a name resolves to.
-/

namespace MiniLua

namespace Bindings

theorem binds_bind (name : String) (v : Value) (bs : Bindings) (n : String) :
    (bind name v bs).binds n = true ↔ n = name ∨ bs.binds n = true := by
  induction bs with
  | nil => simp [bind, binds, eq_comm (a := n)]
  | cons b bs ih =>
    by_cases h : b.1 = name
    · simp [bind, binds, h, eq_comm (a := n)]
    · have step : binds (b :: bind name v bs) n = (decide (b.1 = n) || binds (bind name v bs) n) := rfl
      rw [bind, if_neg h, step, Bool.or_eq_true, ih]
      simp [binds, or_left_comm]

theorem binds_foldl (pairs : List (String × Value)) (bs : Bindings) (n : String) :
    (pairs.foldl (fun bs b => bind b.1 b.2 bs) bs).binds n = true ↔
      n ∈ pairs.map (·.1) ∨ bs.binds n = true := by
  induction pairs generalizing bs with
  | nil => simp
  | cons pair pairs ih =>
    rw [List.foldl_cons, ih, binds_bind, List.map_cons, List.mem_cons, or_assoc, or_left_comm]

theorem binds_ofLists (names : List String) (values : List Value)
    (enough : names.length ≤ values.length) (n : String) :
    (ofLists names values).binds n = true ↔ n ∈ names := by
  rw [ofLists, binds_foldl, List.map_fst_zip enough]
  simp [binds]

/-! ## What is bound -/

section

variable {p : Value → Prop} {bs : Bindings} {v : Value}

theorem forall_bind (h : ∀ b ∈ bs, p b.2) (name : String) (value : p v) :
    ∀ b ∈ bs.bind name v, p b.2 := by
  induction bs with
  | nil => exact List.forall_mem_singleton.mpr value
  | cons b bs ih =>
    obtain ⟨first, rest⟩ := List.forall_mem_cons.mp h
    rw [bind]
    split
    · exact List.forall_mem_cons.mpr ⟨value, rest⟩
    · exact List.forall_mem_cons.mpr ⟨first, ih rest⟩

theorem forall_foldl {pairs : List (String × Value)} (fine : ∀ b ∈ pairs, p b.2)
    (h : ∀ b ∈ bs, p b.2) :
    ∀ b ∈ pairs.foldl (fun bs b => bind b.1 b.2 bs) bs, p b.2 := by
  induction pairs generalizing bs with
  | nil => exact h
  | cons pair pairs ih =>
    obtain ⟨first, rest⟩ := List.forall_mem_cons.mp fine
    exact ih rest (forall_bind h pair.1 first)

theorem forall_ofLists (names : List String) {values : List Value} (h : ∀ v ∈ values, p v) :
    ∀ b ∈ ofLists names values, p b.2 :=
  forall_foldl (fun b member => h b.2 (List.of_mem_zip member).2) nofun

end

end Bindings

namespace Frames

theorem size_define (fs : Frames) (id : FrameId) (name : String) (v : Value) :
    (fs.define id name v).size = fs.size := by
  simp [define]

theorem bindings_define (fs : Frames) (id id' : FrameId) (name : String) (v : Value) :
    (fs.define id name v).bindings id' =
      if id = id' ∧ id < fs.size then (fs.bindings id').bind name v else fs.bindings id' := by
  simp only [bindings, define, Array.getD_eq_getD_getElem?, Array.getElem?_modify]
  by_cases same : id = id'
  · subst same
    by_cases inside : id < fs.size <;> simp [inside]
  · simp [same]

theorem bindings_push (fs : Frames) (bs : Bindings) (id : FrameId) :
    bindings (Array.push fs bs) id = if id = fs.size then bs else fs.bindings id := by
  simp only [bindings, Array.getD_eq_getD_getElem?, Array.getElem?_push]
  split <;> simp

section

variable {p : Value → Prop} {fs : Frames}

theorem forall_lookup (h : ∀ bs ∈ fs, ∀ b ∈ bs, p b.2) (nil : p .nil) (scope : Scope)
    (name : String) : p (fs.lookup scope name) := by
  have bound (id : FrameId) : ∀ b ∈ fs.bindings id, p b.2 := by
    rw [bindings, Array.getD_eq_getD_getElem?]
    cases found : fs[id]? with
    | none => exact nofun
    | some bs => exact h bs (Array.mem_of_getElem? found)
  unfold lookup
  split
  · exact nil
  next id _ =>
    cases found : (fs.bindings id).lookup name with
    | none => exact nil
    | some v =>
      obtain ⟨before, after, same, -⟩ := List.lookup_eq_some_iff.mp found
      exact bound id (name, v) (by simp [same])

theorem forall_assign (h : ∀ bs ∈ fs, ∀ b ∈ bs, p b.2) (scope : Scope) (name : String)
    {v : Value} (value : p v) : ∀ bs ∈ fs.assign scope name v, ∀ b ∈ bs, p b.2 := by
  intro bs member
  obtain ⟨id, inside, rfl⟩ := Array.mem_iff_getElem.mp member
  simp only [assign, define, Array.getElem_modify]
  split
  · exact Bindings.forall_bind (h _ (Array.getElem_mem _)) name value
  · exact h _ (Array.getElem_mem _)

end

/-- A store makes no name but a global one. -/
theorem binds_assign (fs : Frames) (scope : Scope) (name : String) (v : Value)
    (outermost : root scope = 0) {id : FrameId} (inner : id ≠ 0) (n : String) :
    ((fs.assign scope name v).bindings id).binds n = (fs.bindings id).binds n := by
  simp only [assign, bindings_define]
  split
  next target =>
    cases found : fs.resolve? scope name with
    | none =>
      rw [found] at target
      exact absurd (target.1.symm.trans outermost) inner
    | some id' =>
      rw [found] at target
      obtain rfl : id' = id := target.1
      have bound := List.find?_some found
      rw [Bool.eq_iff_iff, Bindings.binds_bind]
      constructor
      · rintro (rfl | h)
        · exact bound
        · exact h
      · exact .inr
  · rfl

end Frames

end MiniLua

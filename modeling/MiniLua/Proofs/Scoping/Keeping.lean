import MiniLua.Proofs.Running.Moving
import MiniLua.Proofs.Scoping.Names

/-!
# Steps that keep the frames

Most steps of an evaluation make no frame and no closure and give no frame a new name, the global
one apart: only running a declaration, a block or a function expression does.
-/

namespace MiniLua

variable {α : Type}

/-- The same frames with the same names, but for new globals, and the same closures. -/
structure Machine.Kept (m m' : Machine) : Prop where
  size : m'.frames.size = m.frames.size
  names : ∀ id ≠ 0, ∀ n, (m'.frames.bindings id).binds n = (m.frames.bindings id).binds n
  functions : m'.functions = m.functions

theorem Machine.Kept.refl (m : Machine) : m.Kept m := ⟨rfl, fun _ _ _ => rfl, rfl⟩

theorem Machine.Kept.trans {m m' m'' : Machine} (h : m.Kept m') (h' : m'.Kept m'') : m.Kept m'' :=
  ⟨h'.size.trans h.size, fun id hid n => (h'.names id hid n).trans (h.names id hid n),
    h'.functions.trans h.functions⟩

instance : IsPreorder Machine Machine.Kept where
  refl := Machine.Kept.refl
  trans _ _ _ := Machine.Kept.trans

theorem Machine.Aside.kept {m m' : Machine} (h : m.Aside m') : m.Kept m' := by
  obtain ⟨trace, named, rfl⟩ := h
  exact ⟨rfl, fun _ _ _ => rfl, rfl⟩

/-- The step makes no frame and no closure. -/
def Eval.Keeps (x : Eval α) : Prop := ∀ m : Machine, m.Kept (Eval.final x m)

namespace Eval

theorem IsAside.keeps {x : Eval α} (h : x.IsAside) : Keeps x := fun m => (h m).kept

theorem keeps_newTable (t : Table) : Keeps (newTable t) :=
  moves_modifyGet fun _ => ⟨rfl, fun _ _ _ => rfl, rfl⟩

theorem keeps_write (text : String) : Keeps (write text) :=
  moves_modify fun _ => ⟨rfl, fun _ _ _ => rfl, rfl⟩

theorem keeps_apply (engine : Engine) (v : Value) (args : List Value)
    (builtin : v.isFunction = false) : Keeps (apply engine v args) := by
  unfold apply
  split
  · have shown : Keeps (args.mapM textOf) := IsAside.keeps (.mapM aside_textOf args)
    exact Moves.bind shown fun _ => Moves.bind (keeps_write _) fun _ => moves_pure _
  · exact moves_fault _
  · cases builtin
  · exact moves_fault _

/-! ## Stores -/

theorem keeps_assign (scope : Scope) (name : String) (v : Value) (root : Frames.root scope = 0) :
    Keeps (assign scope name v) :=
  moves_modify fun m => ⟨Frames.size_define _ _ _ _,
    fun _ inner n => Frames.binds_assign m.frames scope name v root inner n, rfl⟩

theorem keeps_setKey (id : Nat) (k v : Value) : Keeps (setKey id k v) := by
  unfold setKey
  split
  · exact moves_fault _
  · exact moves_modify fun _ => ⟨rfl, fun _ _ _ => rfl, rfl⟩

theorem keeps_store (scope : Scope) (place : Place) (v : Value) (root : Frames.root scope = 0) :
    Keeps (store scope place v) := by
  cases place with
  | «variable» name => exact keeps_assign scope name v root
  | slot id key => exact keeps_setKey id key v

theorem keeps_storeAll (scope : Scope) (places : List Place) (vs : List Value)
    (root : Frames.root scope = 0) : Keeps (storeAll scope places vs) :=
  Moves.storeAll (fun place v => keeps_store scope place v root) places vs

end Eval

end MiniLua

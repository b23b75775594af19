import MiniLua.Proofs.Journal.Observing
import MiniLua.Proofs.Limits.Extension
import MiniLua.Proofs.Running.Endings
import MiniLua.Proofs.Running.Faults

/-!
# What holds at every moment of a run

The frames form a tree whose root is the global frame: a frame remembers its parent, and a scope is
the way up from its innermost frame. Values that are stored, passed or returned are single; only a
call gives a list.
-/

namespace MiniLua

variable {α β : Type}

/-! ## Scopes -/

/-- The frames of a scope are each the parent of the one before, up to the global frame. -/
inductive Rooted (parents : List FrameId) : Scope → Prop
  | globals : Rooted parents [0]
  | frame {id up : FrameId} {scope : Scope} : parents[id]? = some up →
    Rooted parents (up :: scope) → Rooted parents ((id + 1) :: up :: scope)

namespace Rooted

variable {parents parents' : List FrameId} {scope : Scope}

theorem grows (h : Rooted parents scope) (grown : parents <+: parents') :
    Rooted parents' scope := by
  induction h with
  | globals => exact .globals
  | frame known _ ih => exact .frame (Record.getElem?_of_prefix grown known) ih

theorem root (h : Rooted parents scope) : Frames.root scope = 0 := by
  induction h with
  | globals => rfl
  | frame _ _ ih => simpa [Frames.root] using ih

theorem headD_cons_tail (h : Rooted parents scope) : scope.headD 0 :: scope.tail = scope := by
  cases h <;> rfl

/-- A new frame is the next one, and its way up is the scope it is made in. -/
theorem push (h : Rooted parents scope) :
    Rooted (parents ++ [scope.headD 0]) ((parents.length + 1) :: scope) := by
  have grown := h.grows (List.prefix_append parents [scope.headD 0])
  cases scope with
  | nil => cases h
  | cons up scope => exact .frame (by simp) grown

end Rooted

/-- Every frame and every scope of a function lead up to the global frame. -/
structure Machine.Grounded (parents : List FrameId) (m : Machine) : Prop where
  size : m.frames.size = parents.length + 1
  frames : ∀ id < m.frames.size, ∃ scope, Rooted parents (id :: scope)
  functions : ∀ f ∈ m.functions, Rooted parents f.scope

namespace Machine

variable {parents : List FrameId} {m m' : Machine}

theorem Grounded.kept (h : m.Grounded parents) (kept : m.Kept m') : m'.Grounded parents where
  size := kept.size.trans h.size
  frames := by
    rw [kept.size]
    exact h.frames
  functions := by
    rw [kept.functions]
    exact h.functions

theorem Grounded.pushFrame {up : FrameId} {way : Scope} (h : m.Grounded parents)
    (rooted : Rooted parents (up :: way)) (bs : Bindings) :
    Grounded (parents ++ [up]) { m with frames := Array.push m.frames bs } where
  size := by simp [h.size]
  frames := by
    intro id inside
    rw [Array.size_push, h.size] at inside
    rcases Nat.lt_succ_iff_lt_or_eq.mp inside with earlier | rfl
    · obtain ⟨scope, rooted⟩ := h.frames id (by rw [h.size]; exact earlier)
      exact ⟨scope, rooted.grows (List.prefix_append _ _)⟩
    · exact ⟨_, rooted.push⟩
  functions := fun f member => (h.functions f member).grows (List.prefix_append _ _)

theorem grounded_initial (tracing : Bool) : (initial tracing).Grounded [] where
  size := rfl
  frames := by
    intro id inside
    obtain rfl : id = 0 := Nat.lt_one_iff.mp inside
    exact ⟨[], .globals⟩
  functions := nofun

/-- Single values within the texts everywhere, and frames that lead up to the global one. -/
structure Sound (given : List String) (parents : List FrameId) (m : Machine) : Prop where
  within : m.Within given
  grounded : m.Grounded parents

end Machine

/-! ## Events -/

/-- What an expression gives: a list only if it is a call. -/
def Expr.Gives (given : List String) (e : Expr) (v : Value) : Prop :=
  v.Spreads given ∧ ((∃ c, e = .call c) ∨ v.Within given)

theorem Value.Within.gives {given : List String} {v : Value} (h : v.Within given) (e : Expr) :
    e.Gives given v := ⟨h.spreads, .inr h⟩

def Event.Fine (given : List String) : Event → Prop
  | .stepped => True
  | .gave e v => e.Gives given v
  | .narrowed v => v.Within given
  | .called callee args => callee.Within given ∧ AllWithin given args
  | .answered v => v.Spreads given
  | .ended signal => signal.Within given

/-- A function is called. -/
def Event.Calls (event : Event) : Prop := ∃ id args, event = .called (.ref (.function id)) args

/-! ## Steps that meet no limit -/

/-- The step does not end early at a limit. -/
def Eval.Unlimited (x : Eval α) : Prop := ∀ m e m', x m = .error e m' → e.limit? = none

namespace Eval.Raises

variable {x : Eval α}

theorem unlimited (h : x.Raises fun error _ => error ≠ .stackOverflow) : x.Unlimited := by
  intro m e m' result
  have raised := h m e m' result
  cases e with
  | fault error line =>
    cases error with
    | stackOverflow => exact absurd rfl raised
    | _ => rfl
  | crash c => rfl
  | exhausted => exact raised.elim

theorem entered {line : Nat} (h : x.Raises (Ordinary line)) :
    x.Raises fun error _ => error ≠ .stackOverflow := h.mono fun _ _ ordinary => ordinary.2.1

end Eval.Raises

end MiniLua

import MiniLua.Export
import MiniLua.Proofs.Number.Doubles

/-!
# The entries of an object

Keys that are the same in plain data share one entry, which keeps the first of the keys and the
value of the last. An object that is filled with the entries of a table has the values of those that
no later one replaces, each once.
-/

namespace MiniLua

/-! ## Keys -/

namespace PlainKey

variable {a b c : PlainKey}

theorem same_iff : a.same b = true ↔ (a = b ∧ a.numeric? = none) ∨
    ∃ x y, a.numeric? = some x ∧ b.numeric? = some y ∧ (x == y) = true := by
  cases a <;> cases b <;> simp [same, numeric?]

theorem same_symm (h : a.same b = true) : b.same a = true := by
  rw [same_iff] at h ⊢
  rcases h with ⟨rfl, valueless⟩ | ⟨x, y, first, second, equal⟩
  · exact .inl ⟨rfl, valueless⟩
  · exact .inr ⟨y, x, second, first, Number.beq_symm equal⟩

theorem same_trans (h : a.same b = true) (h' : b.same c = true) : a.same c = true := by
  rw [same_iff] at h h' ⊢
  rcases h with ⟨rfl, valueless⟩ | ⟨x, y, first, second, equal⟩
  · exact h'
  · rcases h' with ⟨rfl, valueless⟩ | ⟨y', z, second', third, equal'⟩
    · rw [valueless] at second
      cases second
    · rw [second] at second'
      cases second'
      exact .inr ⟨x, z, first, third, Number.beq_trans equal equal'⟩

theorem same_comm (a b : PlainKey) : a.same b = b.same a :=
  Bool.eq_iff_iff.mpr ⟨same_symm, same_symm⟩

theorem same_congr (h : a.same b = true) (c : PlainKey) : a.same c = b.same c :=
  Bool.eq_iff_iff.mpr ⟨same_trans (same_symm h), same_trans h⟩

end PlainKey

/-! ## Entries that last -/

/-- The entries of a list that no later one replaces. -/
def lasting : List (Value × Value) → List (Value × Value)
  | [] => []
  | e :: es =>
    if es.any fun later => (PlainKey.ofValue e.1).same (.ofValue later.1) then lasting es
    else e :: lasting es

/-- The keys of all entries are different keys of plain data, too. -/
def KeysApart (es : List (Value × Value)) : Prop :=
  es.Pairwise fun a b => (PlainKey.ofValue a.1).same (.ofValue b.1) = false

section

variable {es : List (Value × Value)}

end

/-! ## Objects -/

section

variable (convert : Value → Plain)

/-- The object that entries fill. -/
def objectFrom (es : List (Value × Value)) : PlainEntries :=
  es.foldl (fun entries e => entries.put (.ofValue e.1) (convert e.2)) []

/-- An entry of an object for an entry of a table, whose key it has or had to begin with. -/
def Stands (entry : PlainKey × Plain) (e : Value × Value) : Prop :=
  (entry.1 = .ofValue e.1 ∨ entry.1.same (.ofValue e.1) = true) ∧ entry.2 = convert e.2

variable {convert} {entries : PlainEntries} {es : List (Value × Value)} {e : Value × Value}

theorem Stands.same {entry : PlainKey × Plain} (h : Stands convert entry e) (key : PlainKey) :
    entry.1.same key = (PlainKey.ofValue e.1).same key := by
  rcases h.1 with equal | same
  · rw [equal]
  · exact PlainKey.same_congr same key

variable (convert)

end

end MiniLua

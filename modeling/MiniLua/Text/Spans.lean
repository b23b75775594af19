/-! # Character sets as ranges

A set of characters is a list of inclusive ranges of code points. -/

namespace MiniLua.Text

abbrev Spans := List (Nat × Nat)

namespace Spans

def has (spans : Spans) (c : Char) : Bool :=
  spans.any fun (first, last) => first ≤ c.toNat && c.toNat ≤ last

theorem has_iff (spans : Spans) (c : Char) :
    spans.has c = true ↔ ∃ s ∈ spans, s.1 ≤ c.toNat ∧ c.toNat ≤ s.2 := by
  simp [has, List.any_eq_true]

end Spans

end MiniLua.Text

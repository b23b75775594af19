import MiniLua.Token.Basic
import Mathlib

/-!
# Parentheses in a row of tokens
-/

namespace MiniLua.Lexeme

/-- How much deeper in parentheses the next token is. -/
def nesting (l : Lexeme) : Int :=
  if l = .symbol "(" then 1 else if l = .symbol ")" then -1 else 0

/-- How many more parentheses are opened than closed. -/
def excess (w : List Lexeme) : Int := (w.map Lexeme.nesting).sum

/-- From no token on more parentheses are opened than closed. -/
def Closed (w : List Lexeme) : Prop := ∀ s, s <:+ w → excess s ≤ 0

/-- Every parenthesis that is opened is closed, and the other way around. -/
structure Balanced (w : List Lexeme) : Prop where
  closed : Closed w
  even : excess w = 0

@[simp]
theorem excess_nil : excess [] = 0 := rfl

@[simp]
theorem excess_cons (l : Lexeme) (w : List Lexeme) : excess (l :: w) = l.nesting + excess w := rfl

@[simp]
theorem excess_append (u w : List Lexeme) : excess (u ++ w) = excess u + excess w := by
  rw [excess, List.map_append, List.sum_append, excess, excess]

theorem Closed.suffix {w w' : List Lexeme} (h : Closed w) (tail : w' <:+ w) : Closed w' :=
  fun s inner => h s (inner.trans tail)

theorem Closed.append {u w : List Lexeme} (h : Closed u) (h' : Closed w) : Closed (u ++ w) := by
  intro s tail
  rcases List.suffix_or_suffix_of_suffix tail (List.suffix_append u w) with inner | ⟨s', rfl⟩
  · exact h' s inner
  · have first := h s' (List.suffix_append_self_iff.mp tail)
    have second := h' w (List.suffix_refl w)
    rw [excess_append]
    omega

namespace Balanced

variable {u w : List Lexeme}

theorem nil : Balanced [] where
  closed s tail := by
    simp [List.suffix_nil.mp tail]
  even := rfl

theorem append (h : Balanced u) (h' : Balanced w) : Balanced (u ++ w) where
  closed := h.closed.append h'.closed
  even := by rw [excess_append, h.even, h'.even, Int.add_zero]

theorem singleton {l : Lexeme} (flat : l.nesting = 0) : Balanced [l] where
  closed s tail := by
    rcases List.suffix_cons_iff.mp tail with rfl | inner
    · simp [flat]
    · simp [List.suffix_nil.mp inner]
  even := by simp [flat]

theorem parens (h : Balanced u) : Balanced (.symbol "(" :: u ++ [.symbol ")"]) := by
  have even : excess (.symbol "(" :: u ++ [.symbol ")"]) = 0 := by
    rw [excess_append, excess_cons, excess_cons, h.even]
    decide
  have last : Closed [.symbol ")"] := by
    intro s tail
    rcases List.suffix_cons_iff.mp tail with rfl | inner
    · decide
    · simp [List.suffix_nil.mp inner]
  refine ⟨fun s tail => ?_, even⟩
  rw [List.cons_append] at tail even
  rcases List.suffix_cons_iff.mp tail with rfl | inner
  · exact Int.le_of_eq even
  · exact h.closed.append last s inner

/-- A parenthesis before balanced tokens is not closed. -/
theorem not_closed (h : Balanced u) : ¬ Closed (.symbol "(" :: u) := by
  intro closed
  have opened := closed _ (List.suffix_refl _)
  rw [excess_cons, h.even] at opened
  exact absurd opened (by decide)

end Balanced

end MiniLua.Lexeme

import MiniLua.Text.Lines

/-!
# Rows of a text

Cutting a text into lines is splitting it at its line feeds. Rows without a line feed are therefore
the lines of the text that they are joined to.
-/

namespace MiniLua.Text

variable {row : List Char} {rows : List (List Char)}

theorem lines_eq_splitOn (cs : List Char) : lines cs = cs.splitOn '\n' := by
  induction cs with
  | nil => rfl
  | cons c cs ih =>
    rw [lines, List.splitOn_eq_splitOnP, List.splitOnP_cons_eq_if_modifyHead,
      ← List.splitOn_eq_splitOnP, ← ih]
    by_cases feed : c = '\n'
    · simp [feed]
    · cases rest : lines cs with
      | nil => exact absurd rest (lines_ne_nil cs)
      | cons line rest => simp [feed]

/-- Rows with line feeds between them. -/
theorem lines_intercalate (single : ∀ row ∈ rows, '\n' ∉ row) (nonempty : rows ≠ []) :
    lines (['\n'].intercalate rows) = rows := by
  rw [lines_eq_splitOn]
  exact List.splitOn_intercalate '\n' single nonempty

theorem lines_append (single : '\n' ∉ row) (rest : List Char) :
    lines (row ++ '\n' :: rest) = row :: lines rest := by
  induction row with
  | nil => simp [lines]
  | cons c row ih =>
    obtain ⟨other, single⟩ := not_or.mp (mt List.mem_cons.mpr single)
    rw [List.cons_append, lines, if_neg (Ne.symm other), ih single]

/-- Line feeds alone are empty lines. -/
theorem lines_replicate (n : Nat) (cs : List Char) :
    lines (List.replicate n '\n' ++ cs) = List.replicate n [] ++ lines cs := by
  induction n with
  | zero => rfl
  | succ n ih => simp [List.replicate_succ, lines, ih]

/-- Rows with a line feed behind each. -/
theorem lines_ended (single : ∀ row ∈ rows, '\n' ∉ row) :
    lines (rows.flatMap (· ++ ['\n'])) = rows ++ [[]] := by
  induction rows with
  | nil => rfl
  | cons row rows ih =>
    obtain ⟨first, others⟩ := List.forall_mem_cons.mp single
    rw [List.flatMap_cons, List.append_assoc, List.singleton_append, lines_append first, ih others,
      List.cons_append]

theorem not_mem_of_mem_lines {cs : List Char} (h : row ∈ lines cs) : '\n' ∉ row := by
  induction cs generalizing row with
  | nil =>
    obtain rfl := List.mem_singleton.mp h
    exact nofun
  | cons c cs ih =>
    rw [lines] at h
    by_cases feed : c = '\n'
    · rw [if_pos feed] at h
      rcases List.mem_cons.mp h with rfl | h
      · exact nofun
      · exact ih h
    · rw [if_neg feed] at h
      cases cut : lines cs with
      | nil => exact absurd cut (lines_ne_nil cs)
      | cons line rest =>
        simp only [cut] at h ih
        rcases List.mem_cons.mp h with rfl | h
        · have own := ih List.mem_cons_self
          simp [own, Ne.symm feed]
        · exact ih (List.mem_cons_of_mem line h)

end MiniLua.Text

import MiniLua.Proofs.Number.Figures
import MiniLua.Text.Quoted

/-!
# What prints

A quoted text is made of printable characters, whatever the text; so are the texts of numbers. A line
feed does not print.
-/

namespace MiniLua.Text

def Printable (cs : List Char) : Prop := ∀ c ∈ cs, isPrintable c = true

instance (cs : List Char) : Decidable (Printable cs) := List.decidableBAll _ cs

namespace Printable

variable {cs ds : List Char}

theorem append (h : Printable cs) (h' : Printable ds) : Printable (cs ++ ds) :=
  List.forall_mem_append.mpr ⟨h, h'⟩

theorem cons {c : Char} (h : isPrintable c = true) (rest : Printable cs) : Printable (c :: cs) :=
  List.forall_mem_cons.mpr ⟨h, rest⟩

theorem spaces (n : Nat) : Printable (List.replicate n ' ') := by
  intro c member
  obtain rfl := List.eq_of_mem_replicate member
  decide

theorem intercalate {separator : List Char} {parts : List (List Char)}
    (between : Printable separator) (h : ∀ part ∈ parts, Printable part) :
    Printable (separator.intercalate parts) := by
  induction parts with
  | nil => exact nofun
  | cons part parts ih =>
    obtain ⟨first, others⟩ := List.forall_mem_cons.mp h
    cases parts with
    | nil => simpa using first
    | cons next parts =>
      rw [List.intercalate_cons_cons]
      exact (first.append between).append (ih others)

theorem single (h : Printable cs) : '\n' ∉ cs := fun member => absurd (h _ member) (by decide)

end Printable

/-! ## Quoted texts -/

theorem isPrintable_digitChar {n : Nat} (h : n < 16) : isPrintable (Nat.digitChar n) = true := by
  have each : ∀ n < 16, isPrintable (Nat.digitChar n) = true := by decide
  exact each n h

theorem printable_hexDigits (width n : Nat) : Printable (hexDigits width n) := by
  unfold hexDigits
  refine List.forall_mem_map.mpr fun k _ => ?_
  exact isPrintable_digitChar (Nat.mod_lt _ (by omega))

theorem isPrintable_quoteFor (cs : List Char) : isPrintable (quoteFor cs) = true := by
  unfold quoteFor
  split <;> decide

/-- A character that does not print is escaped. -/
theorem printable_escapeChar {quote : Char} (h : isPrintable quote = true) (c : Char) :
    Printable (escapeChar quote c) := by
  unfold escapeChar
  split
  next same =>
    have either : c = quote ∨ c = '\\' := by simpa using same
    have own : isPrintable c = true := by
      rcases either with rfl | rfl
      · exact h
      · decide
    exact .cons (by decide) (.cons own nofun)
  split
  · decide
  split
  · decide
  split
  · decide
  split
  next own => exact .cons own nofun
  split
  · exact .cons (by decide) (.cons (by decide) (printable_hexDigits _ _))
  split
  · exact .cons (by decide) (.cons (by decide) (printable_hexDigits _ _))
  · exact .cons (by decide) (.cons (by decide) (printable_hexDigits _ _))

theorem printable_quoted (s : String) : Printable (quoted s).toList := by
  have quote := isPrintable_quoteFor s.toList
  rw [quoted, String.toList_ofList, quotedChars]
  refine .append (.cons quote ?_) (.cons quote nofun)
  exact List.forall_mem_flatMap.mpr fun c _ => printable_escapeChar quote c

/-! ## Numbers -/

theorem isPrintable_of_isDigit {c : Char} (h : c.isDigit = true) : isPrintable c = true := by
  have range : 48 ≤ c.toNat ∧ c.toNat ≤ 57 := by
    simpa [Char.isDigit, UInt32.le_iff_toNat_le] using h
  unfold isPrintable
  rw [if_pos (by omega)]
  simp
  omega

theorem printable_of_figures {cs : List Char} (h : Number.Figures cs) : Printable cs := by
  intro c member
  rcases Bool.or_eq_true_iff.mp (h c member) with digit | mark
  · exact isPrintable_of_isDigit digit
  · have each : Printable ['.', '-', '+', 'e', 'i', 'n', 'f', 'a'] := by decide
    exact each c (List.contains_iff_mem.mp mark)

end MiniLua.Text

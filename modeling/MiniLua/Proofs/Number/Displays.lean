import MiniLua.Proofs.Number.Figures
import MiniLua.Proofs.Token.Containment

/-!
# Displays and oversize numerals

The only text that cannot be used as a number and yet is no ordinary string is a hexadecimal numeral
above every double. It has an `x`; the displays of numbers have none.
-/

namespace MiniLua

/-- The text is a numeral that no double can hold. -/
def Oversize (text : String) : Prop := Number.parse? text.toList = .error .tooLarge

theorem oversize_iff {text : String} :
    Oversize text ↔ (Number.parse? text.toList).isOk = false := by
  unfold Oversize
  cases Number.parse? text.toList with
  | ok x => exact ⟨nofun, nofun⟩
  | error fault => exact ⟨fun _ => rfl, fun _ => rfl⟩

instance (text : String) : Decidable (Oversize text) := decidable_of_iff _ oversize_iff.symm

example : (Number.parse? ('0' :: 'x' :: List.replicate 256 'f')).isOk = false := by decide +kernel
example : (Number.parse? ('0' :: 'x' :: List.replicate 255 'f')).isOk = true := by decide +kernel

namespace Number

/-- No mark of a hexadecimal numeral. -/
def Unmarked (cs : List Char) : Prop := 'x' ∉ cs ∧ 'X' ∉ cs

instance (cs : List Char) : Decidable (Unmarked cs) := inferInstanceAs (Decidable (_ ∧ _))

namespace Unmarked

variable {cs ds : List Char}

theorem subset (h : Unmarked cs) (within : ds ⊆ cs) : Unmarked ds :=
  ⟨fun member => h.1 (within member), fun member => h.2 (within member)⟩

theorem append (h : Unmarked cs) (h' : Unmarked ds) : Unmarked (cs ++ ds) := by
  constructor
  · exact fun member => (List.mem_append.mp member).elim h.1 h'.1
  · exact fun member => (List.mem_append.mp member).elim h.2 h'.2

end Unmarked

theorem Figures.unmarked {cs : List Char} (h : Figures cs) : Unmarked cs := by
  constructor
  · exact fun member => absurd (h 'x' member) (by decide)
  · exact fun member => absurd (h 'X' member) (by decide)

theorem unmarked_display (x : Float) : Unmarked (display x).toList := (figures_display x).unmarked

/-! ## Oversize numerals -/

theorem mem_splitSign {cs : List Char} {c : Char} (h : c ∈ (splitSign cs).2) : c ∈ cs := by
  unfold splitSign at h
  split at h
  · exact List.mem_cons_of_mem _ h
  · exact List.mem_cons_of_mem _ h
  · exact h

theorem mem_trim {cs : List Char} {c : Char} (h : c ∈ Text.trim cs) : c ∈ cs := by
  have inner := (List.dropWhile_sublist _).subset (List.mem_reverse.mp h)
  exact (List.dropWhile_sublist _).subset (List.mem_reverse.mp inner)

/-- A numeral that is read as a hexadecimal one has its mark. -/
theorem marked_of_scan_hex {cs rest : List Char} {value : Nat}
    (h : Numeral.scan cs = some (.hex value, rest)) : ¬ Unmarked cs := by
  intro unmarked
  rw [Numeral.scan, Option.or_eq_some_iff] at h
  rcases h with hex | ⟨-, decimal⟩
  · unfold Numeral.scanHex at hex
    split at hex
    next x cs =>
      have other : x ≠ 'x' ∧ x ≠ 'X' := by
        constructor
        · rintro rfl
          exact unmarked.1 (by simp)
        · rintro rfl
          exact unmarked.2 (by simp)
      simp [other] at hex
    next => cases hex
  · obtain ⟨parts, -, same⟩ := Option.map_eq_some_iff.mp decimal
    cases same

theorem not_oversize_of_unmarked {text : String} (h : Unmarked text.toList) : ¬ Oversize text := by
  intro oversize
  unfold Oversize parse? at oversize
  dsimp only at oversize
  split at oversize
  next numeral scanned =>
    have large : numeral.toFloat = .error .tooLarge := by
      cases read : numeral.toFloat with
      | ok x =>
        rw [read] at oversize
        cases oversize
      | error fault => rfl
    obtain ⟨value, rfl, -⟩ := Numeral.toFloat_eq_error.mp large
    exact marked_of_scan_hex scanned (h.subset fun c member => mem_trim (mem_splitSign member))
  next => cases oversize

end Number

end MiniLua

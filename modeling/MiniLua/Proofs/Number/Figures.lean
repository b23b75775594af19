import Mathlib.Data.List.Basic
import MiniLua.Number.Text

/-!
# The figures of a number

Both texts of a number are made of digits, a point, signs, the exponent's `e` and the letters of `inf`
and `nan`, whatever the layout.
-/

namespace MiniLua.Number

def isFigure (c : Char) : Bool :=
  c.isDigit || ['.', '-', '+', 'e', 'i', 'n', 'f', 'a'].contains c

def Figures (cs : List Char) : Prop := ∀ c ∈ cs, isFigure c = true

instance (cs : List Char) : Decidable (Figures cs) := List.decidableBAll _ cs

namespace Figures

variable {cs ds : List Char}

theorem subset (h : Figures cs) (within : ds ⊆ cs) : Figures ds :=
  fun c member => h c (within member)

theorem append (h : Figures cs) (h' : Figures ds) : Figures (cs ++ ds) :=
  List.forall_mem_append.mpr ⟨h, h'⟩

theorem cons {c : Char} (h : isFigure c = true) (rest : Figures cs) : Figures (c :: cs) :=
  List.forall_mem_cons.mpr ⟨h, rest⟩

theorem replicate (n : Nat) : Figures (List.replicate n '0') := by
  intro c member
  obtain rfl := List.eq_of_mem_replicate member
  decide

theorem toDigits (n : Nat) : Figures (Nat.toDigits 10 n) := by
  intro c member
  have digit : c.isDigit = true := Nat.isDigit_of_mem_toDigits (by omega) (by omega) member
  simp [isFigure, digit]

end Figures

/-! ## Digits -/

theorem figures_ofRatio (count num den : Nat) : Figures (Decimal.ofRatio count num den).digits := by
  unfold Decimal.ofRatio
  dsimp only
  split
  · exact .toDigits _
  · exact .toDigits _

theorem figures_stripZeros {x : Decimal} (h : Figures x.digits) : Figures x.stripZeros.digits := by
  have kept : Figures (x.digits.reverse.dropWhile (· = '0')).reverse := by
    refine h.subset fun c member => ?_
    have inner := (List.dropWhile_sublist _).subset (List.mem_reverse.mp member)
    exact List.mem_reverse.mp inner
  unfold Decimal.stripZeros
  split
  · exact .replicate 1
  · exact kept

theorem figures_displayMagnitude (b : Binary) : Figures (displayMagnitude b).digits := by
  unfold displayMagnitude
  split
  · exact .replicate 1
  · exact figures_stripZeros (figures_ofRatio _ _ _)

theorem figures_neighbour? {b : Binary} {exponent : Int} {count : Nat} {x : Decimal}
    (h : neighbour? b exponent count = some x) : Figures x.digits := by
  obtain ⟨m, -, rfl⟩ := Option.map_eq_some_iff.mp h
  exact .toDigits m

theorem figures_shortestMagnitude (b : Binary) : Figures (shortestMagnitude b).digits := by
  unfold shortestMagnitude
  split
  · exact .replicate 1
  · refine figures_stripZeros ?_
    cases found : (List.range 17).findSome? fun k =>
        neighbour? b (decimalExponent b.ratio.1 b.ratio.2) (k + 1) with
    | none => exact figures_ofRatio _ _ _
    | some x =>
      obtain ⟨k, -, near⟩ := List.exists_of_findSome?_eq_some found
      exact figures_neighbour? near

/-! ## Layouts -/

theorem figures_pointAfter {digits : List Char} (h : Figures digits) (whole : Nat) :
    Figures (pointAfter whole digits) := by
  unfold pointAfter
  split
  · exact h
  · exact (h.subset (List.take_subset _ _)).append
      (.cons (by decide) (h.subset (List.drop_subset _ _)))

theorem figures_exponentText (e : Int) : Figures (exponentText e) := by
  unfold exponentText
  refine .cons (by decide) (.cons (by split <;> decide) ?_)
  split
  · exact .cons (by decide) (.toDigits _)
  · exact .toDigits _

theorem figures_text {layout : Layout} {x : Decimal} (digits : Figures x.digits)
    (mark : Figures layout.wholeMark) : Figures (layout.text x) := by
  unfold Layout.text
  split
  · exact (figures_pointAfter digits 1).append (figures_exponentText _)
  split
  · exact .cons (by decide) (.cons (by decide) (Figures.append (.replicate _) digits))
  dsimp only
  split
  · exact (digits.append (.replicate _)).append mark
  · exact figures_pointAfter digits _

theorem figures_textWith {layout : Layout} {magnitude : Binary → Decimal}
    (digits : ∀ b, Figures (magnitude b).digits) (mark : Figures layout.wholeMark) (x : Float) :
    Figures (textWith layout magnitude x).toList := by
  have body (b : Binary) : Figures (layout.text (magnitude b)) := figures_text (digits b) mark
  unfold textWith
  split
  · decide
  split
  · split <;> decide
  · rw [String.toList_ofList]
    split
    · exact .cons (by decide) (body _)
    · exact body _

/-- What a program prints of a number. -/
theorem figures_display (x : Float) : Figures (display x).toList :=
  figures_textWith figures_displayMagnitude (by decide) x

/-- What a listing shows of a number. -/
theorem figures_shortest (x : Float) : Figures (shortest x).toList :=
  figures_textWith figures_shortestMagnitude (by decide) x

end MiniLua.Number

import MiniLua.Diagnostic.Excerpt
import MiniLua.Proofs.Text.Rows

/-!
# The caret of an excerpt

An excerpt shows the lines around a place, cut at both ends of the text, and a caret line behind the
line of the place. The caret line takes the numbers in front of the lines to have four digits, and
the field that they are written in grows with a fifth. So the caret stands under the place up to line
9999, and further left from there on.
-/

namespace MiniLua.Excerpt

open MiniLua.Text

/-- A source line behind its number. -/
def numbered (source : List (List Char)) (n : Nat) : List Char :=
  lineLabel n ++ (source[n - 1]?).getD []

/-- The lines from the first to the last of the window, and the caret behind the line in question. -/
def framed (source : List (List Char)) (line column around : Nat) : List (List Char) :=
  let first := max 1 (line - around)
  let last := min source.length (line + around)
  (List.range' first (line + 1 - first)).map (numbered source) ++
    caretLine column :: (List.range' (line + 1) (last - line)).map (numbered source)

variable {source : List (List Char)} {line column around : Nat}

/-! ## The window -/

theorem window_eq (source : List (List Char)) (line around : Nat) :
    window source line around =
      (List.range' (line - around - 1 + 1)
        (min source.length (line + around) - (line - around - 1))).map
        fun n => (n, (source[n - 1]?).getD []) := by
  apply List.ext_getElem?
  intro i
  simp only [window, List.getElem?_map, List.getElem?_zipIdx, List.getElem?_take,
    List.getElem?_drop]
  by_cases shown : i < min source.length (line + around) - (line - around - 1)
  · have within : line - around - 1 + i < source.length := by omega
    rw [List.getElem?_range' shown, if_pos (by omega), List.getElem?_eq_getElem within]
    simp [within, Nat.add_right_comm]
  · have none : (List.range' (line - around - 1 + 1)
        (min source.length (line + around) - (line - around - 1)))[i]? = none := by
      simp only [List.getElem?_eq_none_iff, List.length_range']
      omega
    rw [none]
    by_cases inside : i < line + around - (line - around - 1)
    · rw [if_pos inside, List.getElem?_eq_none (by omega)]
      rfl
    · rw [if_neg inside]
      rfl

/-- The lines up to a line, and those behind it. -/
theorem range'_around {first last : Nat} (before : first ≤ line) (after : line ≤ last) :
    List.range' first (last + 1 - first) =
      List.range' first (line + 1 - first) ++ List.range' (line + 1) (last - line) := by
  have upto : line + 1 = first + (line + 1 - first) := by omega
  have count : last + 1 - first = (line + 1 - first) + (last - line) := by omega
  rw [count, ← List.range'_append_1, ← upto]

theorem range'_upto {first : Nat} (before : first ≤ line) :
    List.range' first (line + 1 - first) = List.range' first (line - first) ++ [line] := by
  have count : line + 1 - first = line - first + 1 := by omega
  have last : first + (line - first) = line := by omega
  rw [count, List.range'_1_concat, last]

/-- Only the line in question is followed by a caret line. -/
theorem shownLine_eq (given : 1 ≤ column) (n : Nat) (text : List Char) :
    shownLine line column n text =
      (lineLabel n ++ text) :: if n = line then [caretLine column] else [] := by
  have some : column ≠ 0 := by omega
  simp [shownLine, some]

/-- Lines other than the one in question are shown alone. -/
theorem flatMap_shownLine (given : 1 ≤ column) {ns : List Nat} (others : ∀ n ∈ ns, n ≠ line) :
    ns.flatMap (fun n => shownLine line column n ((source[n - 1]?).getD [])) =
      ns.map (numbered source) := by
  induction ns with
  | nil => rfl
  | cons n ns ih =>
    obtain ⟨first, rest⟩ := List.forall_mem_cons.mp others
    rw [List.flatMap_cons, shownLine_eq given, if_neg first, ih rest]
    rfl

theorem contextRows_eq {text : List Char} (given : 1 ≤ column) (inside : 1 ≤ line)
    (within : line ≤ (lines text).length) :
    contextRows text line column around = framed (lines text) line column around := by
  have valid : ¬ (line = 0 || (lines text).length < line) = true := by
    simp only [Bool.or_eq_true, decide_eq_true_eq]
    omega
  have first : line - around - 1 + 1 = max 1 (line - around) := by omega
  have count : min (lines text).length (line + around) - (line - around - 1) =
      min (lines text).length (line + around) + 1 - max 1 (line - around) := by omega
  have before : ∀ n ∈ List.range' (max 1 (line - around)) (line - max 1 (line - around)),
      n ≠ line := by
    intro n hn
    rw [List.mem_range'_1] at hn
    omega
  have after : ∀ n ∈ List.range' (line + 1) (min (lines text).length (line + around) - line),
      n ≠ line := by
    intro n hn
    rw [List.mem_range'_1] at hn
    omega
  have own : List.flatMap (fun n => shownLine line column n (((lines text)[n - 1]?).getD [])) [line] =
      [numbered (lines text) line, caretLine column] := by
    simp [shownLine_eq given, numbered]
  rw [contextRows, if_neg valid, window_eq, first, count, List.flatMap_map,
    @range'_around line _ _ (by omega) (by omega), range'_upto (by omega), List.flatMap_append,
    List.flatMap_append, flatMap_shownLine given before, flatMap_shownLine given after, own, framed,
    range'_upto (by omega), List.map_append, List.append_assoc, List.append_assoc]
  rfl

/-! ## The offset of the caret -/

theorem length_lineLabel (n : Nat) :
    (lineLabel n).length = max 4 (Nat.toDigits 10 n).length + 2 := by
  simp only [lineLabel, List.length_append, List.length_replicate, List.length_cons,
    List.length_nil]
  omega

/-- The width of a line's number goes beyond the field of four from line 10000 on. -/
theorem length_toDigits_le_four (n : Nat) : (Nat.toDigits 10 n).length ≤ 4 ↔ n < 10000 :=
  Nat.length_toDigits_le_iff (by decide) (by decide)

theorem caretLine_caret (column o : Nat) :
    (caretLine column)[o]? = some '^' ↔ o = 5 + column := by
  have word (i : Nat) : "^ Error here".toList[i]? = some '^' ↔ i = 0 := by
    constructor
    · intro found
      cases i with
      | zero => rfl
      | succ i =>
        have later : '^' ∈ " Error here".toList := List.mem_of_getElem? found
        exact absurd later (by decide)
    · rintro rfl
      rfl
  rw [caretLine, List.getElem?_append, List.length_replicate]
  by_cases before : o < 5 + column
  · rw [if_pos before, List.getElem?_replicate, if_pos before]
    simp
    omega
  · rw [if_neg before, word]
    omega

/-- Behind its number a line starts with its own characters. -/
theorem drop_numbered (source : List (List Char)) (n k : Nat) :
    (numbered source n).drop ((lineLabel n).length + k) = ((source[n - 1]?).getD []).drop k := by
  rw [numbered, List.drop_append, List.drop_of_length_le (Nat.le_add_right _ _), List.nil_append,
    Nat.add_sub_cancel_left]

/-- Where the character in a column of a line is printed. -/
def offset (line column : Nat) : Nat := (lineLabel line).length + (column - 1)

/-! ## Rows -/

theorem not_mem_lineLabel (n : Nat) : '\n' ∉ lineLabel n := by
  intro member
  rcases List.mem_append.mp member with member | member
  · rcases List.mem_append.mp member with pad | digit
    · exact absurd (List.eq_of_mem_replicate pad) (by decide)
    · exact absurd (Nat.isDigit_of_mem_toDigits (by decide) (by decide) digit) (by decide)
  · exact absurd member (by decide)

theorem single_numbered (text : List Char) (n : Nat) : '\n' ∉ numbered (lines text) n := by
  intro member
  rcases List.mem_append.mp member with label | member
  · exact not_mem_lineLabel n label
  · cases found : (lines text)[n - 1]? with
    | none => simp [found] at member
    | some row =>
      rw [found, Option.getD_some] at member
      exact not_mem_of_mem_lines (List.mem_of_getElem? found) member

theorem single_framed (text : List Char) (line column around : Nat) :
    ∀ row ∈ framed (lines text) line column around, '\n' ∉ row := by
  intro row member
  rcases List.mem_append.mp member with member | member
  · obtain ⟨n, -, rfl⟩ := List.mem_map.mp member
    exact single_numbered text n
  rcases List.mem_cons.mp member with rfl | member
  · intro member
    rcases List.mem_append.mp member with pad | word
    · exact absurd (List.eq_of_mem_replicate pad) (by decide)
    · exact absurd word (by decide)
  · obtain ⟨n, -, rfl⟩ := List.mem_map.mp member
    exact single_numbered text n

theorem context_eq_empty (text : List Char) {line : Int} (column around : Nat)
    (outside : line < 1 ∨ (lines text).length < line) :
    context text line.toNat column around = "" := by
  have nothing : (line.toNat = 0 || (lines text).length < line.toNat) = true := by
    simp only [Bool.or_eq_true, decide_eq_true_eq]
    omega
  rw [context, contextRows, if_pos nothing]
  rfl

/-- A line that is not in the text has no excerpt. Of one that is, the excerpt is the window around it,
cut at both ends of the text, each line behind its number, with the caret line behind the line
itself. As many places as the line's number has digits beyond four the caret stands to the left of the
character in its column, so up to line 9999 it stands under it and from there on it does not. -/
theorem context_caret (text : List Char) (column around : Nat) (given : 1 ≤ column) :
    (∀ line : Int, line < 1 ∨ (lines text).length < line →
      context text line.toNat column around = "") ∧
    ∀ line, 1 ≤ line → line ≤ (lines text).length →
      lines (context text line column around).toList = framed (lines text) line column around ∧
      (numbered (lines text) line).drop (offset line column) =
        (((lines text)[line - 1]?).getD []).drop (column - 1) ∧
      (∀ o, (caretLine column)[o]? = some '^' ↔
        o + ((Nat.toDigits 10 line).length - 4) = offset line column) ∧
      ((caretLine column)[offset line column]? = some '^' ↔ line < 10000) := by
  refine ⟨fun line outside => context_eq_empty text column around outside, ?_⟩
  intro line inside within
  have rows : contextRows text line column around = framed (lines text) line column around :=
    contextRows_eq given inside within
  have place (o : Nat) : (caretLine column)[o]? = some '^' ↔
      o + ((Nat.toDigits 10 line).length - 4) = offset line column := by
    rw [caretLine_caret, offset, length_lineLabel]
    omega
  refine ⟨?_, drop_numbered _ _ _, place, ?_⟩
  · have nonempty : framed (lines text) line column around ≠ [] := by simp [framed]
    rw [context, rows, String.toList_intercalate, List.map_map]
    simpa [Function.comp_def] using lines_intercalate (single_framed text line column around) nonempty
  · rw [place, ← length_toDigits_le_four]
    omega

/-- Line 10000 of a text with nothing but an `x` on it: the caret stands under the blank before. -/
theorem context_caret_longNumber :
    let text := List.replicate 9999 '\n' ++ ['x']
    (lines text).length = 10000 ∧
      lines (context text 10000 1 0).toList = ["10000: x".toList, "      ^ Error here".toList] ∧
      offset 10000 1 = 7 ∧ (caretLine 1)[6]? = some '^' ∧
      (caretLine 1)[offset 10000 1]? ≠ some '^' := by
  intro text
  have source : lines text = List.replicate 9999 [] ++ [['x']] := lines_replicate 9999 ['x']
  have length : (lines text).length = 10000 := by
    rw [source, List.length_append, List.length_replicate, List.length_singleton]
  have last : ((lines text)[10000 - 1]?).getD [] = ['x'] := by
    have behind : (List.replicate 9999 ([] : List Char)).length ≤ 10000 - 1 :=
      Nat.le_of_eq List.length_replicate
    rw [source, List.getElem?_append_right behind, List.length_replicate]
    rfl
  have row : numbered (lines text) 10000 = "10000: x".toList := by
    rw [numbered, last]
    decide
  have excerpt : framed (lines text) 10000 1 0 =
      ["10000: x".toList, "      ^ Error here".toList] := by
    rw [framed, length, ← row]
    rfl
  obtain ⟨-, shown⟩ := context_caret text 1 0 (by decide)
  obtain ⟨rows, -, caret, aligned⟩ := shown 10000 (by decide) (Nat.le_of_eq length.symm)
  exact ⟨length, rows.trans excerpt, by decide, (caret 6).mpr (by decide),
    fun under => absurd (aligned.mp under) (by decide)⟩

end MiniLua.Excerpt

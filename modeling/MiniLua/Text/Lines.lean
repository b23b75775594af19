/-! # Lines

A text is cut at its line feeds: `n` line feeds make `n + 1` lines. Texts read from a file have the
other line ends turned into line feeds first. -/

namespace MiniLua.Text

/-- The lines of a text, without their line feeds. -/
def lines : List Char → List (List Char)
  | [] => [[]]
  | c :: cs =>
    if c = '\n' then [] :: lines cs
    else match lines cs with
      | [] => [[c]]
      | line :: rest => (c :: line) :: rest

theorem lines_ne_nil (cs : List Char) : lines cs ≠ [] := by
  cases cs with
  | nil => simp [lines]
  | cons c cs =>
    rw [lines]
    split
    · simp
    · split <;> simp

theorem length_lines (cs : List Char) : (lines cs).length = cs.count '\n' + 1 := by
  induction cs with
  | nil => rfl
  | cons c cs ih =>
    rw [lines]
    split
    · next h => simp [h, ih]
    · next h =>
      split
      · next he => exact absurd he (lines_ne_nil cs)
      · next he =>
        rw [he] at ih
        simpa [List.count_cons, h] using ih

/-- The text up to its first line feed. -/
def firstLine (cs : List Char) : List Char := cs.takeWhile (· ≠ '\n')

/-- A carriage return before a line feed is dropped. -/
def joinCrLf : List Char → List Char
  | '\r' :: '\n' :: cs => '\n' :: joinCrLf cs
  | c :: cs => c :: joinCrLf cs
  | [] => []

/-- Every line end (`\r\n`, `\r` or `\n`) becomes one line feed. -/
def universalNewlines (cs : List Char) : List Char :=
  (joinCrLf cs).map fun c => if c = '\r' then '\n' else c

end MiniLua.Text

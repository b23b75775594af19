/-! # Places in a text

A cursor is what is left to read, with the line and column of the place and the character just
before it. -/

namespace MiniLua

structure Cursor where
  rest : List Char
  line : Nat
  column : Nat
  previous : Option Char

namespace Cursor

def ofChars (cs : List Char) : Cursor := ⟨cs, 1, 1, none⟩

/-- Over one character; a line feed starts a new line. -/
def next (c : Cursor) : Cursor :=
  match c.rest with
  | [] => c
  | '\n' :: rest => ⟨rest, c.line + 1, 1, some '\n'⟩
  | ch :: rest => ⟨rest, c.line, c.column + 1, some ch⟩

def advance : Nat → Cursor → Cursor
  | 0, c => c
  | n + 1, c => advance n c.next

/-- Over every leading character that passes the test. -/
def skipWhile (p : Char → Bool) (c : Cursor) : Cursor :=
  c.advance (c.rest.takeWhile p).length

theorem rest_next (c : Cursor) : c.next.rest = c.rest.tail := by
  unfold next
  split <;> simp_all

theorem rest_advance (n : Nat) (c : Cursor) : (c.advance n).rest = c.rest.drop n := by
  induction n generalizing c with
  | zero => rfl
  | succ n ih => rw [advance, ih, rest_next, List.drop_tail]

/-- The line of a place counts the line feeds passed on the way to it. -/
theorem line_advance (n : Nat) (c : Cursor) :
    (c.advance n).line = c.line + (c.rest.take n).count '\n' := by
  induction n generalizing c with
  | zero => simp [advance]
  | succ n ih =>
    rw [advance, ih, rest_next]
    unfold next
    split
    · next h => simp [h]
    · next h => simp [h]; omega
    · next ch rest hne h =>
      have hch : ¬ ch = '\n' := hne
      simp [h, hch]

end Cursor

end MiniLua

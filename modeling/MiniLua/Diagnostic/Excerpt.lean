import MiniLua.Text.Blank
import MiniLua.Text.Lines

/-! # What a diagnostic shows of the source

The lines around a place, a caret under its column, the word that stands there, and hints for
spellings that come from other languages. Lines and columns count from 1. -/

namespace MiniLua.Excerpt

open MiniLua.Text

/-- A number in a field of four characters, then a colon and a space. -/
def lineLabel (n : Nat) : List Char :=
  let digits := Nat.toDigits 10 n
  List.replicate (4 - digits.length) ' ' ++ digits ++ [':', ' ']

/-- The line under a source line, its caret below the given column. -/
def caretLine (column : Nat) : List Char :=
  List.replicate (5 + column) ' ' ++ "^ Error here".toList

/-- One source line, and the caret line if a column is given and this is the line in question. -/
def shownLine (line column n : Nat) (source : List Char) : List (List Char) :=
  (lineLabel n ++ source) :: if n = line && column ≠ 0 then [caretLine column] else []

/-- The lines at most `around` away from a line, numbered. -/
def window (lines : List (List Char)) (line around : Nat) : List (Nat × List Char) :=
  let first := line - around - 1
  ((lines.drop first).take (line + around - first)).zipIdx.map fun (source, k) =>
    (first + k + 1, source)

def contextRows (text : List Char) (line column around : Nat) : List (List Char) :=
  let lines := lines text
  if line = 0 || lines.length < line then []
  else (window lines line around).flatMap fun (n, source) => shownLine line column n source

/-- The rows of the excerpt; no column is given as zero. -/
def context (text : List Char) (line column around : Nat) : String :=
  "\n".intercalate ((contextRows text line column around).map String.ofList)

/-- The word at a place, at most twelve characters of it, or what is there instead. -/
def found (text : List Char) (line column : Nat) : String :=
  let lines := lines text
  if line = 0 then "end of input"
  else
    match lines[line - 1]? with
    | none => "end of input"
    | some source =>
      match (source.drop (column - 1)).takeWhile fun c => !isBlank c with
      | [] => "end of line"
      | word => "'" ++ String.ofList (word.take 12) ++ "'"

/-- Whether one text occurs in another. -/
def occursIn (part : List Char) : List Char → Bool
  | [] => part.isEmpty
  | c :: cs => part.isPrefixOf (c :: cs) || occursIn part cs

def mentions (text part : String) : Bool := occursIn part.toList text.toList

/-- Hints for what was found where the given message was raised. -/
def hints (message found : String) : List String :=
  (if mentions found "!=" then ["Lua spells 'not equal' as '~='"] else [])
    ++ (if mentions found "+=" || mentions found "-=" || mentions found "++" then
      ["Compound assignment does not exist; write 'x = x + 1'"] else [])
    ++ (if mentions found "&&" || mentions found "||" then
      ["Use the keywords 'and' / 'or' for boolean logic"] else [])
    ++ (if "'\x7d".toList.isPrefixOf found.toList && mentions message "end" then
      ["Blocks are closed with 'end', not braces"] else [])

end MiniLua.Excerpt

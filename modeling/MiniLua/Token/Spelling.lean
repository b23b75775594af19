import MiniLua.Number.Numeral
import MiniLua.Text.Lines
import MiniLua.Text.Word
import MiniLua.Token.Basic

/-! # How tokens are spelled

The scanners for strings, long brackets, comments, names and symbols. They work on the characters at
hand and are shared by the tokenizer and the grammar. -/

namespace MiniLua.Spelling

open MiniLua.Text

/-- The level of a long bracket that opens here: the number of `=` between its two `[`. -/
def bracketLevel? : List Char → Option Nat
  | '[' :: cs =>
    match cs.dropWhile (· = '=') with
    | '[' :: _ => some (cs.takeWhile (· = '=')).length
    | _ => none
  | _ => none

def closer (level : Nat) : List Char := ']' :: List.replicate level '=' ++ [']']

/-- The text before the first closing bracket of a level. -/
def longBody? (level : Nat) : List Char → Option (List Char)
  | [] => none
  | c :: cs =>
    if (closer level).isPrefixOf (c :: cs) then some []
    else (longBody? level cs).map (c :: ·)

/-- The body of a long bracket that opens here, with the length of the whole; `none` if it is not
closed. -/
def longBracket? (level : Nat) (cs : List Char) : Option (List Char × Nat) :=
  (longBody? level (cs.drop (level + 2))).map fun body => (body, body.length + 2 * (level + 2))

/-- A line end right after the opening bracket is not part of a long string. -/
def dropFirstNewline : List Char → List Char
  | '\r' :: '\n' :: cs => cs
  | '\n' :: cs => cs
  | cs => cs

/-- The content of a long string literal, brackets included in the argument. -/
def longBracketBody (literal : List Char) : List Char :=
  let width := (bracketLevel? literal).getD 0 + 2
  dropFirstNewline ((literal.drop width).take (literal.length - 2 * width))

/-- The raw text between the quotes of a short string, from after the opening one. A backslash
takes the next character with it; neither may be a line feed. -/
def shortBody? (quote : Char) : List Char → Option (List Char)
  | [] => none
  | [c] => if c = quote then some [] else none
  | c :: d :: cs =>
    if c = quote then some []
    else if c = '\n' then none
    else if c = '\\' then
      if d = '\n' then none else (shortBody? quote cs).map (c :: d :: ·)
    else (shortBody? quote (d :: cs)).map (c :: ·)

/-- The character that an escape letter stands for. -/
def escaped? : Char → Option Char
  | 'n' => some '\n'
  | 't' => some '\t'
  | '\\' => some '\\'
  | '\'' => some '\''
  | '"' => some '"'
  | 'r' => some '\r'
  | 'a' => some '\x07'
  | 'b' => some '\x08'
  | 'f' => some '\x0c'
  | 'v' => some '\x0b'
  | _ => none

/-- Replaces each escape by its character. -/
def decodeEscapes : List Char → Except LexError (List Char)
  | [] => .ok []
  | [c] => if c = '\\' then .error (.invalidEscape none) else .ok [c]
  | c :: d :: cs =>
    if c = '\\' then
      match escaped? d with
      | none => .error (.invalidEscape (some d))
      | some e => (decodeEscapes cs).map (e :: ·)
    else (decodeEscapes (d :: cs)).map (c :: ·)

def opensComment : List Char → Bool
  | '-' :: '-' :: _ => true
  | _ => false

/-- The length of the comment that starts here, where a long bracket after the dashes has to be
closed. -/
def commentLength (cs : List Char) : Except LexError Nat :=
  match bracketLevel? (cs.drop 2) with
  | none => .ok (firstLine cs).length
  | some level =>
    match longBracket? level (cs.drop 2) with
    | none => .error .unfinishedLongComment
    | some (_, length) => .ok (length + 2)

/-- The name at the front of a text; empty if there is none. -/
def nameChars : List Char → List Char
  | [] => []
  | c :: cs => if isNameStart c then c :: cs.takeWhile isNameChar else []

def startsWith (word : String) (cs : List Char) : Bool := word.toList.isPrefixOf cs

/-- The longest symbol at the front of a text. -/
def symbol? (cs : List Char) : Option String := symbols.find? (startsWith · cs)

/-- What an error message shows of the place: the rest of its line, at most twenty characters. -/
def snippet (cs : List Char) : String := String.ofList ((firstLine cs).take 20)

end MiniLua.Spelling

import MiniLua.Text.Cursor
import MiniLua.Token.Spelling

/-! # Parsers on cursors

A parser reads from a place and either succeeds at a later place, fails so that an alternative is
tried, or stops the whole parse. Alternatives restart where they began.

Blanks and comments may stand before every terminal. Where a construct is *reported* depends on how
much of them has been passed: `exact` goes up to the next terminal, `mark` only past comments. -/

namespace MiniLua

open MiniLua.Text MiniLua.Spelling

/-- What ends a parse at once. -/
inductive Stop where
  /-- An expression that is no statement starts here. -/
  | notStatement (place : Cursor)
  | lexical (error : LexError) (line : Nat)
  | crash (c : Crash)

inductive Reply (α : Type) where
  | ok (value : α) (place : Cursor)
  | fail
  | stop (why : Stop)

def Parser (α : Type) : Type := Cursor → Reply α

namespace Parser

variable {α β : Type}

instance : Monad Parser where
  pure a := fun c => .ok a c
  bind p f := fun c =>
    match p c with
    | .ok a c' => f a c'
    | .fail => .fail
    | .stop why => .stop why

def fail : Parser α := fun _ => .fail

def stop (why : Stop) : Parser α := fun _ => .stop why

instance : OrElse (Parser α) where
  orElse p q := fun c =>
    match p c with
    | .fail => q () c
    | reply => reply

/-- The length of a comment at this place. A long bracket that is not closed only comments out its
line. -/
def comment? (cs : List Char) : Option Nat :=
  if opensComment cs then some ((commentLength cs).toOption.getD (firstLine cs).length) else none

def skipBlanks (c : Cursor) : Cursor := c.skipWhile isGrammarBlank

/-- Past at most `fuel` comments and the blanks before each of them, but not past blanks that no
comment follows. -/
def skipCommentsUpTo : Nat → Cursor → Cursor
  | 0, c => c
  | fuel + 1, c =>
    let c' := skipBlanks c
    match comment? c'.rest with
    | none => c
    | some length => skipCommentsUpTo fuel (c'.advance length)

def skipComments (c : Cursor) : Cursor :=
  match comment? (skipBlanks c).rest with
  | none => c
  | some _ => skipCommentsUpTo c.rest.length c

/-- To the next terminal. -/
def skip (c : Cursor) : Cursor := skipBlanks (skipComments c)

/-- The place as it is. -/
def here : Parser Cursor := fun c => .ok c c

/-- The place past comments. -/
def mark : Parser Cursor := fun c =>
  let c' := skipComments c
  .ok c' c'

/-- The place of the next terminal. -/
def exact : Parser Cursor := fun c =>
  let c' := skip c
  .ok c' c'

/-- Tries `p`. Blanks and comments are passed even if there is no `p`. -/
def opt (p : Parser α) : Parser (Option α) := fun c =>
  match p c with
  | .ok a c' => .ok (some a) c'
  | .fail => .ok none (skip c)
  | .stop why => .stop why

/-- At most `fuel` further repetitions, each sought past the comments after the last one. -/
def manyAfter (p : Parser α) : Nat → Parser (List α)
  | 0 => fun c => .ok [] c
  | fuel + 1 => fun c =>
    match p (skipComments c) with
    | .fail => .ok [] c
    | .stop why => .stop why
    | .ok a c' =>
      match manyAfter p fuel c' with
      | .ok as c'' => .ok (a :: as) c''
      | .fail => .fail
      | .stop why => .stop why

/-- As many repetitions as there are; each has to pass a character. -/
def many (p : Parser α) : Parser (List α) := fun c =>
  match p c with
  | .fail => .ok [] c
  | .stop why => .stop why
  | .ok a c' =>
    match manyAfter p c'.rest.length c' with
    | .ok as c'' => .ok (a :: as) c''
    | .fail => .fail
    | .stop why => .stop why

/-! ## Terminals -/

/-- The characters that may not touch a keyword. -/
def touchesWord (c : Char) : Bool := isNameChar c || c = '$'

def keywordHere (word : String) (c : Cursor) : Bool :=
  startsWith word c.rest
    && !(c.previous.any touchesWord)
    && !((c.rest.drop word.length).head?.any touchesWord)

def keyword (word : String) : Parser Unit := fun c =>
  let c' := skip c
  if keywordHere word c' then .ok () (c'.advance word.length) else .fail

def symbol (text : String) : Parser Unit := fun c =>
  let c' := skip c
  if startsWith text c'.rest then .ok () (c'.advance text.length) else .fail

/-- An identifier that is no keyword. -/
def name : Parser String := fun c =>
  let c' := skip c
  if keywords.any (keywordHere · c') then .fail
  else
    match nameChars c'.rest with
    | [] => .fail
    | word => .ok (String.ofList word) (c'.advance word.length)

def number : Parser Float := fun c =>
  let c' := skip c
  match Number.Numeral.scan c'.rest with
  | none => .fail
  | some (numeral, rest) =>
    match numeral.toFloat with
    | .error .tooLarge => .stop (.crash .numeralTooLarge)
    | .ok value => .ok value (c'.advance (c'.rest.length - rest.length))

def shortString : Parser String := fun c =>
  let c' := skip c
  match c'.rest with
  | [] => .fail
  | quote :: cs =>
    if quote = '"' || quote = '\'' then
      match shortBody? quote cs with
      | none => .fail
      | some body =>
        match decodeEscapes body with
        | .error e => .stop (.lexical e c'.line)
        | .ok text => .ok (String.ofList text) (c'.advance (body.length + 2))
    else .fail

def longString : Parser String := fun c =>
  let c' := skip c
  match bracketLevel? c'.rest with
  | none => .fail
  | some level =>
    match longBracket? level c'.rest with
    | none => .fail
    | some (body, length) =>
      .ok (String.ofList (dropFirstNewline body)) (c'.advance length)

def string : Parser String := shortString <|> longString

/-- One or more `p` with commas between. -/
def commaList (p : Parser α) : Parser (List α) := do
  let first ← p
  let rest ← many do
    symbol ","
    p
  return first :: rest

end Parser

end MiniLua

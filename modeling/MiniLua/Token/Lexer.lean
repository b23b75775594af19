import MiniLua.Text.Cursor
import MiniLua.Token.Spelling

/-! # Cutting a text into tokens

At each place the first rule that applies decides: blank, comment, string, number, symbol, name.
Each step passes at least one character, so the text's length bounds the number of steps. -/

namespace MiniLua

open MiniLua.Text MiniLua.Spelling

inductive LexFault where
  | error (e : LexError) (line : Nat)
  | crash (c : Crash)
  deriving DecidableEq

namespace Lexer

/-- Why no token can be read here, before its line is known. -/
inductive Refusal where
  | error (e : LexError)
  | crash (c : Crash)

def Refusal.at (line : Nat) : Refusal → LexFault
  | error e => .error e line
  | crash c => .crash c

def readShortString (quote : Char) (cs : List Char) : Except Refusal (Lexeme × Nat) :=
  match shortBody? quote (cs.drop 1) with
  | none => .error (.error (.unfinishedString (snippet cs)))
  | some body =>
    match decodeEscapes body with
    | .error e => .error (.error e)
    | .ok text => .ok (.string (String.ofList text), body.length + 2)

def readLongString (level : Nat) (cs : List Char) : Except Refusal (Lexeme × Nat) :=
  match longBracket? level cs with
  | none => .error (.error .unfinishedLongString)
  | some (body, length) => .ok (.string (String.ofList (dropFirstNewline body)), length)

/-- A number may not be followed by a letter, digit, underscore or point. -/
def endsNumber : List Char → Bool
  | [] => true
  | c :: _ => !(isWord c || c = '.')

def readNumber (cs : List Char) : Except Refusal (Lexeme × Nat) :=
  match Number.Numeral.scan cs with
  | none => .error (.crash .digitWithoutValue)
  | some (numeral, rest) =>
    if !endsNumber rest then
      let near := cs.takeWhile fun c => isWord c || c = '.'
      .error (.error (.malformedNumber (String.ofList near)))
    else
      match numeral.toFloat with
      | .error .tooLarge => .error (.crash .numeralTooLarge)
      | .ok value => .ok (.number value, cs.length - rest.length)

def startsNumber : List Char → Bool
  | '.' :: c :: _ => isDigit c
  | c :: _ => isDigit c
  | [] => false

def readWord (c : Char) (cs : List Char) : Except Refusal (Lexeme × Nat) :=
  match nameChars cs with
  | [] => .error (.error (.unexpectedSymbol c))
  | word =>
    let text := String.ofList word
    .ok (if keywords.contains text then .keyword text else .name text, word.length)

/-- The token that starts here, and how many characters it covers. -/
def readToken (c : Char) (cs : List Char) : Except Refusal (Lexeme × Nat) :=
  if c = '"' || c = '\'' then readShortString c cs
  else
    match bracketLevel? cs with
    | some level => readLongString level cs
    | none =>
      if startsNumber cs then readNumber cs
      else
        match symbol? cs with
        | some symbol => .ok (.symbol symbol, symbol.length)
        | none => readWord c cs

/-- The tokens from a place on, in at most `fuel` steps. -/
def tokensFrom : Nat → Cursor → Except LexFault (List Token)
  | 0, place => .ok [⟨.endOfText, place.line⟩]
  | fuel + 1, place =>
    match place.rest with
    | [] => .ok [⟨.endOfText, place.line⟩]
    | c :: cs =>
      if isBlank c then tokensFrom fuel place.next
      else if opensComment (c :: cs) then
        match commentLength (c :: cs) with
        | .error e => .error (.error e place.line)
        | .ok length => tokensFrom fuel (place.advance length)
      else
        match readToken c (c :: cs) with
        | .error refusal => .error (refusal.at place.line)
        | .ok (lexeme, length) =>
          (tokensFrom fuel (place.advance length)).map (⟨lexeme, place.line⟩ :: ·)

end Lexer

/-- The tokens of a text, the last one its end. -/
def tokenize (text : List Char) : Except LexFault (List Token) :=
  Lexer.tokensFrom text.length (Cursor.ofChars text)

end MiniLua

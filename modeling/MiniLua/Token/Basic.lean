import MiniLua.Number.Text
import MiniLua.Text.Quoted

/-! # Tokens

The words, symbols and literals of a program, each with the line it starts on, and the errors that
keep a text from being cut into tokens. -/

namespace MiniLua

def keywords : List String :=
  ["and", "break", "do", "else", "elseif", "end", "false", "for", "function", "if", "in", "local",
   "nil", "not", "or", "return", "then", "true", "while"]

/-- Operators and punctuation. A symbol stands before every symbol that it begins with. -/
def symbols : List String :=
  ["..", "==", "~=", "<=", ">=", "//", "+", "-", "*", "/", "%", "^", "#", "<", ">", "=", "(", ")",
   "\x7b", "\x7d", "[", "]", ";", ",", "."]

inductive Lexeme where
  | keyword (word : String)
  | name (word : String)
  | symbol (text : String)
  | number (value : Float)
  | string (text : String)
  | endOfText
  deriving DecidableEq

structure Token where
  lexeme : Lexeme
  line : Nat
  deriving DecidableEq

inductive LexError where
  | unfinishedString (near : String)
  | unfinishedLongString
  | unfinishedLongComment
  | malformedNumber (near : String)
  | unexpectedSymbol (c : Char)
  /-- A backslash before this character, or at the end of a string. -/
  | invalidEscape (c : Option Char)
  deriving DecidableEq

/-- A failure that is not reported as a diagnostic: the run just ends. -/
inductive Crash where
  /-- A hexadecimal numeral above every double. -/
  | numeralTooLarge
  /-- A token that starts with a digit without decimal value. -/
  | digitWithoutValue
  deriving DecidableEq

namespace Lexeme

def kind : Lexeme → String
  | keyword _ => "KEYWORD"
  | name _ => "NAME"
  | symbol _ => "OPERATOR"
  | number _ => "NUMBER"
  | string _ => "STRING"
  | endOfText => "EOF"

/-- The content of a token as a listing shows it; only strings are quoted. -/
def text : Lexeme → String
  | keyword word => word
  | name word => word
  | symbol text => text
  | number value => Number.shortest value
  | string text => Text.quoted text
  | endOfText => "<eof>"

end Lexeme

namespace Token

/-- The token as one line of a token listing. -/
def text (t : Token) : String := s!"{t.line}: {t.lexeme.kind}({t.lexeme.text})"

end Token

namespace LexError

def message : LexError → String
  | unfinishedString near => s!"unfinished string near '{near}'"
  | unfinishedLongString => "unfinished long string"
  | unfinishedLongComment => "unfinished long comment"
  | malformedNumber near => s!"malformed number near '{near}'"
  | unexpectedSymbol c => s!"unexpected symbol near '{c}'"
  | invalidEscape none => "invalid escape sequence '\\'"
  | invalidEscape (some c) => s!"invalid escape sequence '\\{c}'"

end LexError

end MiniLua

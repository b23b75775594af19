import MiniLua.Diagnostic.Basic
import MiniLua.Diagnostic.Excerpt
import MiniLua.Grammar.Statement
import MiniLua.Token.Lexer

/-! # Reading programs and expressions

The tokenizer goes over the whole text first, so lexical errors win over errors of the grammar; the
grammar then reads the characters again and builds the tree. Nesting is bounded by the length of the
text, since each level starts with a terminal of its own. -/

namespace MiniLua

open MiniLua.Text

inductive ParseFault where
  | lexical (error : LexError) (line : Nat)
  /-- A malformed literal that only the grammar meets, inside one token of the tokenizer. -/
  | literal (error : LexError) (line : Nat)
  | crash (c : Crash)
  /-- Text is left over after the longest program or expression. -/
  | leftOver (place : Cursor)
  | notStatement (place : Cursor)
  | noExpression

namespace ParseFault

def ofLex : LexFault → ParseFault
  | .error e line => .lexical e line
  | .crash c => .crash c

def ofStop : Stop → ParseFault
  | .notStatement place => .notStatement place
  | .lexical e line => .literal e line
  | .crash c => .crash c

end ParseFault

namespace Grammar

open MiniLua.Parser

/-- Runs a parser over a whole text, blanks and comments at its end included. -/
def parseAll {α : Type} (p : Parser α) (text : List Char) : Except ParseFault α :=
  match p (Cursor.ofChars text) with
  | .fail => .error .noExpression
  | .stop why => .error (.ofStop why)
  | .ok a c =>
    let last := skip c
    if last.rest.isEmpty then .ok a else .error (.leftOver last)

def parseBlock (text : List Char) : Except ParseFault Block :=
  parseAll (block (text.length + 1)) text

def parseSingle (text : List Char) : Except ParseFault Expr :=
  parseAll (expression (text.length + 1)) text

end Grammar

/-- Line ends of programs are single line feeds. -/
def programText (source : String) : List Char := joinCrLf source.toList

/-- The program that a text spells. -/
def parseProgram (text : List Char) : Except ParseFault Block :=
  match tokenize text with
  | .error fault => .error (.ofLex fault)
  | .ok _ => Grammar.parseBlock text

/-- The expression that a text spells. -/
def parseExpression (text : List Char) : Except ParseFault Expr :=
  match tokenize text with
  | .error fault => .error (.ofLex fault)
  | .ok _ => Grammar.parseSingle text

/-- A diagnostic for a place in a text. -/
def Diagnostic.ofPlace (message : String → String) (text : List Char) (filename : Option String)
    (place : Cursor) : Diagnostic :=
  let found := Excerpt.found text place.line place.column
  let said := message found
  { message := said
    line := place.line
    filename
    column := place.column
    found := some found
    context := some (Excerpt.context text place.line place.column 2)
    hints := Excerpt.hints said found }

namespace ParseFault

/-- The report of a fault of a text; crashes and texts without any expression have none. -/
def diagnostic? (text : List Char) (filename : Option String) : ParseFault → Option Diagnostic
  | lexical e line => some (.plain e.message line filename)
  | literal e line => some (.plain e.message line filename)
  | leftOver place =>
    some (.ofPlace (fun found => s!"syntax error: expected end of text near {found}")
      text filename place)
  | notStatement place =>
    some (.ofPlace (fun _ => s!"syntax error near '{Spelling.snippet place.rest}'")
      text filename place)
  | crash _ => none
  | noExpression => none

/-- The same for a text read as a single expression: a literal that only the grammar meets is
reported without the file. -/
def expressionDiagnostic? (text : List Char) (filename : Option String) (fault : ParseFault) :
    Option Diagnostic :=
  match fault with
  | literal e line => some (.plain e.message line none)
  | _ => fault.diagnostic? text filename

end ParseFault

end MiniLua

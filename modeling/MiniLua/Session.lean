import MiniLua.Eval.Program
import MiniLua.Grammar.Program

/-! # Sessions

A session runs one chunk of program text after another over the same globals. A chunk that fails
leaves what it has stored and printed; the next one has the full call depth again. -/

namespace MiniLua

/-- Why a chunk did not run to its end. -/
inductive Failure where
  | lexical (report : Diagnostic)
  | grammar (report : Diagnostic)
  | runtime (error : RuntimeError) (report : Diagnostic)
  | crash (c : Crash)
  /-- A loop has used up the number of turns it was given. -/
  | exhausted

namespace Failure

def report? : Failure → Option Diagnostic
  | lexical d => some d
  | grammar d => some d
  | runtime _ d => some d
  | crash _ => none
  | exhausted => none

/-- The failure of a text that was read as a whole program. -/
def ofParse (text : List Char) (filename : Option String) (fault : ParseFault) : Failure :=
  match fault with
  | .lexical e line => lexical (.plain e.message line filename)
  | .literal e line => lexical (.plain e.message line filename)
  | .crash c => crash c
  | fault => grammar ((fault.diagnostic? text filename).getD (.plain "" 0 filename))

def ofHalt (filename : Option String) : Halt → Failure
  | .fault error line => runtime error (.plain error.message line filename)
  | .crash c => crash c
  | .exhausted => exhausted

end Failure

/-- What tracing says of the reading of a program. -/
def parseTrace (filename : String) (text : List Char) : List String :=
  match tokenize text with
  | .error _ => []
  | .ok tokens =>
    s!"{filename}: {tokens.length} tokens" ::
      match Grammar.parseBlock text with
      | .error _ => []
      | .ok program => [s!"{filename}: parsed {program.statements.length} top-level statements"]

structure Session where
  machine : Machine
  maxDepth : Nat

namespace Session

def start (tracing : Bool) (maxDepth : Nat) : Session := ⟨.initial tracing, maxDepth⟩

/-- The scope of the global frame. -/
def globalScope : Scope := [0]

/-- The global variables in the order of their first assignment, the builtins first. -/
def globals (s : Session) : Bindings := s.machine.frames.bindings 0

/-- Traces the reading of a program. -/
def traceReading (s : Session) (filename : String) (text : List Char) : Session :=
  if s.machine.tracing then
    let lines := (parseTrace filename text).map fun line => "[debug] " ++ line ++ "\n"
    { s with machine := { s.machine with trace := s.machine.trace ++ String.join lines } }
  else s

/-- The program of a source text. -/
def read (s : Session) (source filename : String) : Except Failure Block × Session :=
  let text := programText source
  let s := s.traceReading filename text
  match parseProgram text with
  | .error fault => (.error (.ofParse text (some filename) fault), s)
  | .ok program => (.ok program, s)

/-- Runs a program. Loops take at most `loopLimit` turns each. -/
def runProgram (s : Session) (loopLimit : Nat) (program : Block) (filename : Option String) :
    Except Failure (List Value) × Session :=
  match Eval.chunk loopLimit s.maxDepth program s.machine with
  | .ok values machine => (.ok values, { s with machine })
  | .error halt machine => (.error (.ofHalt filename halt), { s with machine })

/-- Reads and runs a source text. -/
def run (s : Session) (loopLimit : Nat) (source filename : String) :
    Except Failure (List Value) × Session :=
  match s.read source filename with
  | (.error failure, s) => (.error failure, s)
  | (.ok program, s) => s.runProgram loopLimit program (some filename)

/-- Takes away what has been printed and traced. -/
def drain (s : Session) : (String × String) × Session :=
  ((s.machine.output, s.machine.trace),
    { s with machine := { s.machine with output := "", trace := "" } })

end Session

end MiniLua

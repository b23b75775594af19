import MiniLua.Ast.Outline
import MiniLua.Console.Arguments
import MiniLua.Console.Inspect
import MiniLua.Console.Texts
import MiniLua.Text.Utf8

/-! # Running the program

The whole program as a function: arguments, files and standard input to exit code, standard output
and standard error. The interactive mode is a step function on lines, so that it can be driven by a
terminal as well. -/

namespace MiniLua.Console

open MiniLua.Text

/-- How a run ends. -/
inductive Ending where
  | exit (code : Nat)
  | crash (c : Crash)
  | exhausted
  deriving DecidableEq

/-- What a run has written. -/
structure Written where
  out : String
  err : String

namespace Written

def empty : Written := ⟨"", ""⟩

def append (a b : Written) : Written := ⟨a.out ++ b.out, a.err ++ b.err⟩

instance : Append Written := ⟨append⟩

def ofOut (text : String) : Written := ⟨text, ""⟩

def ofErr (text : String) : Written := ⟨"", text⟩

end Written

/-! ## Files -/

/-- Why a file cannot be read as a program. -/
inductive FileFault where
  | missing
  | undecodable (fault : Utf8Fault)

/-- The text of a file, its line ends made uniform. -/
def decodeFile : Option (List UInt8) → Except FileFault String
  | none => .error .missing
  | some bytes =>
    match decodeUtf8 bytes with
    | .error fault => .error (.undecodable fault)
    | .ok cs => .ok (String.ofList (universalNewlines cs))

namespace FileFault

/-- The report of a file that is to be parsed. -/
def parseReport (path : String) : FileFault → Diagnostic
  | missing => .plain ("cannot open " ++ path) 0 (some path)
  | undecodable fault => .plain ("cannot decode " ++ path ++ ": " ++ fault.message) 0 (some path)

/-- The report of a script; here only the reason is named. -/
def scriptReport (path : String) : FileFault → Diagnostic
  | missing => .plain ("cannot open " ++ path ++ ": No such file or directory") 0 (some path)
  | undecodable fault =>
    .plain ("cannot decode " ++ path ++ ": " ++ fault.reason.message) 0 (some path)

end FileFault

/-! ## Reports -/

/-- Whether an error is reported with the details of a grammar error. -/
def isGrammar : Failure → Bool
  | .grammar _ => true
  | _ => false

/-- The report of a diagnostic; with `debug` the source around it follows. -/
def reportDiagnostic (d : Diagnostic) (detailed : Bool) (filename source : String) (debug : Bool) :
    String :=
  let head := d.reportAs ((Diagnostic.nonempty d.filename).or (some filename)) ++ "\n"
  if !debug then head
  else if detailed then head ++ d.details ++ "\n"
  else if source ≠ "" && d.line ≠ 0 then
    head ++ Excerpt.context source.toList d.line.toNat 0 2 ++ "\n"
  else head

/-- How a failure ends a script, and what it reports. -/
def failed (failure : Failure) (filename source : String) (debug : Bool) : Ending × Written :=
  match failure with
  | .crash c => (.crash c, .empty)
  | .exhausted => (.exhausted, .empty)
  | failure =>
    match failure.report? with
    | none => (.exit 1, .empty)
    | some d =>
      (.exit 1, .ofErr (reportDiagnostic d (isGrammar failure) filename source debug))

/-! ## Scripts -/

/-- What is done with the text of a script. -/
inductive Task where
  | tokens
  | parse
  | run
  deriving DecidableEq

def taskOf (request : Request) : Task :=
  if request.tokens then .tokens else if request.parse then .parse else .run

def showTokens (path source : String) (debug : Bool) : Ending × Written :=
  match tokenize source.toList with
  | .ok tokens => (.exit 0, .ofOut (String.join (tokens.map fun t => t.text ++ "\n")))
  | .error fault =>
    failed (.ofParse source.toList (some path) (.ofLex fault)) path source debug

/-- A session of the command line. -/
def openSession (request : Request) : Session := .start request.debug request.maxDepth.toNat

/-- What a session has printed and traced since the last time, and the session after that. -/
def collect (s : Session) : Written × Session :=
  let ((out, err), s) := s.drain
  (⟨out, err⟩, s)

def showProgram (request : Request) (path source : String) : Ending × Written :=
  let (result, s) := (openSession request).read source path
  let written := (collect s).1
  match result with
  | .ok program => (.exit 0, written ++ .ofOut program.listing)
  | .error failure =>
    let (ending, report) := failed failure path source request.debug
    (ending, written ++ report)

def runScript (loopLimit : Nat) (request : Request) (path source : String) : Ending × Written :=
  let (result, s) := (openSession request).run loopLimit source path
  let written := (collect s).1
  match result with
  | .ok _ => (.exit 0, written)
  | .error failure =>
    let (ending, report) := failed failure path source request.debug
    (ending, written ++ report)

def script (loopLimit : Nat) (request : Request) (path : String) (file : Option (List UInt8)) :
    Ending × Written :=
  match decodeFile file with
  | .error .missing => (.exit 1, .ofErr ("rua: cannot open " ++ path ++ "\n"))
  | .error fault =>
    (.exit 1, .ofErr (reportDiagnostic (fault.scriptReport path) false path "" request.debug))
  | .ok source =>
    match taskOf request with
    | .tokens => showTokens path source request.debug
    | .parse => showProgram request path source
    | .run => runScript loopLimit request path source

/-! ## The interactive mode -/

def prompt : String := "rua> "

def farewell : String := "\nGoodbye!\n"

/-- The name that interactive input is reported under. -/
def inputName : String := "stdin"

def greeting (debug : Bool) : String :=
  banner ++ (if debug then "Debug mode enabled\n" else "") ++ "\n"

/-- What a line does: the session goes on, or it ends. -/
structure Step where
  session : Session
  written : Written
  ending : Option Ending

/-- A failed line is reported and the session goes on; a crash ends it. -/
def stepFailed (s : Session) (written : Written) (failure : Failure) (source : String) : Step :=
  match failed failure inputName source s.machine.tracing with
  | (.exit _, report) => ⟨s, written ++ report, none⟩
  | (ending, report) => ⟨s, written ++ report, some ending⟩

def stepRun (loopLimit : Nat) (s : Session) (code : String) : Step :=
  let (result, s) := s.run loopLimit code inputName
  let (written, s) := collect s
  match result with
  | .ok _ => ⟨s, written, none⟩
  | .error failure => stepFailed s written failure code

def stepParse (s : Session) (code line : String) : Step :=
  let (result, s) := s.read code inputName
  let (written, s) := collect s
  match result with
  | .ok program => ⟨s, written ++ .ofOut program.listing, none⟩
  | .error failure => stepFailed s written failure line

/-- What a line that is no command runs: an expression is printed, anything else runs as it is. -/
def codeOf (line : String) (command : List Char) : Except Failure String :=
  match parseExpression command with
  | .ok _ => .ok ("print(" ++ String.ofList command ++ ")")
  | .error (.lexical e n) => .error (.lexical (.plain e.message n (some inputName)))
  | .error (.literal e n) => .error (.lexical (.plain e.message n none))
  | .error (.crash c) => .error (.crash c)
  | .error _ => .ok line

/-- Handles one line of input. -/
def step (loopLimit : Nat) (s : Session) (line : String) : Step :=
  let command := trim line.toList
  let text := String.ofList command
  if command.isEmpty then ⟨s, .empty, none⟩
  else if text = ":quit" || text = ":q" then ⟨s, .empty, some (.exit 0)⟩
  else if text = ":help" then ⟨s, .ofOut interactiveHelp, none⟩
  else if text = ":env" then ⟨s, .ofOut (Inspect.listing s), none⟩
  else if ":parse ".toList.isPrefixOf command then
    stepParse s (String.ofList (command.drop 7)) line
  else
    match codeOf line command with
    | .error failure => stepFailed s .empty failure line
    | .ok code => stepRun loopLimit s code

/-- A session over the lines of an input that ends. -/
def interact (loopLimit : Nat) (s : Session) (written : Written) :
    List String → Ending × Written
  | [] => (.exit 0, written ++ .ofOut (prompt ++ farewell))
  | line :: lines =>
    let r := step loopLimit s line
    let written := written ++ .ofOut prompt ++ r.written
    match r.ending with
    | some ending => (ending, written)
    | none => interact loopLimit r.session written lines

/-- The lines of an input text; after the last line end there is no further line. -/
def inputLines (text : String) : List String :=
  let all := lines text.toList
  let full := if all.getLast? = some [] then all.dropLast else all
  full.map String.ofList

/-! ## The whole program -/

/-- What a run of the program does. A file is the content of a path that names one. -/
def perform (loopLimit : Nat) (arguments : List String) (file : String → Option (List UInt8))
    (input : String) : Ending × Written :=
  match readArguments arguments with
  | .help => (.exit 0, .ofOut help)
  | .version => (.exit 0, .ofOut (versionText ++ "\n"))
  | .refused message => (.exit 2, .ofErr (usage ++ "rua: error: " ++ message ++ "\n"))
  | .run request =>
    match Diagnostic.nonempty request.script with
    | some path => script loopLimit request path (file path)
    | none =>
      if request.interactive then
        interact loopLimit (openSession request) (.ofOut (greeting request.debug))
          (inputLines input)
      else
        (.exit 1,
          .ofErr (usage ++ "rua: no script given (use -i for interactive mode)\n"))

end MiniLua.Console

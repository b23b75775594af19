import MiniLua.Text.Blank
import MiniLua.Text.Digit
import MiniLua.Text.Quoted
import MiniLua.Number.Numeral

/-! # The command line

Arguments are first told apart into switches, plain arguments and the `--` after which everything is
plain; a long switch may be cut short where that is unambiguous, and short switches may share a
dash. They then take effect from left to right: help and version win over errors further right. -/

namespace MiniLua.Console

open MiniLua.Text

inductive Switch where
  | help
  | interactive
  | tokens
  | parse
  | debug
  | maxDepth
  | version
  deriving DecidableEq

namespace Switch

def names : Switch → List String
  | help => ["-h", "--help"]
  | interactive => ["-i", "--interactive"]
  | tokens => ["--tokens"]
  | parse => ["--parse"]
  | debug => ["--debug"]
  | maxDepth => ["--max-depth"]
  | version => ["--version"]

def all : List Switch := [help, interactive, tokens, parse, debug, maxDepth, version]

end Switch

/-- Every spelling of every switch. -/
def spellings : List (String × Switch) := Switch.all.flatMap fun s => s.names.map fun n => (n, s)

inductive Argument where
  | plain (text : String)
  | dashes
  | switch (s : Switch)
  /-- A switch and the text after its `=`. -/
  | valued (s : Switch) (value : String)
  /-- A switch with a single dash and the letters that follow it. -/
  | cluster (s : Switch) (letters : List Char)
  | unknown (text : String)

/-- What a program run is asked to do. -/
structure Request where
  script : Option String
  interactive : Bool
  tokens : Bool
  parse : Bool
  debug : Bool
  maxDepth : Int

def defaultMaxDepth : Nat := 20000

namespace Request

def initial : Request := ⟨none, false, false, false, false, defaultMaxDepth⟩

end Request

inductive Command where
  | run (request : Request)
  | help
  | version
  | refused (message : String)

/-! ## Telling arguments apart -/

/-- The text before the first `=` and, if there is one, the text after it. -/
def splitAttached (cs : List Char) : List Char × Option String :=
  match cs.dropWhile (· ≠ '=') with
  | [] => (cs, none)
  | _ :: after => (cs.takeWhile (· ≠ '='), some (String.ofList after))

/-- A switch with what is attached to it. -/
def withAttached (s : Switch) : Option String → Argument
  | none => .switch s
  | some value => .valued s value

/-- What an argument may be short for, with the switch spelled out. -/
def candidates (cs : List Char) : List (String × Argument) :=
  match cs with
  | '-' :: '-' :: _ =>
    let (stem, attached) := splitAttached cs
    spellings.filterMap fun (spelling, s) =>
      if stem.isPrefixOf spelling.toList then some (spelling, withAttached s attached) else none
  | _ =>
    spellings.filterMap fun (spelling, s) =>
      if spelling.toList = cs.take 2 then some (spelling, .cluster s (cs.drop 2)) else none

/-- A minus and digits, with or without a point. -/
def looksNegative : List Char → Bool
  | '-' :: cs =>
    match cs.dropWhile isDecimal with
    | [] => !cs.isEmpty
    | '.' :: rest => !rest.isEmpty && rest.all isDecimal
    | _ => false
  | _ => false

/-- What an argument before any `--` is, or why it is refused. -/
def classify (text : String) : Except String Argument :=
  let cs := text.toList
  if cs.head? ≠ some '-' || cs.length = 1 then .ok (.plain text)
  else
    let (stem, attached) := splitAttached cs
    match spellings.lookup (String.ofList stem) with
    | some s => .ok (withAttached s attached)
    | none =>
      match candidates cs with
      | [(_, argument)] => .ok argument
      | [] =>
        if looksNegative cs || cs.contains ' ' then .ok (.plain text) else .ok (.unknown text)
      | several =>
        let could := ", ".intercalate (several.map (·.1))
        .error ("ambiguous option: " ++ text ++ " could match " ++ could)

def classifyAll : List String → Except String (List Argument)
  | [] => .ok []
  | text :: rest =>
    if text = "--" then .ok (.dashes :: rest.map .plain)
    else do
      let first ← classify text
      let others ← classifyAll rest
      return first :: others

/-! ## Taking effect -/

def argumentError (s : Switch) (message : String) : String :=
  "argument " ++ "/".intercalate s.names ++ ": " ++ message

def ignoredValue (s : Switch) (value : String) : String :=
  argumentError s ("ignored explicit argument " ++ quoted value)

/-- The switches that share a dash, and what is left of them from the first letter that is none. -/
def unfold (s : Switch) : List Char → Except String (List Switch × Option String)
  | [] => .ok ([s], none)
  | '-' :: cs => .error (ignoredValue s (String.ofList ('-' :: cs)))
  | '=' :: cs => .error (ignoredValue s (String.ofList cs))
  | c :: cs =>
    match spellings.lookup (String.ofList ['-', c]) with
    | none => .ok ([s], some (String.ofList ('-' :: c :: cs)))
    | some s' => (unfold s' cs).map fun (switches, left) => (s :: switches, left)

/-- Digits, with single underscores between them. -/
def integerDigits? : List Char → Option (List Nat)
  | [] => none
  | [c] => (decimalValue? c).map fun d => [d]
  | c :: '_' :: cs =>
    match decimalValue? c, integerDigits? cs with
    | some d, some ds => some (d :: ds)
    | _, _ => none
  | c :: cs =>
    match decimalValue? c, integerDigits? cs with
    | some d, some ds => some (d :: ds)
    | _, _ => none

/-- A whole number with an optional sign and blanks around it. -/
def parseInteger? (text : String) : Option Int :=
  let (negative, body) := Number.splitSign (trim text.toList)
  (integerDigits? body).map fun ds =>
    let n : Int := Number.ofDigits 10 ds
    if negative then -n else n

/-- The request so far, whether the place of the script is taken, and what nobody asked for. -/
structure Progress where
  request : Request
  scriptTaken : Bool
  extras : List String

namespace Progress

def initial : Progress := ⟨.initial, false, []⟩

def takeScript (p : Progress) (text : String) : Progress :=
  { p with request := { p.request with script := some text }, scriptTaken := true }

def extra (p : Progress) (text : String) : Progress := { p with extras := p.extras ++ [text] }

def setDepth (p : Progress) (text : String) : Except Command Progress :=
  match parseInteger? text with
  | some n => .ok { p with request := { p.request with maxDepth := n } }
  | none =>
    .error (.refused (argumentError .maxDepth ("invalid int value: " ++ quoted text)))

/-- A switch that takes no value. -/
def flag (p : Progress) : Switch → Except Command Progress
  | .help => .error .help
  | .version => .error .version
  | .interactive => .ok { p with request := { p.request with interactive := true } }
  | .tokens => .ok { p with request := { p.request with tokens := true } }
  | .parse => .ok { p with request := { p.request with parse := true } }
  | .debug => .ok { p with request := { p.request with debug := true } }
  | .maxDepth => .ok p

def flags (p : Progress) : List Switch → Except Command Progress
  | [] => .ok p
  | s :: rest => do (← p.flag s).flags rest

def finish (p : Progress) : Command :=
  if !p.extras.isEmpty then
    .refused ("unrecognized arguments: " ++ " ".intercalate p.extras)
  else if p.request.maxDepth < 1 then .refused "--max-depth must be at least 1"
  else .run p.request

end Progress

def follow (p : Progress) : List Argument → Except Command Progress
  | [] => .ok p
  | .unknown text :: rest => follow (p.extra text) rest
  | .plain text :: .dashes :: rest =>
    if p.scriptTaken then follow ((p.extra text).extra "--") rest
    else follow (p.takeScript text) rest
  | .plain text :: rest =>
    if p.scriptTaken then follow (p.extra text) rest else follow (p.takeScript text) rest
  | .dashes :: rest =>
    if p.scriptTaken then follow (p.extra "--") rest
    else
      match rest with
      | .plain text :: rest => follow (p.takeScript text) rest
      | rest => follow { p with scriptTaken := true } rest
  | .switch .maxDepth :: rest =>
    match rest with
    | .plain text :: rest => do follow (← p.setDepth text) rest
    | _ => .error (.refused (argumentError .maxDepth "expected one argument"))
  | .switch s :: rest => do follow (← p.flag s) rest
  | .valued .maxDepth value :: rest => do follow (← p.setDepth value) rest
  | .valued s value :: _ => .error (.refused (ignoredValue s value))
  | .cluster s letters :: rest =>
    match unfold s letters with
    | .error message => .error (.refused message)
    | .ok (switches, left) => do
      let p ← p.flags switches
      follow (left.elim p p.extra) rest

/-- What the arguments of a run ask for. -/
def readArguments (arguments : List String) : Command :=
  match classifyAll arguments with
  | .error message => .refused message
  | .ok arguments =>
    match follow .initial arguments with
    | .error command => command
    | .ok progress => progress.finish

end MiniLua.Console

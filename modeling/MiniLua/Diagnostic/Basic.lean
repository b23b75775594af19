/-! # Diagnostics

What is reported of an error: the message, its place and, for errors of the grammar, what was found
there, the lines around it and hints. -/

namespace MiniLua

structure Diagnostic where
  message : String
  line : Int
  filename : Option String
  column : Nat
  found : Option String
  context : Option String
  hints : List String

namespace Diagnostic

/-- A message at a line, without further details. -/
def plain (message : String) (line : Int) (filename : Option String) : Diagnostic :=
  ⟨message, line, filename, 0, none, none, []⟩

/-- A text that is there and not empty. -/
def nonempty (text : Option String) : Option String := text.filter (· ≠ "")

/-- The one-line report. -/
def report (d : Diagnostic) : String :=
  let filename := (nonempty d.filename).getD "<input>"
  s!"rua: {filename}:{d.line}: {d.message}"

/-- The one-line report under another file name, if one is given. -/
def reportAs (d : Diagnostic) (filename : Option String) : String :=
  { d with filename := filename.or d.filename }.report

/-- The message with its line, if that is known. -/
def brief (d : Diagnostic) : String :=
  if d.line = 0 then d.message else s!"{d.line}: {d.message}"

/-- The report with all its details, one row each. -/
def details (d : Diagnostic) : String :=
  "\n".intercalate
    (d.report :: ((nonempty d.found).map fun found => s!"  Got: {found}").toList
      ++ (nonempty d.context).toList
      ++ match d.hints with
        | [] => []
        | hints => "  Suggestions:" :: hints.map fun hint => s!"    - {hint}")

end Diagnostic

/-- The suffix that names the variable an offending value came from. -/
def describeVariable (kind name : Option String) : String :=
  match Diagnostic.nonempty kind, Diagnostic.nonempty name with
  | some kind, some name => s!" ({kind} '{name}')"
  | _, _ => ""

end MiniLua

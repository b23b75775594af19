import MiniLua.Console.Run

/-! # The command line program

Reads the script or the terminal and writes what the library answers. -/

namespace MiniLua.Console

/-- More turns than a machine can run. -/
def manyTurns : Nat := Nat.pow 2 62

/-- The content of a path, if it names a file. -/
def readFile? (path : String) : IO (Option (List UInt8)) := do
  try
    let bytes ← IO.FS.readBinFile path
    return some bytes.toList
  catch _ => return none

def putWritten (written : Written) : IO Unit := do
  let out ← IO.getStdout
  let err ← IO.getStderr
  out.putStr written.out
  out.flush
  err.putStr written.err
  err.flush

def exitCode : Ending → UInt32
  | .exit code => code.toUInt32
  | .crash _ => 1
  | .exhausted => 1

/-- The interactive mode on a terminal. -/
def converse (request : Request) : IO UInt32 := do
  let input ← IO.getStdin
  putWritten (.ofOut (greeting request.debug))
  let mut session := openSession request
  repeat
    putWritten (.ofOut prompt)
    let line ← input.getLine
    if line.isEmpty then
      putWritten (.ofOut farewell)
      return 0
    let code := if line.endsWith "\n" then (line.dropEnd 1).toString else line
    let result := step manyTurns session code
    putWritten result.written
    session := result.session
    if let some ending := result.ending then return exitCode ending
  return 0

end MiniLua.Console

open MiniLua.Console in
def main (arguments : List String) : IO UInt32 := do
  let script := match readArguments arguments with
    | .run request => MiniLua.Diagnostic.nonempty request.script
    | _ => none
  match readArguments arguments, script with
  | .run request, none =>
    if request.interactive then return ← converse request
  | _, _ => pure ()
  let bytes ← match script with
    | some path => readFile? path
    | none => pure none
  let (ending, written) := perform manyTurns arguments (fun _ => bytes) ""
  putWritten written
  return exitCode ending

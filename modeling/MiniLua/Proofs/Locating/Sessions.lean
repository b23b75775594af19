import MiniLua.Proofs.Locating.Programs
import MiniLua.Proofs.Scoping.Static

/-!
# Every error of a session is located

Functions outlive the chunk that wrote them, so an error may get its line from any chunk of the
session, but its file from the chunk that was run.
-/

namespace MiniLua

variable {given : List Site}

/-- How a followed step ends, without the log. -/
def Followed.plain {α : Type} :
    EStateM.Result Halt (Machine × Log) α → EStateM.Result Halt Machine α
  | .ok a s => .ok a s.1
  | .error e s => .error e s.1

/-! ## What the machine keeps -/

/-- The runtime error that a result reports, and the line it gives. -/
def reported? {α : Type} : Except Failure α → Option (RuntimeError × Int)
  | .error (.runtime error report) => some (error, report.line)
  | _ => none

theorem of_reported? {α : Type} {result : Except Failure α} {error : RuntimeError} {line : Int}
    (h : reported? result = some (error, line)) :
    ∃ report, result = .error (.runtime error report) ∧ report.line = line := by
  unfold reported? at h
  split at h
  next error report =>
    cases h
    exact ⟨report, rfl, rfl⟩
  next => cases h

end MiniLua

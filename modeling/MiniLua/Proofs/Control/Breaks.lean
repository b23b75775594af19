import MiniLua.Proofs.Control.Signals
import MiniLua.Proofs.Locating.Sessions
import MiniLua.Proofs.Regimes.Sessions

/-!
# Where breaks lead

A `break` that is run stands in a turn of a loop, and ends that loop normally, or it has left every
loop of its function, and the run with an error. Programs all of whose functions are enclosed have no
breaks of the second kind.
-/

namespace MiniLua

open Eval

variable {turns : Nat} {m : Machine} {p q r : Moment}

/-! ## Programs without stray breaks -/

/-- The functions of the store have no stray breaks. -/
def Machine.Enclosed (m : Machine) : Prop := ∀ f ∈ m.functions, f.body.enclosed false = true

theorem Machine.Enclosed.function (enclosed : m.Enclosed) (id : Nat) :
    (m.functions.getD id default).body.enclosed false = true := by
  rw [Array.getD_eq_getD_getElem?]
  cases found : m.functions[id]? with
  | none => rfl
  | some f => exact enclosed f (Array.mem_of_getElem? found)

theorem Machine.Enclosed.newFunction (enclosed : m.Enclosed) {f : Closure}
    (inside : f.body.enclosed false = true) :
    Machine.Enclosed { m with functions := m.functions.push f } := by
  intro g member
  obtain old | rfl := Array.mem_push.mp member
  · exact enclosed g old
  · exact inside

/-- No function has a stray break; nothing is said of values. -/
def Regime.enclosed : Regime where
  machine := Machine.Enclosed
  value _ _ := True
  table _ _ := True
  scope _ _ := True
  later _ _ := True
  strict := True
  later_refl _ := trivial
  later_trans _ _ := trivial
  value_later _ _ := trivial
  table_later _ _ := trivial
  scope_later _ _ := trivial
  plain _ := trivial
  expand _ _ _ := trivial
  lookup _ _ _ := trivial
  contents _ _ := trivial
  get _ _ := trivial
  keys _ _ _ := trivial
  closure enclosed _ := ⟨trivial, fun _ => enclosed.function _⟩
  root _ := trivial
  empty _ := trivial
  insert _ _ _ _ := trivial
  same {m m'} enclosed _ _ functions := by
    refine ⟨?_, trivial⟩
    rw [Machine.Enclosed, functions]
    exact enclosed
  pushFrame enclosed _ _ := ⟨⟨enclosed, trivial⟩, trivial⟩
  assign enclosed _ _ _ := ⟨enclosed, trivial⟩
  setKey enclosed _ _ _ _ := ⟨enclosed, trivial⟩
  newTable enclosed _ := ⟨⟨enclosed, trivial⟩, trivial⟩
  newFunction enclosed _ inside := ⟨⟨enclosed.newFunction (inside trivial), trivial⟩, trivial⟩

namespace Session

variable {session : Session} {program : Block}

theorem enclosed_runProgram (enclosed : session.machine.Enclosed)
    (inside : program.enclosed false = true) (filename : Option String) :
    (session.runProgram turns program filename).2.machine.Enclosed ∧
      ∀ report, (session.runProgram turns program filename).1 ≠
        .error (.runtime .breakOutsideLoop report) := by
  obtain ⟨onward, quiet⟩ := abides_runProgram (R := .enclosed) enclosed turns (fun _ => inside)
    filename
  exact ⟨onward.machine, quiet trivial⟩

/-- In a session of programs without stray breaks the store has none. -/
theorem enclosed_session (tracing : Bool) (maxDepth : Nat) (requests : List Request)
    (inside : ∀ program ∈ requests.filterMap Request.program?, program.enclosed false = true) :
    (requests.foldl serve (.start tracing maxDepth)).machine.Enclosed := by
  refine abides_session (R := .enclosed) tracing maxDepth requests nofun ?_
  exact fun program member _ => inside program member

end Session

/-! ## Breaks that are run -/

/-- What is evaluated for a value is no code. -/
theorem Evaluates.not_control {engine : Engine} {s : Scope} {m' : Machine} {x y : Task}
    (part : Evaluates engine s m x m' y) : y.isControl = false := by
  cases part <;> rfl

theorem Task.isControl_of_isTurns {t : Task} (h : t.isTurns = true) : t.isControl = true := by
  cases t with
  | whileTurns => rfl
  | countedTurns => rfl
  | keyedTurns => rfl
  | _ => cases h

theorem Inside.isControl (part : Inside turns p q) : p.task.isControl = true := by
  cases part <;> rfl

theorem Turn.isTurns (part : Turn turns p q) : p.task.isTurns = true := by
  cases part <;> rfl

theorem Turn.not_isTurns (part : Turn turns p q) : q.task.isTurns = false := by
  cases part <;> rfl

theorem Enters.not_isTurns (part : Enters turns p q) : q.task.isTurns = false := by
  cases part
  rfl

/-- What is left of the turns of a loop is inside that loop. -/
theorem Inside.isLoop (part : Inside turns p q) (left : q.task.isTurns = true) :
    p.task.isLoop = true := by
  cases part with
  | whileLoop => rfl
  | numericFor => rfl
  | genericFor => rfl
  | nextWhile => rfl
  | nextCounter => rfl
  | passedOver => rfl
  | nextKey => rfl
  | _ => cases left

/-- The loop whose turns are left has been reached before. -/
theorem Reaches.exists_loop (reaches : Reaches turns p q) (block : p.task.isTurns = false)
    (left : q.task.isTurns = true) :
    ∃ loop x, Reaches turns p loop ∧ loop.task = .stmt x ∧ x.isLoop = true ∧
      Relation.ReflTransGen (Inside turns) loop q := by
  induction reaches with
  | refl => exact nomatch block.symm.trans left
  | @tail u q before begins ih =>
    cases begins with
    | evaluates part =>
      have code := Task.isControl_of_isTurns left
      exact nomatch part.not_control.symm.trans code
    | turn part => exact nomatch part.not_isTurns.symm.trans left
    | enters part => exact nomatch part.not_isTurns.symm.trans left
    | inside part =>
      have loop := part.isLoop left
      obtain ⟨b, s, m, t⟩ := u
      cases t with
      | stmt x => exact ⟨_, x, before, rfl, loop, .single part⟩
      | _ =>
        obtain ⟨outer, x, first, is, loops, inside⟩ := ih loop
        exact ⟨outer, x, first, is, loops, inside.tail part⟩

/-- The second moment is outside of every loop of the function body or chunk that it is in. -/
def Stray (turns : Nat) (p r : Moment) : Prop :=
  ∃ body, (body = p ∨ ∃ q, Reaches turns p q ∧ Enters turns q body) ∧
    Relation.ReflTransGen (Inside turns) body r

/-- Code that is reached is in a turn of a loop or outside of every loop. -/
theorem Reaches.turn_or_stray (reaches : Reaches turns p r) (block : p.task.isTurns = false)
    (code : r.task.isControl = true) :
    (∃ loop x, Reaches turns p loop ∧ loop.task = .stmt x ∧ x.isLoop = true ∧ TurnOf turns loop r) ∨
      Stray turns p r := by
  induction reaches with
  | refl => exact .inr ⟨p, .inl rfl, .refl⟩
  | @tail q r before begins ih =>
    cases begins with
    | evaluates part => exact nomatch part.not_control.symm.trans code
    | turn part =>
      obtain ⟨loop, x, first, is, loops, inside⟩ := Reaches.exists_loop before block part.isTurns
      exact .inl ⟨loop, x, first, is, loops, q, r, inside, part, .refl⟩
    | enters part => exact .inr ⟨r, .inr ⟨q, before, part⟩, .refl⟩
    | inside part =>
      obtain ⟨loop, x, first, is, loops, turn⟩ | ⟨body, entered, inside⟩ := ih part.isControl
      · obtain ⟨u, body, outside, turn, inside⟩ := turn
        exact .inl ⟨loop, x, first, is, loops, u, body, outside, turn, inside.tail part⟩
      · exact .inr ⟨body, entered, inside.tail part⟩

/-! ## Stray breaks -/

theorem Moment.run_break {line : Nat} (is : r.task = .stmt (.breakLoop line)) :
    r.run turns = .ok (.breakLoop line) r.machine := by
  rw [Moment.run, is]
  rfl

/-- The error of a stray `break` leaves everything. -/
theorem Stray.halts_chunk {maxDepth line : Nat} {program : Block}
    (stray : Stray turns (.opening maxDepth m program) r) (is : r.task = .stmt (.breakLoop line)) :
    (chunk turns maxDepth program).Halts m (.fault .breakOutsideLoop line) := by
  obtain ⟨body, entered, inside⟩ := stray
  have left : body.run turns = .ok (.breakLoop line) r.machine :=
    passes inside (Moment.run_break is) (.inl nofun)
  obtain rfl | ⟨q, before, enters⟩ := entered
  · exact halts_chunk_break left
  · exact Eval.halts_chunk (before.halts (enters.halts_break left))

theorem Session.runProgram_of_halts {session : Session} {program : Block} {error : RuntimeError}
    {line : Nat} (halts : (chunk turns session.maxDepth program).Halts session.machine
      (.fault error line)) (filename : Option String) :
    ∃ report, (session.runProgram turns program filename).1 = .error (.runtime error report) ∧
      (line ≠ 0 → report.line = line) := by
  obtain ⟨h, m', failed, become⟩ := halts
  obtain ⟨line', rfl, kept⟩ := become.exists_line
  refine ⟨.plain error.message line' filename, ?_, fun lined => congrArg _ (kept lined)⟩
  rw [runProgram, failed]
  rfl

/-! ## The main result -/

/-- What signals do, where loops take so many turns. -/
structure Disciplined (turns : Nat) : Prop where
  /-- A loop does not end with a `break`. -/
  loops : ∀ (engine : Engine) (s s' : Scope) (m m' : Machine) (x : Stmt) (signal : Signal),
    x.isLoop = true → x.exec engine s m = .ok (signal, s') m' → ∀ line, signal ≠ .breakLoop line
  /-- All code of its function that a `return` is in ends with its values, at the machine that they
  have been evaluated to; no statement and no turn comes next after any of that code. -/
  returns : ∀ (p r : Moment) (values : List Expr) (line : Nat) (vs : List Value) (m' : Machine),
    Within turns p r → r.task = .stmt (.returnValues values line) →
    Expr.evalAll (engine turns r.budget) r.scope values r.machine = .ok vs m' →
    p.run turns = .ok (.returned vs) m' ∧
      ∀ q q', Within turns p q → Within turns q r → ¬ Next turns q q'
  /-- A `break` ends the loop that it is in a turn of, and the statements after the loop are run
  next. -/
  breaks : ∀ (b : Nat) (s : Scope) (m : Machine) (x : Stmt) (r : Moment) (line : Nat),
    x.isLoop = true → r.task = .stmt (.breakLoop line) → TurnOf turns ⟨b, s, m, .stmt x⟩ r →
    x.exec (engine turns b) s m = .ok (.normal, s) r.machine ∧
      ∀ (before : Machine) (rest : List Stmt), m = before.announced x →
        Stmt.execAll (engine turns b) s (x :: rest) before =
          Stmt.execAll (engine turns b) s rest r.machine
  /-- If neither the program nor the store has stray breaks, no `break` leaves every loop, and the
  store still has none. -/
  enclosed : ∀ (session : Session) (program : Block) (filename : Option String),
    session.machine.Enclosed → program.enclosed false = true →
    (session.runProgram turns program filename).2.machine.Enclosed ∧
      ∀ report, (session.runProgram turns program filename).1 ≠
        .error (.runtime .breakOutsideLoop report)
  /-- A `break` that is run is in a turn of a loop that is being run, or it is stray. -/
  placed : ∀ (session : Session) (program : Block) (r : Moment) (line : Nat),
    let opening := Moment.opening session.maxDepth session.machine program
    Reaches turns opening r → r.task = .stmt (.breakLoop line) →
    (∃ loop x, Reaches turns opening loop ∧ loop.task = .stmt x ∧ x.isLoop = true ∧
        TurnOf turns loop r) ∨
      Stray turns opening r
  /-- A stray `break` that is run ends the run with its error, wherever its function is called. -/
  stray : ∀ (session : Session) (program : Block) (filename : Option String) (r : Moment)
    (line : Nat), Stray turns (.opening session.maxDepth session.machine program) r →
    r.task = .stmt (.breakLoop line) →
    ∃ report, (session.runProgram turns program filename).1 =
        .error (.runtime .breakOutsideLoop report) ∧
      (line ≠ 0 → report.line = line)

theorem control_disciplined (turns : Nat) : Disciplined turns where
  loops := by
    rintro engine s s' m m' x signal loop ended line rfl
    obtain ⟨-, t, m₁, left, done⟩ := Stmt.exec_loop loop ended
    exact Task.run_ne_break left done
  returns := by
    intro p r values line vs m' path is done
    have ended : r.run turns = .ok (.returned vs) m' := by
      rw [Moment.run, is, Task.run, Stmt.exec]
      exact map_eq_ok.mpr ⟨(.returned vs, r.scope), map_eq_ok.mpr ⟨vs, done, rfl⟩, rfl⟩
    exact ⟨path.returns ended, fun q q' _ inner => inner.last ended⟩
  breaks := by
    intro b s m x r line loop is turn
    obtain ⟨⟨_, s'⟩, done, rfl⟩ := map_eq_ok.mp (turn.breaks loop (Moment.run_break is))
    obtain ⟨rfl, -⟩ := Stmt.exec_loop loop done
    refine ⟨done, ?_⟩
    rintro before rest rfl
    exact Stmt.execAll_of_normal done rest
  enclosed session program filename enclosed inside :=
    Session.enclosed_runProgram enclosed inside filename
  placed := by
    intro session program r line opening reaches is
    exact reaches.turn_or_stray rfl (by rw [is]; rfl)
  stray session program filename r line stray is :=
    Session.runProgram_of_halts (stray.halts_chunk is) filename

/-- A function with a stray `break` that is called in a loop ends the run. -/
theorem control_disciplined_calledInLoop :
    let machine : Machine :=
      { Machine.initial false with
        frames := #[[("f", .ref (.function 0))]]
        functions := #[⟨"f", [], .mk [.breakLoop 2] 1, [0]⟩] }
    let program : Block :=
      .mk [.whileLoop (.bool true 4) (.mk [.call (.mk (.name "f" 5) [] 5) 5] 4) 4] 4
    ∃ report, (Session.runProgram ⟨machine, 1⟩ 1 program none).1 =
      .error (.runtime .breakOutsideLoop report) ∧ report.line = 2 := by
  intro machine program
  let opening : Moment := .opening 1 machine program
  have turn : Reaches 1 opening _ :=
    .tail (.tail (.tail (.single (.inside .statements)) (.inside .first)) (.inside .whileLoop))
      (.turn (.whileLoop rfl))
  have call : Reaches 1 opening _ :=
    .tail (.tail (.tail turn (.inside .statements)) (.inside .first)) (.evaluates .callStmt)
  have stray : Stray 1 opening _ :=
    ⟨_, .inr ⟨_, call, .call rfl rfl rfl⟩, .tail (.single .statements) .first⟩
  obtain ⟨report, failed, line⟩ :=
    (control_disciplined 1).stray ⟨machine, 1⟩ program none _ 2 stray rfl
  exact ⟨report, failed, line nofun⟩

/-- A stray `break` in the store can end the run of a program that has none. -/
theorem enclosed_calls_stray :
    let session := [Request.run 0 "function f() break end" "first.lua"].foldl Session.serve
      (.start false 3)
    ∃ program, parseProgram "f()".toList = .ok program ∧ program.enclosed false = true ∧
      ∃ report, (session.runProgram 0 program none).1 =
        .error (.runtime .breakOutsideLoop report) := by
  intro session
  have ended : (parseProgram "f()".toList).toOption.map (fun program =>
      (program.enclosed false, reported? (session.runProgram 0 program none).1)) =
        some (true, some (.breakOutsideLoop, 1)) := by
    decide +kernel
  cases parsed : parseProgram "f()".toList with
  | error fault =>
    rw [parsed] at ended
    cases ended
  | ok program =>
    rw [parsed] at ended
    obtain ⟨inside, failed⟩ := Prod.mk.inj (Option.some.inj ended)
    obtain ⟨report, failed, -⟩ := of_reported? failed
    exact ⟨program, rfl, inside, report, failed⟩

end MiniLua

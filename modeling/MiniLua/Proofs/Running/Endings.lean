import MiniLua.Proofs.Running.Programs
import MiniLua.Proofs.Running.Sequencing
import MiniLua.Proofs.Scoping.Static

/-!
# How runs end

Whatever has been run before, a program ends with values, with an error or at a bound on turns, and
the store holds single values whose texts can be built from the strings of the programs. The one
other end is the conversion of an oversize numeral that can be built from these strings; for strings
that allow one there is a program that ends so.
-/

namespace MiniLua

variable {given : List String}

/-! ## Calls and chunks -/

namespace Eval

theorem stays_resultOf {signal : Signal} (h : signal.Within given) :
    Stays given (resultOf signal) (AllWithin given) := by
  cases signal with
  | normal => exact .pure fun _ member => absurd member List.not_mem_nil
  | returned vs => exact .pure h
  | breakLoop line => exact .throw trivial

theorem stays_callAt (loopLimit budget : Nat) :
    Engine.Stays given ⟨callAt loopLimit budget, loopLimit⟩ := by
  induction budget with
  | zero => exact fun _ _ _ => .fault _
  | succ budget ih =>
    intro id args good
    refine (Stays.closure id).bind fun f known => ?_
    have bound := Bindings.within_ofLists f.params (Value.within_adjust good f.params.length)
    refine (Stays.pushFrame f.scope bound).bind fun scope _ => ?_
    have body : Stays given
        (do
          let depth := (← get).depth
          traceLine fun _ => s!"call {f.name} (depth {depth})"
          f.body.exec ⟨callAt loopLimit budget, loopLimit⟩ scope) (·.Within given) :=
      Stays.get.bind fun _ _ => (Stays.traceLine _).bind fun _ _ =>
        Block.stays ih scope f.body known
    refine (Stays.deeper body).bind fun signal ends => ?_
    refine (stays_resultOf ends).bind fun values fine => ?_
    exact (Stays.traceLine _).bind fun _ _ => .pure fine

theorem stays_chunk (loopLimit maxDepth : Nat) {program : Block}
    (known : ∀ text ∈ program.texts, text ∈ given) :
    Stays given (chunk loopLimit maxDepth program) (AllWithin given) := by
  have reset : Stays given (modify fun m => { m with depth := 0 }) Anything :=
    .modify fun m good => ⟨good.frames, good.tables, good.functions⟩
  refine reset.bind fun _ _ => ?_
  refine (Stays.pushFrame [0] Bindings.within_nil).bind fun scope _ => ?_
  refine (Block.stays (stays_callAt loopLimit maxDepth) scope program known).bind fun signal ends => ?_
  exact stays_resultOf ends

end Eval

/-! ## Sessions -/

/-- Values within the texts, an error of the language, or no end within the bound on turns. A crash
takes an oversize numeral that can be built; nothing is read, so no text is refused. -/
def Contained (given : List String) : Except Failure (List Value) → Prop
  | .ok values => AllWithin given values
  | .error (.runtime _ _) => True
  | .error .exhausted => True
  | .error (.crash c) => c = .numeralTooLarge ∧ ∃ text, Built given text ∧ Oversize text
  | .error (.lexical _) => False
  | .error (.grammar _) => False

namespace Session

variable {s : Session}

theorem stays_runProgram (h : s.machine.Within given) (loopLimit : Nat) {program : Block}
    (known : ∀ text ∈ program.texts, text ∈ given) (filename : Option String) :
    (s.runProgram loopLimit program filename).2.machine.Within given ∧
      Contained given (s.runProgram loopLimit program filename).1 := by
  have ending := Eval.stays_chunk loopLimit s.maxDepth known s.machine h
  unfold runProgram
  split
  next values m result =>
    rw [result] at ending
    exact ending
  next halt m result =>
    rw [result] at ending
    refine ⟨ending.1, ?_⟩
    cases halt with
    | fault error line => trivial
    | crash c => exact ending.2
    | exhausted => trivial

theorem within_serve (h : s.machine.Within given) (request : Request)
    (known : ∀ program ∈ request.program?, ∀ text ∈ program.texts, text ∈ given) :
    (s.serve request).machine.Within given := by
  cases request with
  | drain => exact ⟨h.frames, h.tables, h.functions⟩
  | run loopLimit source filename =>
    have traced (text : List Char) : (s.traceReading filename text).machine.Within given := by
      unfold traceReading
      split
      · exact ⟨h.frames, h.tables, h.functions⟩
      · exact h
    cases parsed : parseProgram (programText source) with
    | error fault =>
      simp only [serve, run, read, parsed]
      exact traced _
    | ok program =>
      simp only [serve, run, read, parsed]
      refine (stays_runProgram (traced _) loopLimit (known program ?_) _).1
      simp [Request.program?, parsed, Except.toOption]

/-- A session holds values within the strings of the programs it has been given. -/
theorem within_session (tracing : Bool) (maxDepth : Nat) (requests : List Request)
    (known : ∀ program ∈ requests.filterMap Request.program?, ∀ text ∈ program.texts, text ∈ given) :
    (requests.foldl serve (.start tracing maxDepth)).machine.Within given := by
  induction requests using List.reverseRecOn with
  | nil => exact Machine.within_initial tracing
  | append_singleton requests request ih =>
    rw [List.foldl_concat]
    rw [List.filterMap_append] at known
    obtain ⟨before, last⟩ := List.forall_mem_append.mp known
    refine within_serve (ih before) request fun program same => last program ?_
    simpa using same

end Session

/-! ## Programs that crash -/

namespace Eval

variable {α β : Type} {x : Eval α} {f : α → Eval β} {m m' : Machine} {a : α}

/-- The step ends with the conversion of an oversize numeral. -/
def Overflows (x : Eval α) (m : Machine) : Prop :=
  ∃ m', x m = .error (.crash .numeralTooLarge) m'

theorem Overflows.bind (h : x.Overflows m) : (x >>= f).Overflows m := by
  obtain ⟨m', crash⟩ := h
  refine ⟨m', ?_⟩
  change EStateM.bind x f m = _
  rw [EStateM.bind, crash]

theorem Overflows.next (h : x m = .ok a m') (rest : (f a).Overflows m') :
    (x >>= f).Overflows m := by
  obtain ⟨m'', crash⟩ := rest
  exact ⟨m'', (bind_of_ok h).trans crash⟩

theorem Overflows.atLine (h : x.Overflows m) (line : Nat) : (Eval.atLine line x).Overflows m := by
  obtain ⟨m', crash⟩ := h
  refine ⟨m', ?_⟩
  rw [Eval.atLine, crash]

end Eval

/-- The value stands for a text in a concatenation. -/
def Value.Spells (v : Value) (text : String) : Prop :=
  ∀ side, concatOperand side v = .ok text

theorem Value.concat_of_spells {v v' : Value} {text text' : String} (h : v.Spells text)
    (h' : v'.Spells text') : binary .concat v v' = .ok (.string (text ++ text')) := by
  unfold binary concat
  rw [h, h']
  rfl

/-- An oversize text is spelled by no number. -/
theorem Value.eq_string_of_spells {v : Value} {text : String} (h : v.Spells text)
    (large : Oversize text) : v = .string text := by
  have spelled := h .left
  cases v with
  | string s =>
    cases spelled
    rfl
  | number x =>
    cases spelled
    exact absurd large (Number.not_oversize_of_unmarked (Number.unmarked_display x))
  | _ => cases spelled

/-- What can be built from strings is the value of an expression with no other strings. -/
theorem Built.exists_expr {text : String} (h : Built given text) :
    ∃ e : Expr, (∀ t ∈ e.texts, t ∈ given) ∧ ∃ v : Value, v.Spells text ∧
      ∀ engine scope m, Eval.single (e.eval engine scope) m = .ok v m := by
  induction h with
  | @given text member =>
    refine ⟨.string text 1, ?_, .string text, fun _ => rfl, fun _ _ _ => rfl⟩
    rw [Expr.texts]
    exact List.forall_mem_singleton.mpr member
  | display x =>
    refine ⟨.number x 1, ?_, .number x, fun _ => rfl, fun _ _ _ => rfl⟩
    rw [Expr.texts]
    nofun
  | @append left right _ _ ih ih' =>
    obtain ⟨e, known, v, spells, runs⟩ := ih
    obtain ⟨e', known', v', spells', runs'⟩ := ih'
    refine ⟨.binary .concat e e' 1, ?_, .string (left ++ right), fun _ => rfl, ?_⟩
    · rw [Expr.texts]
      exact List.forall_mem_append.mpr ⟨known, known'⟩
    · intro engine scope m
      have operated : Eval.binaryOp scope .concat e e' 1 v v' m =
          .ok (.string (left ++ right)) m := by
        simp only [Eval.binaryOp, Eval.operate, Value.concat_of_spells spells spells']
        rfl
      have evaluated : (Expr.binary .concat e e' 1).eval engine scope m =
          .ok (.string (left ++ right)) m := by
        rw [Expr.eval, Eval.bind_of_ok (runs engine scope m),
          Eval.bind_of_ok (runs' engine scope m), operated]
      rw [Eval.single, Eval.bind_of_ok evaluated]
      rfl

/-- The program that negates an expression. -/
def negation (e : Expr) : Block := .mk [.returnValues [.unary .neg e 1] 1] 1

theorem texts_negation (e : Expr) : (negation e).texts = e.texts := by
  simp [negation, Block.texts, Stmt.allTexts, Stmt.texts, Expr.allTexts, Expr.texts]

theorem Eval.overflows_negation {e : Expr} {text : String} (large : Oversize text)
    (runs : ∀ engine scope m, single (e.eval engine scope) m = .ok (.string text) m)
    (loopLimit maxDepth : Nat) (m : Machine) :
    (chunk loopLimit maxDepth (negation e)).Overflows m := by
  have converted (m : Machine) : (toNumber? (.string text)).Overflows m := by
    have read : (Value.string text).toNumber? = .error .tooLarge := large
    refine ⟨m, ?_⟩
    rw [toNumber?, read]
    rfl
  have negated (engine : Engine) (scope : Scope) (m : Machine) :
      ((Expr.unary .neg e 1).eval engine scope).Overflows m := by
    rw [Expr.eval]
    exact .next (runs engine scope m) (converted m).bind
  have body (engine : Engine) (scope : Scope) (m : Machine) :
      ((negation e).exec engine scope).Overflows m := by
    rw [negation, Block.exec, Stmt.execAll]
    refine .next rfl (.bind (.atLine ?_ _))
    rw [Stmt.exec, Expr.evalAll]
    exact (negated engine scope _).bind.bind
  exact .next rfl (.next rfl (body _ _ _).bind)

theorem Built.exists_crash {text : String} (h : Built given text) (large : Oversize text) :
    ∃ program : Block, (∀ t ∈ program.texts, t ∈ given) ∧
      ∀ (s : Session) (loopLimit : Nat) (filename : Option String),
        (s.runProgram loopLimit program filename).1 = .error (.crash .numeralTooLarge) := by
  obtain ⟨e, known, v, spells, runs⟩ := h.exists_expr
  rw [Value.eq_string_of_spells spells large] at runs
  refine ⟨negation e, ?_, fun s loopLimit filename => ?_⟩
  · rw [texts_negation]
    exact known
  · obtain ⟨m', crash⟩ := Eval.overflows_negation large runs loopLimit s.maxDepth s.machine
    rw [Session.runProgram, crash]
    rfl

/-! ## The main result -/

theorem contained_of_texts (tracing : Bool) (maxDepth : Nat) (requests : List Request)
    (loopLimit : Nat) (program : Block) (filename : Option String)
    (known : ∀ p ∈ requests.filterMap Request.program? ++ [program], ∀ t ∈ p.texts, t ∈ given) :
    let run := (requests.foldl Session.serve (.start tracing maxDepth)).runProgram loopLimit
      program filename
    run.2.machine.Within given ∧ Contained given run.1 := by
  obtain ⟨before, last⟩ := List.forall_mem_append.mp known
  exact Session.stays_runProgram (Session.within_session tracing maxDepth requests before) loopLimit
    (List.forall_mem_singleton.mp last) filename

/-- A program ends contained after whatever has been run before it. Where its session leaves room for
a crash, some program with no other strings does crash. -/
theorem runProgram_contained (tracing : Bool) (maxDepth : Nat) (requests : List Request)
    (loopLimit : Nat) (program : Block) (filename : Option String) :
    let session := requests.foldl Session.serve (.start tracing maxDepth)
    let given := (requests.filterMap Request.program? ++ [program]).flatMap Block.texts
    let run := session.runProgram loopLimit program filename
    (run.2.machine.Within given ∧ Contained given run.1) ∧
      ∀ text, Built given text → Oversize text →
        ∃ other : Block, (∀ t ∈ other.texts, t ∈ given) ∧
          (session.runProgram loopLimit other filename).1 = .error (.crash .numeralTooLarge) := by
  intro session given run
  constructor
  · refine contained_of_texts tracing maxDepth requests loopLimit program filename ?_
    exact fun p member t there => List.mem_flatMap.mpr ⟨p, member, there⟩
  · intro text built large
    obtain ⟨other, known, crashes⟩ := built.exists_crash large
    exact ⟨other, known, crashes session loopLimit filename⟩

/-- Without the mark of a hexadecimal numeral in the strings of its session no program crashes. -/
theorem runProgram_ne_crash (tracing : Bool) (maxDepth : Nat) (requests : List Request)
    (loopLimit : Nat) (program : Block) (filename : Option String)
    (plain : ∀ p ∈ requests.filterMap Request.program? ++ [program],
      ∀ t ∈ p.texts, Number.Unmarked t.toList) (c : Crash) :
    ((requests.foldl Session.serve (.start tracing maxDepth)).runProgram loopLimit program
      filename).1 ≠ .error (.crash c) := by
  intro crash
  have ending := (contained_of_texts tracing maxDepth requests loopLimit program filename
    fun p member t there => List.mem_flatMap.mpr ⟨p, member, there⟩).2
  rw [crash] at ending
  obtain ⟨-, text, built, large⟩ := ending
  refine built.not_oversize (fun t member => ?_) large
  obtain ⟨p, inside, there⟩ := List.mem_flatMap.mp member
  exact plain p inside t there

end MiniLua

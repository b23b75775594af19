import MiniLua.Proofs.Limits.Programs
import MiniLua.Session

/-!
# The depth limit only cuts runs short

A run that ends without a stack overflow ends so under every larger limit, in the same machine. One
that overflows has printed the beginning of what it prints under a larger limit. The bound on the
turns of a loop is no part of a run: an end is an end under some bound, and then under every larger
one.
-/

namespace MiniLua

open Eval

variable {loose : Limit → Prop} {turns turns' depth depth' : Nat}

/-! ## Chunks -/

theorem chunk_extends (program : Block) (longer : Loosens loose .turns turns turns')
    (deeper : Loosens loose .depth depth depth') (m : Machine) :
    chunk turns' depth' program m = chunk turns depth program m ∨
      CutOff loose ((chunk turns' depth' program).final m) (chunk turns depth program m) := by
  have body : Extends loose
      (do
        let scope ← pushFrame [0] []
        let signal ← program.exec (engine turns depth) scope
        resultOf signal)
      (do
        let scope ← pushFrame [0] []
        let signal ← program.exec (engine turns' depth') scope
        resultOf signal) := by
    refine (Extends.refl (onward_pushFrame _ _)).bind fun scope => ?_
    refine (Block.extends (extends_engine longer deeper) scope program).bind fun signal => ?_
    exact .aside (aside_resultOf signal)
  exact body.agrees { m with depth := 0 }

theorem output_chunk (turns depth : Nat) (program : Block) (m : Machine) :
    ∃ printed, ((chunk turns depth program).final m).output = m.output ++ printed := by
  have engine : (engine turns depth).Extends (fun _ => False) (engine turns depth) :=
    extends_engine (.inl rfl) (.inl rfl)
  have body : IsOnward (do
      let scope ← pushFrame [0] []
      let signal ← program.exec (Eval.engine turns depth) scope
      resultOf signal) :=
    (onward_pushFrame _ _).bind fun scope => (Block.extends engine scope program).onward.bind
      fun signal => (aside_resultOf signal).isOnward
  exact (body { m with depth := 0 }).output

namespace Session

/-! ## Runs -/

/-- The limit that a run has met. -/
def limit? : Except Failure (List Value) → Option Limit
  | .error (.runtime .stackOverflow _) => some .depth
  | .error .exhausted => some .turns
  | _ => none

theorem limit?_ofHalt (filename : Option String) (e : Halt) :
    limit? (.error (.ofHalt filename e)) = e.limit? := by
  cases e with
  | fault error line => cases error <;> rfl
  | _ => rfl

theorem machine_runProgram (s : Session) (turns : Nat) (program : Block) (filename : Option String) :
    (s.runProgram turns program filename).2.machine =
      (chunk turns s.maxDepth program).final s.machine := by
  unfold runProgram final
  cases chunk turns s.maxDepth program s.machine <;> rfl

theorem maxDepth_runProgram (s : Session) (turns : Nat) (program : Block) (filename : Option String) :
    (s.runProgram turns program filename).2.maxDepth = s.maxDepth := by
  unfold runProgram
  cases chunk turns s.maxDepth program s.machine <;> rfl

/-- Under looser limits a run is the same, or goes on where it had met one of them. -/
theorem runProgram_extends (m : Machine) (program : Block) (filename : Option String)
    (longer : Loosens loose .turns turns turns') (deeper : Loosens loose .depth depth depth') :
    let short := runProgram ⟨m, depth⟩ turns program filename
    let long := runProgram ⟨m, depth'⟩ turns' program filename
    long = (short.1, ⟨short.2.machine, depth'⟩) ∨
      (∃ l ∈ limit? short.1, loose l) ∧ short.2.machine.Onward long.2.machine := by
  intro short long
  have extended := chunk_extends program longer deeper m
  rw [← machine_runProgram ⟨m, depth'⟩ turns' program filename] at extended
  rcases extended with same | cut
  · left
    simp only [short, long, runProgram, same]
    cases chunk turns depth program m <;> rfl
  · right
    cases result : chunk turns depth program m with
    | ok values m' =>
      rw [result] at cut
      exact cut.elim
    | error e m' =>
      rw [result] at cut
      simp only [short, runProgram, result, limit?_ofHalt]
      exact cut

/-- The program ends so under some bound on the turns of its loops. -/
def Ends (s : Session) (program : Block) (filename : Option String)
    (result : Except Failure (List Value)) (s' : Session) : Prop :=
  ∃ turns, s.runProgram turns program filename = (result, s') ∧ result ≠ .error .exhausted

/-- The run has ended with a stack overflow. -/
def Overflowed (result : Except Failure (List Value)) : Prop :=
  ∃ report, result = .error (.runtime .stackOverflow report)

theorem limit?_eq_depth {result : Except Failure (List Value)} :
    limit? result = some .depth ↔ Overflowed result := by
  unfold limit? Overflowed
  split <;> simp_all

theorem limit?_eq_turns {result : Except Failure (List Value)} :
    limit? result = some .turns ↔ result = .error .exhausted := by
  unfold limit?
  split <;> simp_all

section

variable {s s' : Session} {program : Block} {filename : Option String}
  {result : Except Failure (List Value)}

/-- An end under one bound on turns is the end under every larger one. -/
theorem runProgram_of_le (h : s.runProgram turns program filename = (result, s'))
    (ended : result ≠ .error .exhausted) (le : turns ≤ turns') :
    s.runProgram turns' program filename = (result, s') := by
  have looser : Loosens (· = .turns) .turns turns turns' := .inr ⟨rfl, le⟩
  have same : Loosens (· = .turns) .depth s.maxDepth s.maxDepth := .inl rfl
  have kept := maxDepth_runProgram s turns program filename
  have extended := runProgram_extends s.machine program filename looser same
  rw [h] at extended kept
  rcases extended with whole | ⟨⟨l, met, rfl⟩, -⟩
  · exact whole.trans (congrArg (fun d => (result, Session.mk s'.machine d)) kept.symm)
  · exact absurd (limit?_eq_turns.mp met) ended

/-- A program ends in one way only. -/
theorem Ends.unique {result' : Except Failure (List Value)} {s'' : Session}
    (h : s.Ends program filename result s') (h' : s.Ends program filename result' s'') :
    result' = result ∧ s'' = s' := by
  obtain ⟨turns, run, ended⟩ := h
  obtain ⟨turns', run', ended'⟩ := h'
  have first := runProgram_of_le run ended (Nat.le_max_left turns turns')
  have second := runProgram_of_le run' ended' (Nat.le_max_right turns turns')
  exact Prod.mk.inj (second.symm.trans first)

/-- Under a larger depth limit a program ends the same way, or it has overflowed and goes on. -/
theorem Ends.deeper {m m' : Machine} (h : Ends ⟨m, depth⟩ program filename result ⟨m', depth⟩)
    (le : depth ≤ depth') :
    Ends ⟨m, depth'⟩ program filename result ⟨m', depth'⟩ ∨
      Overflowed result ∧ ∀ result' s', Ends ⟨m, depth'⟩ program filename result' s' →
        m'.Onward s'.machine := by
  obtain ⟨turns, run, ended⟩ := h
  have looser : Loosens (· = .depth) .depth depth depth' := .inr ⟨rfl, le⟩
  have same (turns : Nat) : Loosens (· = .depth) .turns turns turns := .inl rfl
  have extended (turns : Nat) := runProgram_extends m program filename (same turns) looser
  have first := extended turns
  rw [run] at first
  rcases first with whole | ⟨⟨l, met, rfl⟩, -⟩
  · exact .inl ⟨turns, whole, ended⟩
  · refine .inr ⟨limit?_eq_depth.mp met, ?_⟩
    rintro result' s' ⟨turns', run', ended'⟩
    -- Both runs under one bound on turns.
    have both := extended (max turns turns')
    rw [runProgram_of_le run ended (Nat.le_max_left _ _),
      runProgram_of_le run' ended' (Nat.le_max_right _ _)] at both
    rcases both with same | ⟨-, onward⟩
    · have machine : s'.machine = m' := congrArg (fun run => run.2.machine) same
      rw [machine]
      exact refl_of Machine.Onward m'
    · exact onward

theorem ends_runProgram (ended : limit? (s.runProgram turns program filename).1 ≠ some .turns) :
    s.Ends program filename (s.runProgram turns program filename).1
      ⟨(s.runProgram turns program filename).2.machine, s.maxDepth⟩ := by
  refine ⟨turns, ?_, fun same => ended (limit?_eq_turns.mpr same)⟩
  rw [← maxDepth_runProgram s turns program filename]

theorem Ends.output (h : s.Ends program filename result s') :
    ∃ printed, s'.machine.output = s.machine.output ++ printed := by
  obtain ⟨turns, run, -⟩ := h
  have printed := output_chunk turns s.maxDepth program s.machine
  rwa [← machine_runProgram s turns program filename, run] at printed

end

/-- The depth limit only cuts runs short. From every machine, a program that ends other than by a
stack overflow ends the same way under every larger limit, with the same values or error, in the
same machine. If it overflows, what it has printed is the beginning of what it prints under the
larger limit, if it ends there. -/
theorem depth_only_cuts (m : Machine) (program : Block) (filename : Option String)
    {depth depth' : Nat} (le : depth ≤ depth') (result : Except Failure (List Value)) (m' : Machine)
    (h : Ends ⟨m, depth⟩ program filename result ⟨m', depth⟩) :
    (¬ Overflowed result → ∀ result' s', Ends ⟨m, depth'⟩ program filename result' s' ↔
      result' = result ∧ s' = ⟨m', depth'⟩) ∧
    (Overflowed result → ∀ result' s', Ends ⟨m, depth'⟩ program filename result' s' →
      ∃ printed more, m'.output = m.output ++ printed ∧
        s'.machine.output = m.output ++ (printed ++ more)) := by
  constructor
  · intro fine result' s'
    rcases h.deeper le with same | ⟨overflowed, -⟩
    · constructor
      · exact same.unique
      · rintro ⟨rfl, rfl⟩
        exact same
    · exact absurd overflowed fine
  · intro _ result' s' h'
    have onward : m'.Onward s'.machine := by
      rcases h.deeper le with same | ⟨-, goes⟩
      · obtain ⟨-, rfl⟩ := same.unique h'
        exact refl_of Machine.Onward m'
      · exact goes result' s' h'
    obtain ⟨printed, first⟩ := h.output
    obtain ⟨more, rest⟩ := onward.output
    exact ⟨printed, more, first, by rw [rest, first, String.append_assoc]⟩

/-- One function that prints and calls another one that prints. -/
def nestedPrints : Block :=
  let print (text : String) : Stmt := .call (.mk (.name "print" 1) [.string text 1] 1) 1
  let call (name : String) : Stmt := .call (.mk (.name name 1) [] 1) 1
  .mk [.localFunction "inner" (.mk [] (.mk [print "b"] 1) none 1) 1,
    .localFunction "outer" (.mk [] (.mk [print "a", call "inner"] 1) none 1) 1, call "outer"] 1

/-- How `nestedPrints` ends under a limit on the depth. -/
@[irreducible] def nestedRun (depth : Nat) : Except Failure (List Value) × Session :=
  runProgram ⟨.initial false, depth⟩ 0 nestedPrints none

theorem ends_nestedRun {depth : Nat} (ended : limit? (nestedRun depth).1 ≠ some .turns) :
    Ends ⟨.initial false, depth⟩ nestedPrints none (nestedRun depth).1
      ⟨(nestedRun depth).2.machine, depth⟩ := by
  unfold nestedRun at ended ⊢
  exact ends_runProgram ended

theorem depth_cuts_nestedPrints :
    (Overflowed (nestedRun 1).1 ∧ ∃ printed more,
      (nestedRun 1).2.machine.output = "" ++ printed ∧
      (nestedRun 2).2.machine.output = "" ++ (printed ++ more)) ∧
    ¬ Overflowed (nestedRun 2).1 ∧
    ∀ result' s', Ends ⟨.initial false, 3⟩ nestedPrints none result' s' ↔
      result' = (nestedRun 2).1 ∧ s' = ⟨(nestedRun 2).2.machine, 3⟩ := by
  have overflowed : limit? (nestedRun 1).1 = some .depth := by decide +kernel
  have fine : limit? (nestedRun 2).1 = none := by decide +kernel
  have short : Ends ⟨.initial false, 1⟩ nestedPrints none (nestedRun 1).1
      ⟨(nestedRun 1).2.machine, 1⟩ := ends_nestedRun (by rw [overflowed]; decide)
  have long : Ends ⟨.initial false, 2⟩ nestedPrints none (nestedRun 2).1
      ⟨(nestedRun 2).2.machine, 2⟩ := ends_nestedRun (by rw [fine]; decide)
  have cut := depth_only_cuts _ nestedPrints none (by decide : 1 ≤ 2) _ _ short
  have whole := depth_only_cuts _ nestedPrints none (by decide : 2 ≤ 3) _ _ long
  have ended : ¬ Overflowed (nestedRun 2).1 := fun overflow => by
    rw [limit?_eq_depth.mpr overflow] at fine
    cases fine
  have cutOff := limit?_eq_depth.mp overflowed
  exact ⟨⟨cutOff, cut.2 cutOff _ ⟨(nestedRun 2).2.machine, 2⟩ long⟩, ended, whole.1 ended⟩

end Session

end MiniLua

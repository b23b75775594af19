import MiniLua.Proofs.Regimes.Programs
import MiniLua.Proofs.Scoping.Static

/-!
# Sessions under a regime

Calls keep the regime, by induction on the depth that is left, and so do chunks and sessions of them.
Under a strict regime no `break` leaves every loop.
-/

namespace MiniLua

variable {R : Regime}

namespace Eval

theorem abides_resultOf {m : Machine} {signal : Signal} (ends : R.Ends false m signal) :
    Abides R m (resultOf signal) R.Values := by
  cases signal with
  | normal => exact .pure fun _ member => absurd member List.not_mem_nil
  | returned vs => exact .pure ends
  | breakLoop line => exact .throw fun strict => absurd (ends strict) Bool.false_ne_true

theorem abides_callAt (loopLimit budget : Nat) :
    Engine.Abides R ⟨callAt loopLimit budget, loopLimit⟩ := by
  induction budget with
  | zero => exact fun _ _ _ _ _ => .fault nofun
  | succ budget ih =>
    intro m id args there fine
    have read : Abides R m (closure id) fun m' f => R.scope m' f.scope ∧
        R.Allows (f.body.enclosed false) := .read _ fun good => R.closure good there
    refine read.bind fun f m₁ next known => ?_
    have fine := Regime.Values.later fine next.later
    have bound := Regime.Values.ofLists f.params (Regime.Values.adjust fine f.params.length)
    refine (Abides.pushFrame known.1 bound).bind fun s m₂ _ inner => ?_
    have body (m' : Machine) (next : R.Onward m₂ m') : Abides R m'
        (do
          let depth := (← get).depth
          traceLine fun _ => s!"call {f.name} (depth {depth})"
          f.body.exec ⟨callAt loopLimit budget, loopLimit⟩ s) (R.Ends false) := by
      have depth : Abides R m' get Unsaid := fun good => ⟨.refl good, trivial⟩
      refine depth.bind fun _ m₃ next' _ => (Abides.traceLine _).bind fun _ m₄ next'' _ => ?_
      have inner := R.scope_later ((next.trans next').trans next'').later inner
      exact Block.abides ih false m₄ s f.body inner known.2
    refine (Abides.deeper body fun _ _ _ next ends => Regime.Ends.later ends next.later).bind
      fun signal m₃ _ ends => ?_
    refine (abides_resultOf ends).bind fun values m₄ _ fine => ?_
    refine (Abides.traceLine _).bind fun _ m₅ next _ => ?_
    exact .pure (Regime.Values.later fine next.later)

theorem abides_chunk (loopLimit maxDepth : Nat) {program : Block}
    (inside : R.Allows (program.enclosed false)) (m : Machine) :
    Abides R m (chunk loopLimit maxDepth program) R.Values := by
  have reset : Abides R m (modify fun m => { m with depth := 0 }) Unsaid :=
    .modify fun good => .same good rfl rfl rfl
  refine reset.bind fun _ m₁ next _ => ?_
  have pushed : Abides R m₁ (pushFrame [0] []) R.scope :=
    fun good => Abides.pushFrame (R.root good) Regime.unbound good
  refine pushed.bind fun s m₂ _ inner => ?_
  refine (Block.abides (abides_callAt loopLimit maxDepth) false m₂ s program inner inside).bind
    fun signal m₃ _ ends => ?_
  exact abides_resultOf ends

end Eval

namespace Session

variable {s : Session}

theorem abides_runProgram (good : R.machine s.machine) (loopLimit : Nat) {program : Block}
    (inside : R.Allows (program.enclosed false)) (filename : Option String) :
    R.Onward s.machine (s.runProgram loopLimit program filename).2.machine ∧
      (R.strict → ∀ report, (s.runProgram loopLimit program filename).1 ≠
        .error (.runtime .breakOutsideLoop report)) := by
  have abides := Eval.abides_chunk loopLimit s.maxDepth inside s.machine
  unfold runProgram
  split
  next values m result =>
    exact ⟨(abides.of_ok good result).1, fun _ _ => nofun⟩
  next halt m result =>
    obtain ⟨onward, admits⟩ := abides.of_error good result
    refine ⟨onward, fun strict report same => ?_⟩
    cases halt with
    | fault error line =>
      have escaped : error = .breakOutsideLoop := (Failure.runtime.inj (Except.error.inj same)).1
      exact admits strict line (by rw [escaped])
    | crash c => cases same
    | exhausted => cases same

theorem abides_serve (good : R.machine s.machine) (request : Request)
    (inside : ∀ program ∈ request.program?, R.Allows (program.enclosed false)) :
    R.Onward s.machine (s.serve request).machine := by
  cases request with
  | drain => exact .same good rfl rfl rfl
  | run loopLimit source filename =>
    have traced (text : List Char) :
        R.Onward s.machine (s.traceReading filename text).machine := by
      unfold traceReading
      split
      · exact .same good rfl rfl rfl
      · exact .refl good
    cases parsed : parseProgram (programText source) with
    | error fault =>
      simp only [serve, run, read, parsed]
      exact traced _
    | ok program =>
      simp only [serve, run, read, parsed]
      have onward := traced (programText source)
      have allowed : R.Allows (program.enclosed false) := inside program <| by
        simp [Request.program?, parsed, Except.toOption]
      exact onward.trans (abides_runProgram onward.machine loopLimit allowed _).1

/-- A regime that a session starts in is kept by every session. -/
theorem abides_session (tracing : Bool) (maxDepth : Nat) (requests : List Request)
    (good : R.machine (.initial tracing))
    (inside : ∀ program ∈ requests.filterMap Request.program?, R.Allows (program.enclosed false)) :
    R.machine (requests.foldl serve (.start tracing maxDepth)).machine := by
  induction requests using List.reverseRecOn with
  | nil => exact good
  | append_singleton requests request ih =>
    rw [List.foldl_concat]
    rw [List.filterMap_append] at inside
    obtain ⟨before, last⟩ := List.forall_mem_append.mp inside
    refine (abides_serve (ih before) request fun program same => last program ?_).machine
    simpa using same

end Session

end MiniLua

import Mathlib.Data.List.Induction
import MiniLua.Proofs.Scoping.Simulation

/-!
# Scoping is static

A watched session is the session, and whenever it sees a name, the scope consists of frames of the
declarations that enclose the name in the text. Which frame the name resolves to, and whether it is
called global, is read off the text.
-/

namespace MiniLua

open Record

/-! ## Calls and chunks -/

theorem callAt_follows (loopLimit budget : Nat) (r : Record) (id : Nat) (args : List Value) :
    Follows r (Eval.callAt loopLimit budget id args) (Watched.callAt loopLimit budget id args) := by
  induction budget generalizing r id args with
  | zero => exact .fault _
  | succ budget ih =>
    intro r₁ m grows consistent
    have engine : EngineFollows ⟨Eval.callAt loopLimit budget, loopLimit⟩
        ⟨Watched.callAt loopLimit budget, loopLimit⟩ := ⟨ih, rfl⟩
    let f := m.functions.getD id default
    let spot := r₁.closures.getD id ⟨0, []⟩
    have body (r' : Record) (frame : FrameId) (grows : r₁.Grows r')
        (known : r'.layer? frame = some ⟨spot, f.params⟩) :
        Follows r' (f.body.exec ⟨Eval.callAt loopLimit budget, loopLimit⟩ (frame :: f.scope))
          (f.body.watch ⟨Watched.callAt loopLimit budget, loopLimit⟩ (spot.part 0)
            (frame :: f.scope)) := by
      by_cases made : id < m.functions.size
      · have origin : id < r₁.closures.length := consistent.functions ▸ made
        obtain ⟨name, line, stands⟩ := consistent.closures id f spot
          (by simp [f, made]) (by simp [spot, origin])
        exact Block.follows engine f.body ((stands.grows grows).inner (i := 0) rfl known)
      · have missing : f = default := by simp [f, made]
        rw [missing]
        exact .done
    have rest : Follows r₁
        (do
          let scope ← Eval.pushFrame f.scope (.ofLists f.params (Value.adjust args f.params.length))
          let signal ← Eval.deeper do
            let depth := (← get).depth
            Eval.traceLine fun _ => s!"call {f.name} (depth {depth})"
            f.body.exec ⟨Eval.callAt loopLimit budget, loopLimit⟩ scope
          let values ← Eval.resultOf signal
          Eval.traceLine fun _ => s!"return from {f.name} with {values.length} value(s)"
          return values)
        (do
          let scope ← Watched.pushFrame ⟨spot, f.params⟩ f.scope
            (.ofLists f.params (Value.adjust args f.params.length))
          let signal ← Watched.deeper do
            let depth := (← Watched.lift get).depth
            Watched.lift (Eval.traceLine fun _ => s!"call {f.name} (depth {depth})")
            f.body.watch ⟨Watched.callAt loopLimit budget, loopLimit⟩ (spot.part 0) scope
          let values ← Watched.lift (Eval.resultOf signal)
          Watched.lift
            (Eval.traceLine fun _ => s!"return from {f.name} with {values.length} value(s)")
          return values) := by
      refine (Tracks.pushFrame (binds_adjust f.params args)).bind fun r₂ scope g₂ made => ?_
      obtain ⟨frame, rfl, known⟩ := made
      refine (Tracks.deeper (?_ : Follows r₂ _ _)).bind fun r₃ signal g₃ _ => ?_
      · refine (Tracks.aside Eval.moves_get).bind fun r₃ now g₃ _ => ?_
        refine (Tracks.aside (Eval.aside_traceLine _)).bind fun r₄ _ g₄ _ => ?_
        exact body r₄ frame ((g₂.trans g₃).trans g₄) ((g₃.trans g₄).layer? known)
      · refine (Tracks.aside (Eval.aside_resultOf signal)).bind fun r₄ values _ _ => ?_
        exact (Tracks.aside (Eval.aside_traceLine _)).map _
    exact rest r₁ m (.refl r₁) consistent

theorem engine_follows (loopLimit maxDepth : Nat) :
    EngineFollows (Eval.engine loopLimit maxDepth) (Watched.engine loopLimit maxDepth) :=
  ⟨callAt_follows loopLimit maxDepth, rfl⟩

/-- A chunk that is run from a consistent record leaves one in which it is the last program. -/
theorem chunk_mirrors (loopLimit maxDepth : Nat) (program : Block) {r : Record} {m : Machine}
    (consistent : r.Consistent m) :
    Mirrors (fun r' m' => r'.programs = r.programs ++ [program] ∧ r'.Consistent m')
      (fun _ _ => True) (Eval.chunk loopLimit maxDepth program m)
      (Watched.chunk loopLimit maxDepth program (m, r)) := by
  let root : Spot := ⟨r.programs.length, []⟩
  let r₁ : Record := { r with programs := r.programs ++ [program] }
  have grown : r.Grows r₁ := ⟨List.prefix_append _ _, List.prefix_rfl, List.prefix_rfl⟩
  have started := consistent.grows grown rfl rfl fun _ seen => .inl seen
  have run : Follows r₁
      (do
        modify fun m => { m with depth := 0 }
        let scope ← Eval.pushFrame [0] []
        let signal ← program.exec (Eval.engine loopLimit maxDepth) scope
        Eval.resultOf signal)
      (do
        Watched.lift (modify fun m => { m with depth := 0 })
        let scope ← Watched.pushFrame ⟨root, []⟩ [0] []
        let signal ← program.watch (Watched.engine loopLimit maxDepth) root scope
        Watched.lift (Eval.resultOf signal)) := by
    have reset : Eval.Keeps (modify fun m => { m with depth := 0 }) :=
      Eval.moves_modify fun _ => ⟨rfl, fun _ _ _ => rfl, rfl⟩
    refine (Tracks.lift reset).bind fun r₂ _ g₂ _ => ?_
    refine (Tracks.pushFrame binds_none).bind fun r₃ scope g₃ made => ?_
    obtain ⟨frame, rfl, known⟩ := made
    have there : r₁.at? root = some ([⟨root, []⟩], .block program) := by
      simp [Record.at?, r₁, root, Block.at?]
    have stands : r₃.Stands root (.block program) [frame, 0] :=
      ⟨_, (g₂.trans g₃).at? there, .frame known .globals⟩
    refine (Block.follows (engine_follows loopLimit maxDepth) program stands).bind
      fun r₄ signal _ _ => ?_
    exact .aside (Eval.aside_resultOf signal)
  exact (run r₁ m (.refl r₁) started).imp fun _ _ fine => ⟨fine.1.chunks, fine.2⟩

/-! ## Sessions -/

/-- What is asked of a session. -/
inductive Request where
  | run (loopLimit : Nat) (source filename : String)
  | drain

namespace Request

/-- The chunk that is run, if the text is a program. -/
def program? : Request → Option Block
  | run _ source _ => (parseProgram (programText source)).toOption
  | drain => none

end Request

def Session.serve (s : Session) : Request → Session
  | .run loopLimit source filename => (s.run loopLimit source filename).2
  | .drain => s.drain.2

def Watched.serve (s : Session × Record) : Request → Session × Record
  | .run loopLimit source filename =>
    match s.1.read source filename with
    | (.error _, session) => (session, s.2)
    | (.ok program, session) =>
      match Watched.chunk loopLimit session.maxDepth program (session.machine, s.2) with
      | .ok _ (machine, record) => ({ session with machine }, record)
      | .error _ (machine, record) => ({ session with machine }, record)
  | .drain => (s.1.drain.2, s.2)

theorem consistent_initial (tracing : Bool) : Record.empty.Consistent (.initial tracing) where
  frames := rfl
  binds := by
    intro id layer known
    cases id <;> cases known
  functions := rfl
  closures := by
    intro id f spot _ origin
    cases origin
  sightings := by
    intro s seen
    cases seen

theorem kept_traceReading (s : Session) (filename : String) (text : List Char) :
    s.machine.Kept (s.traceReading filename text).machine := by
  unfold Session.traceReading
  split <;> exact ⟨rfl, fun _ _ _ => rfl, rfl⟩

/-- Serving a request, watched or not, gives the same session; the record stays consistent. -/
theorem serve_watched (s : Session) (r : Record) (consistent : r.Consistent s.machine)
    (request : Request) :
    (Watched.serve (s, r) request).1 = s.serve request ∧
      (Watched.serve (s, r) request).2.programs = r.programs ++ request.program?.toList ∧
      (Watched.serve (s, r) request).2.Consistent (s.serve request).machine := by
  cases request with
  | drain =>
    exact ⟨rfl, (List.append_nil _).symm, consistent.kept ⟨rfl, fun _ _ _ => rfl, rfl⟩⟩
  | run loopLimit source filename =>
    have read := consistent.kept (kept_traceReading s filename (programText source))
    cases parsed : parseProgram (programText source) with
    | error fault =>
      simp only [Watched.serve, Session.serve, Session.run, Session.read, Request.program?, parsed]
      exact ⟨trivial, (List.append_nil _).symm, read⟩
    | ok program =>
      simp only [Watched.serve, Session.serve, Session.run, Session.read, Session.runProgram,
        Request.program?, parsed]
      have mirrors := chunk_mirrors loopLimit (s.traceReading filename (programText source)).maxDepth
        program read
      generalize Eval.chunk _ _ _ _ = plain at mirrors ⊢
      generalize Watched.chunk _ _ _ _ = watched at mirrors ⊢
      cases mirrors with
      | ok fine _ => exact ⟨rfl, fine⟩
      | error fine => exact ⟨rfl, fine⟩

theorem watched_session (tracing : Bool) (maxDepth : Nat) (requests : List Request) :
    let watched := requests.foldl Watched.serve (.start tracing maxDepth, .empty)
    watched.1 = requests.foldl Session.serve (.start tracing maxDepth) ∧
      watched.2.programs = requests.filterMap Request.program? ∧
      watched.2.Consistent watched.1.machine := by
  induction requests using List.reverseRecOn with
  | nil => exact ⟨rfl, rfl, consistent_initial tracing⟩
  | append_singleton requests request ih =>
    obtain ⟨same, programs, consistent⟩ := ih
    generalize hw : requests.foldl Watched.serve (.start tracing maxDepth, .empty) = before at *
    obtain ⟨s, r⟩ := before
    obtain ⟨same', programs', consistent'⟩ := serve_watched s r consistent request
    simp only [List.foldl_append, hw, List.foldl_cons, List.foldl_nil, List.filterMap_append]
    dsimp only at same programs
    rw [← same, ← programs, same', programs']
    refine ⟨rfl, ?_, consistent'⟩
    cases h : request.program? <;> simp [h]

/-! ## Resolving names -/

/-- The innermost declaration of a name. -/
def innermost? (layers : List Layer) (name : String) : Option Nat :=
  layers.findIdx? (name ∈ ·.names)

section

variable {r : Record} {frames : Frames} {scope : Scope} {layers : List Layer}

theorem resolve?_enclosed (framed : r.Encloses scope layers)
    (binds : ∀ id ∈ scope, r.Binds frames id) (name : String) :
    frames.resolve? scope name =
      match innermost? layers name with
      | some i => scope[i]?
      | none => if (frames.bindings 0).binds name then some 0 else none := by
  induction framed with
  | globals => cases h : (frames.bindings 0).binds name <;> simp [Frames.resolve?, innermost?, h]
  | @frame id layer scope layers known framed ih =>
    have here := binds id List.mem_cons_self layer known name
    have rest := ih fun id inside => binds id (List.mem_cons_of_mem _ inside)
    unfold Frames.resolve? innermost? at rest ⊢
    rw [List.find?_cons, List.findIdx?_cons]
    by_cases declared : name ∈ layer.names
    · simp [here.mpr declared, declared]
    · have unbound : (frames.bindings id).binds name = false := by
        rw [Bool.eq_false_iff]
        exact fun bound => declared (here.mp bound)
      rw [unbound, rest]
      simp only [declared, decide_false]
      cases layers.findIdx? (name ∈ ·.names) <;> simp

theorem frame_enclosed (framed : r.Encloses scope layers) {i : Nat} {layer : Layer}
    (there : layers[i]? = some layer) : ∃ id, scope[i]? = some id ∧ r.layer? id = some layer := by
  induction framed generalizing i with
  | globals => simp at there
  | @frame id _ _ _ known _ ih =>
    cases i with
    | zero =>
      cases there
      exact ⟨id, rfl, known⟩
    | succ i => exact ih there

/-- A name is called global where no declaration of it encloses it. -/
theorem isGlobal_enclosed (framed : r.Encloses scope layers)
    (binds : ∀ id ∈ scope, r.Binds frames id) (name : String) :
    frames.isGlobal scope name = (innermost? layers name).isNone := by
  rw [Frames.isGlobal, resolve?_enclosed framed binds, framed.root]
  cases found : innermost? layers name with
  | none => cases h : (frames.bindings 0).binds name <;> simp
  | some i =>
    have inside := (List.findIdx?_eq_some_iff_getElem.mp found).1
    obtain ⟨id, there, known⟩ := frame_enclosed framed (List.getElem?_eq_getElem inside)
    cases id with
    | zero => cases known
    | succ id => simp [there]

end

/-- Scoping is static. Watching changes nothing of a session, and every name that is seen stands at
its occurrence in the frames of the declarations around it, each of which binds just the names it
declares. So the name resolves to the frame of the innermost declaration of it, or to the global
frame or nowhere, and is called local or global, as the text alone decides. -/
theorem scoping_static (tracing : Bool) (maxDepth : Nat) (requests : List Request) :
    let watched := requests.foldl Watched.serve (.start tracing maxDepth, .empty)
    let r := watched.2
    watched.1 = requests.foldl Session.serve (.start tracing maxDepth) ∧
    r.programs = requests.filterMap Request.program? ∧
    ∀ s ∈ r.sightings, ∃ program layers node,
      r.programs[s.spot.chunk]? = some program ∧
      program.at? s.spot.chunk s.spot.path = some (layers, node) ∧
      node.name? = some s.name ∧
      r.Encloses s.scope layers ∧
      (∀ id ∈ s.scope, r.Binds s.frames id) ∧
      s.frames.resolve? s.scope s.name =
        (match innermost? layers s.name with
        | some i => s.scope[i]?
        | none => if (s.frames.bindings 0).binds s.name then some 0 else none) ∧
      s.frames.isGlobal s.scope s.name = (innermost? layers s.name).isNone := by
  obtain ⟨same, programs, consistent⟩ := watched_session tracing maxDepth requests
  refine ⟨same, programs, fun s seen => ?_⟩
  obtain ⟨⟨node, ⟨layers, there, framed⟩, named⟩, binds⟩ := consistent.sightings s seen
  obtain ⟨program, running, there⟩ := Option.bind_eq_some_iff.mp there
  exact ⟨program, layers, node, running, there, named, framed, binds,
    resolve?_enclosed framed binds s.name, isGlobal_enclosed framed binds s.name⟩

end MiniLua

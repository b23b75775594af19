import MiniLua.Proofs.Journal.Programs

/-!
# Sessions hold single values and one tree of frames

At every moment of a session, whatever has been run and however it has ended: what is stored, passed
or returned is single, only a call gives a list, and every frame leads up to the global one.
-/

namespace MiniLua

variable {given : List String}

theorem Value.Within.isList {v : Value} (h : v.Within given) : v.isList = false := by
  cases v with
  | list vs => exact h.elim
  | _ => rfl

/-- No variable and no table holds a list, and no table has one for a key. -/
structure Machine.Single (m : Machine) : Prop where
  frames : ∀ bs ∈ m.frames, ∀ b ∈ bs, b.2.isList = false
  tables : ∀ t ∈ m.tables, ∀ e ∈ t.items, e.1.isList = false ∧ e.2.isList = false

theorem Machine.Within.single {m : Machine} (h : m.Within given) : m.Single where
  frames := fun bs member b bound => (h.frames bs member b bound).isList
  tables := fun t member e inside =>
    have both := Table.within_items (h.tables t member) e inside
    ⟨both.1.isList, both.2.isList⟩

/-- A list is the value of a call only, what it is made of is single, and so is what is passed on. -/
def Event.Single : Event → Prop
  | .stepped => True
  | .gave e v => (v.isList = true → ∃ c, e = .call c) ∧ ∀ w ∈ v.expand, w.isList = false
  | .narrowed v => v.isList = false
  | .called callee args => callee.isList = false ∧ ∀ v ∈ args, v.isList = false
  | .answered v => ∀ w ∈ v.expand, w.isList = false
  | .ended (.returned vs) => ∀ v ∈ vs, v.isList = false
  | .ended _ => True

theorem Event.Fine.single {event : Event} (h : event.Fine given) : event.Single := by
  cases event with
  | stepped => trivial
  | gave e v =>
    refine ⟨fun list => ?_, fun w member => (h.1 w member).isList⟩
    rcases h.2 with call | within
    · exact call
    · rw [within.isList] at list
      cases list
  | narrowed v => exact h.isList
  | called callee args => exact ⟨h.1.isList, fun v member => (h.2 v member).isList⟩
  | answered v => exact fun w member => (h w member).isList
  | ended signal =>
    cases signal with
    | returned vs => exact fun v member => (h v member).isList
    | _ => trivial

/-- Everything in order: the machine at the end and every moment before. -/
structure Orderly (given : List String) (s : Session × Journal) : Prop where
  sound : s.1.machine.Sound given s.2.parents
  entries : ∀ entry ∈ s.2.entries,
    entry.machine.Sound given entry.parents ∧ entry.event.Fine given

theorem orderly_start (tracing : Bool) (maxDepth : Nat) :
    Orderly given (.start tracing maxDepth, .empty) where
  sound := ⟨Machine.within_initial tracing, Machine.grounded_initial tracing⟩
  entries := nofun

/-- Serving a request, observed or not, gives the same session and leaves everything in order. -/
theorem serve_observed {s : Session} {j : Journal} (orderly : Orderly given (s, j))
    (request : Request)
    (known : ∀ program ∈ request.program?, ∀ text ∈ program.texts, text ∈ given) :
    (Observed.serve (s, j) request).1 = s.serve request ∧
      Orderly given (Observed.serve (s, j) request) := by
  cases request with
  | drain =>
    obtain ⟨⟨within, grounded⟩, entries⟩ := orderly
    exact ⟨rfl, ⟨⟨within.frames, within.tables, within.functions⟩,
      ⟨grounded.size, grounded.frames, grounded.functions⟩⟩, entries⟩
  | run loopLimit source filename =>
    have read : (s.traceReading filename (programText source)).machine.Sound given j.parents := by
      obtain ⟨⟨within, grounded⟩, -⟩ := orderly
      unfold Session.traceReading
      split
      · exact ⟨⟨within.frames, within.tables, within.functions⟩,
          ⟨grounded.size, grounded.frames, grounded.functions⟩⟩
      · exact ⟨within, grounded⟩
    cases parsed : parseProgram (programText source) with
    | error fault =>
      simp only [Observed.serve, Session.serve, Session.run, Session.read, parsed]
      exact ⟨trivial, read, orderly.entries⟩
    | ok program =>
      simp only [Observed.serve, Session.serve, Session.run, Session.read, Session.runProgram, parsed]
      let c : Setting := ⟨True, given,
        (s.traceReading filename (programText source)).maxDepth, [], Nat.zero_le _⟩
      have texts : c.Knows program.texts := fun _ =>
        known program (by simp [Request.program?, parsed, Except.toOption])
      have recorded := chunk_recorded (c := c) loopLimit program (j := j) rfl (fun _ => read) texts
      generalize Eval.chunk _ _ _ _ = plain at recorded ⊢
      generalize Observed.chunk _ _ _ _ = observed at recorded ⊢
      cases recorded with
      | ok later _ _ =>
        refine ⟨rfl, later.sound trivial, ?_⟩
        rw [later.entries]
        exact List.forall_mem_append.mpr
          ⟨fun entry new => (later.good entry new).sound trivial, orderly.entries⟩
      | error later _ =>
        refine ⟨rfl, later.sound trivial, ?_⟩
        rw [later.entries]
        exact List.forall_mem_append.mpr
          ⟨fun entry new => (later.good entry new).sound trivial, orderly.entries⟩

theorem observed_session (tracing : Bool) (maxDepth : Nat) (requests : List Request)
    (known : ∀ program ∈ requests.filterMap Request.program?, ∀ text ∈ program.texts, text ∈ given) :
    let observed := requests.foldl Observed.serve (.start tracing maxDepth, .empty)
    observed.1 = requests.foldl Session.serve (.start tracing maxDepth) ∧ Orderly given observed := by
  induction requests using List.reverseRecOn with
  | nil => exact ⟨rfl, orderly_start tracing maxDepth⟩
  | append_singleton requests request ih =>
    rw [List.filterMap_append] at known
    obtain ⟨before, last⟩ := List.forall_mem_append.mp known
    obtain ⟨same, orderly⟩ := ih before
    simp only [List.foldl_concat]
    rw [← same]
    refine serve_observed orderly request fun program running => last program ?_
    simpa using running

/-- Lists come from calls only and go no further, and all frames are one tree. At every moment of
every session variables, keys and values of tables, arguments and results are single, an expression
gives a list only if it is a call, and every frame, of the store or of a function, leads to the global
frame in finitely many steps. -/
theorem session_single (tracing : Bool) (maxDepth : Nat) (requests : List Request) :
    let observed := requests.foldl Observed.serve (.start tracing maxDepth, .empty)
    observed.1 = requests.foldl Session.serve (.start tracing maxDepth) ∧
      (observed.1.machine.Single ∧ observed.1.machine.Grounded observed.2.parents) ∧
      ∀ entry ∈ observed.2.entries,
        entry.machine.Single ∧ entry.machine.Grounded entry.parents ∧ entry.event.Single := by
  intro observed
  have known : ∀ program ∈ requests.filterMap Request.program?, ∀ text ∈ program.texts,
      text ∈ (requests.filterMap Request.program?).flatMap Block.texts :=
    fun program member text there => List.mem_flatMap.mpr ⟨program, member, there⟩
  obtain ⟨same, orderly⟩ := observed_session tracing maxDepth requests known
  refine ⟨same, ⟨orderly.sound.within.single, orderly.sound.grounded⟩, fun entry member => ?_⟩
  obtain ⟨sound, fine⟩ := orderly.entries entry member
  exact ⟨sound.within.single, sound.grounded, fine.single⟩

end MiniLua

import MiniLua.Proofs.Running.Moving

/-!
# Runs under looser limits

A step extends another one if it does the same, or goes on where the other one has met a limit that
is looser for it. What the shorter step has printed by then is the beginning of what the longer one
prints, since output only grows.
-/

namespace MiniLua

variable {α β : Type}

/-- What a run is given only so much of. -/
inductive Limit where
  | depth
  | turns
  deriving DecidableEq

/-- The limit that an early end has met. -/
def Halt.limit? : Halt → Option Limit
  | .fault .stackOverflow _ => some .depth
  | .exhausted => some .turns
  | _ => none

theorem Halt.limit?_atLine (error : RuntimeError) (line line' : Nat) :
    (Halt.fault error line).limit? = (Halt.fault error line').limit? := by
  cases error <;> rfl

/-- More may have been printed, and as many bodies are running as before. -/
structure Machine.Onward (m m' : Machine) : Prop where
  output : ∃ more, m'.output = m.output ++ more
  depth : m'.depth = m.depth

instance : IsPreorder Machine Machine.Onward where
  refl _ := ⟨⟨"", (String.append_empty).symm⟩, rfl⟩
  trans := by
    rintro m m' m'' ⟨⟨more, first⟩, depth⟩ ⟨⟨more', second⟩, depth'⟩
    exact ⟨⟨more ++ more', by rw [second, first, String.append_assoc]⟩, depth'.trans depth⟩

/-- A change beside the output and the depth. -/
theorem Machine.onward_of_eq {m m' : Machine} (output : m'.output = m.output)
    (depth : m'.depth = m.depth) : m.Onward m' := ⟨⟨"", by rw [output, String.append_empty]⟩, depth⟩

theorem Machine.Aside.onward {m m' : Machine} (h : m.Aside m') : m.Onward m' := by
  obtain ⟨trace, named, rfl⟩ := h
  exact Machine.onward_of_eq rfl rfl

namespace Eval

/-- The step leaves the depth alone and takes no output back. -/
abbrev IsOnward (x : Eval α) : Prop := x.Moves Machine.Onward

theorem IsAside.isOnward {x : Eval α} (h : x.IsAside) : x.IsOnward :=
  h.mono fun _ _ => Machine.Aside.onward

section

variable {e : Engine}

theorem onward_write (text : String) : IsOnward (write text) :=
  moves_modify fun _ => ⟨⟨text, rfl⟩, rfl⟩

theorem onward_pushFrame (scope : Scope) (bs : Bindings) : IsOnward (pushFrame scope bs) :=
  moves_modifyGet fun _ => Machine.onward_of_eq rfl rfl

theorem onward_newTable (t : Table) : IsOnward (newTable t) :=
  moves_modifyGet fun _ => Machine.onward_of_eq rfl rfl

theorem onward_closureOf (scope : Scope) (f : Lambda) : IsOnward (closureOf scope f) := by
  cases f with
  | mk params body name line => exact moves_modifyGet fun _ => Machine.onward_of_eq rfl rfl

theorem onward_assign (scope : Scope) (name : String) (v : Value) : IsOnward (assign scope name v) :=
  moves_modify fun _ => Machine.onward_of_eq rfl rfl

theorem onward_setKey (id : Nat) (k v : Value) : IsOnward (setKey id k v) := by
  unfold setKey
  split
  · exact moves_fault _
  · exact moves_modify fun _ => Machine.onward_of_eq rfl rfl

theorem onward_store (scope : Scope) (place : Place) (v : Value) : IsOnward (store scope place v) := by
  cases place with
  | «variable» name => exact onward_assign scope name v
  | slot id key => exact onward_setKey id key v

theorem onward_storeAll (scope : Scope) (places : List Place) (vs : List Value) :
    IsOnward (storeAll scope places vs) := .storeAll (onward_store scope) places vs

theorem onward_whileTurns {condition : Eval Bool} {body : Eval Signal} (holds : IsOnward condition)
    (turn : IsOnward body) (limit : Nat) : IsOnward (whileTurns condition body limit) := by
  induction limit with
  | zero => exact moves_throw _
  | succ limit ih =>
    refine holds.bind fun b => ?_
    split
    · refine turn.bind fun signal => ?_
      split
      · exact ih
      · exact moves_pure _
    · exact moves_pure _

theorem onward_countedTurns {body : Float → Eval Signal} (step stop : Float)
    (turn : ∀ counter, IsOnward (body counter)) (limit : Nat) (counter : Float) :
    IsOnward (countedTurns step stop body limit counter) := by
  induction limit generalizing counter with
  | zero => exact moves_throw _
  | succ limit ih =>
    unfold countedTurns
    split
    · refine (turn counter).bind fun signal => ?_
      split
      · exact ih _
      · exact moves_pure _
    · exact moves_pure _

end

/-! ## Extension -/

/-- The result is the end at a limit that is looser for a step that ends in `m'`, and has printed no
more than is printed there. -/
def CutOff (loose : Limit → Prop) (m' : Machine) : EStateM.Result Halt Machine α → Prop
  | .ok _ _ => False
  | .error e m => (∃ l ∈ e.limit?, loose l) ∧ m.Onward m'

/-- The second step goes on where the first one has met a limit that is looser for it. -/
structure Extends (loose : Limit → Prop) (x y : Eval α) : Prop where
  agrees : ∀ m, y m = x m ∨ CutOff loose (y.final m) (x m)
  onward : y.IsOnward

namespace Extends

variable {loose : Limit → Prop}

theorem refl {x : Eval α} (h : x.IsOnward) : Extends loose x x := ⟨fun _ => .inl rfl, h⟩

theorem aside {x : Eval α} (h : x.IsAside) : Extends loose x x := refl h.isOnward

theorem pure (a : α) : Extends loose (pure a) (pure a) := refl (moves_pure a)

theorem fault (error : RuntimeError) : Extends loose (Eval.fault error : Eval α) (Eval.fault error) :=
  refl (moves_fault error)

theorem faultAt (line : Nat) (scope : Scope) (e : Expr) (error : Origin → RuntimeError) :
    Extends loose (Eval.faultAt line scope e error : Eval α) (Eval.faultAt line scope e error) :=
  aside (aside_faultAt line scope e error)

/-- The shorter step is at a limit that is looser for the other one. -/
theorem cut {y : Eval α} {e : Halt} {l : Limit} (met : e.limit? = some l) (looser : loose l)
    (h : y.IsOnward) : Extends loose (throw e) y := ⟨fun m => .inr ⟨⟨l, met, looser⟩, h m⟩, h⟩

theorem bind {x y : Eval α} {f g : α → Eval β} (first : Extends loose x y)
    (rest : ∀ a, Extends loose (f a) (g a)) : Extends loose (x >>= f) (y >>= g) := by
  have onward : ∀ a, (g a).IsOnward := fun a => (rest a).onward
  refine ⟨fun m => ?_, first.onward.bind onward⟩
  have after := Moves.after onward y m
  have started := first.agrees m
  change (EStateM.bind y g) m = (EStateM.bind x f) m ∨ CutOff loose _ ((EStateM.bind x f) m)
  unfold EStateM.bind at *
  cases result : x m with
  | error e m' =>
    rw [result] at started
    rcases started with same | ⟨limit, printed⟩
    · exact .inl (by simp only [same])
    · exact .inr ⟨limit, trans_of Machine.Onward printed after⟩
  | ok a m' =>
    rw [result] at started
    rcases started with same | cut
    · have next := (rest a).agrees m'
      simpa only [same, final, Bind.bind, EStateM.bind] using next
    · exact cut.elim

theorem map {x y : Eval α} (h : Extends loose x y) (f : α → β) :
    Extends loose (x >>= fun a => Pure.pure (f a)) (y >>= fun a => Pure.pure (f a)) :=
  h.bind fun _ => pure _

theorem single {x y : Eval Value} (h : Extends loose x y) :
    Extends loose (Eval.single x) (Eval.single y) := h.map _

theorem atLine {x y : Eval α} (line : Nat) (h : Extends loose x y) :
    Extends loose (Eval.atLine line x) (Eval.atLine line y) := by
  refine ⟨fun m => ?_, h.onward.atLine line⟩
  rcases h.agrees m with same | cut
  · exact .inl (by simp only [Eval.atLine, same])
  · refine .inr ?_
    have ends : (Eval.atLine line y).final m = y.final m := final_atLine line y m
    rw [ends]
    unfold Eval.atLine
    cases result : x m with
    | ok a m' =>
      rw [result] at cut
      exact cut
    | error e m' =>
      rw [result] at cut
      cases e with
      | fault error l =>
        cases l with
        | zero => exact cut.imp (fun met => by rwa [Halt.limit?_atLine error line 0]) id
        | succ l => exact cut
      | _ => exact cut

theorem onward_deeper {x : Eval α} (h : x.IsOnward) : (Eval.deeper x).IsOnward := by
  intro m
  have inner := h { m with depth := m.depth + 1 }
  unfold final Eval.deeper at *
  cases result : x { m with depth := m.depth + 1 } with
  | ok a m' =>
    rw [result] at inner
    exact ⟨inner.output, congrArg (· - 1) inner.depth⟩
  | error e m' =>
    rw [result] at inner
    exact ⟨inner.output, congrArg (· - 1) inner.depth⟩

theorem deeper {x y : Eval α} (h : Extends loose x y) :
    Extends loose (Eval.deeper x) (Eval.deeper y) := by
  refine ⟨fun m => ?_, onward_deeper h.onward⟩
  rcases h.agrees { m with depth := m.depth + 1 } with same | cut
  · exact .inl (by simp only [Eval.deeper, same])
  · refine .inr ?_
    have ends : (Eval.deeper y).final m =
        { y.final { m with depth := m.depth + 1 } with
          depth := (y.final { m with depth := m.depth + 1 }).depth - 1 } := by
      unfold final Eval.deeper
      cases y { m with depth := m.depth + 1 } <;> rfl
    rw [ends]
    unfold Eval.deeper
    cases result : x { m with depth := m.depth + 1 } with
    | ok a m' =>
      rw [result] at cut
      exact cut
    | error e m' =>
      rw [result] at cut
      exact ⟨cut.1, cut.2.output, congrArg (· - 1) cut.2.depth⟩

end Extends

end Eval

end MiniLua

import MiniLua.Proofs.Control.Enclosed
import MiniLua.Proofs.Running.Moving
import MiniLua.Proofs.Running.Sequencing
import MiniLua.Proofs.Running.Values
import MiniLua.Proofs.Table.Writing

/-!
# Regimes

A regime says what holds of a machine between two steps and what is then known of values, tables and
scopes. It is kept by all that evaluation does to a machine, and what is known at a machine is known
at every later one. A strict regime is one of programs without stray breaks.
-/

namespace MiniLua

variable {α β : Type}

/-- A value that refers to nothing in the store. -/
def Value.plain : Value → Bool
  | .ref _ => false
  | .list _ => false
  | _ => true

structure Regime where
  machine : Machine → Prop
  value : Machine → Value → Prop
  table : Machine → Table → Prop
  scope : Machine → Scope → Prop
  later : Machine → Machine → Prop
  /-- Functions have no stray breaks. -/
  strict : Prop
  -- What is known stays known.
  later_refl : ∀ m, later m m
  later_trans : ∀ {m m' m''}, later m m' → later m' m'' → later m m''
  value_later : ∀ {m m' v}, later m m' → value m v → value m' v
  table_later : ∀ {m m' t}, later m m' → table m t → table m' t
  scope_later : ∀ {m m' s}, later m m' → scope m s → scope m' s
  -- Reading.
  plain : ∀ {m v}, v.plain = true → value m v
  expand : ∀ {m v}, value m v → ∀ w ∈ v.expand, value m w
  lookup : ∀ {m}, machine m → ∀ s name, value m (m.frames.lookup s name)
  contents : ∀ {m}, machine m → ∀ id, table m (m.tables.getD id .empty)
  get : ∀ {m t}, table m t → ∀ k, value m (t.get k)
  keys : ∀ {m t}, table m t → ∀ e ∈ t.items, value m e.1
  closure : ∀ {m id}, machine m → value m (.ref (.function id)) →
    scope m (m.functions.getD id default).scope ∧
      (strict → (m.functions.getD id default).body.enclosed false = true)
  root : ∀ {m}, machine m → scope m [0]
  -- Tables under construction.
  empty : ∀ m, table m .empty
  insert : ∀ {m t k v}, table m t → Table.keyFault? k = none → value m k → value m v →
    table m (t.insert k v)
  -- Writing.
  same : ∀ {m m'}, machine m → m'.frames = m.frames → m'.tables = m.tables →
    m'.functions = m.functions → machine m' ∧ later m m'
  pushFrame : ∀ {m s bs}, machine m → scope m s → (∀ b ∈ bs, value m b.2) →
    let m' := { m with frames := (m.frames.push s bs).1 }
    (machine m' ∧ later m m') ∧ scope m' (m.frames.push s bs).2
  assign : ∀ {m s v}, machine m → scope m s → value m v → ∀ name,
    let m' := { m with frames := m.frames.assign s name v }
    machine m' ∧ later m m'
  setKey : ∀ {m id k v}, machine m → value m (.ref (.table id)) → Table.keyFault? k = none →
    value m k → value m v →
    let m' := { m with tables := m.tables.modify id (·.insert k v) }
    machine m' ∧ later m m'
  newTable : ∀ {m t}, machine m → table m t →
    let m' := { m with tables := m.tables.push t }
    (machine m' ∧ later m m') ∧ value m' (.ref (.table m.tables.size))
  newFunction : ∀ {m f}, machine m → scope m f.scope →
    (strict → f.body.enclosed false = true) →
    let m' := { m with functions := m.functions.push f }
    (machine m' ∧ later m m') ∧ value m' (.ref (.function m.functions.size))

namespace Regime

variable (R : Regime) {m m' m'' : Machine} {a b : Bool} {v : Value} {vs : List Value}

/-- A later machine at which the regime holds. -/
structure Onward (m m' : Machine) : Prop where
  machine : R.machine m'
  later : R.later m m'

/-- What a strict regime asks of the syntax. -/
def Allows (b : Bool) : Prop := R.strict → b = true

/-- Halts that can happen under the regime. -/
def Admits (e : Halt) : Prop := R.strict → ∀ line, e ≠ .fault .breakOutsideLoop line

/-- What is known of a result: of each of its values. -/
def Spreads (m : Machine) (v : Value) : Prop := ∀ w ∈ v.expand, R.value m w

def Values (m : Machine) (vs : List Value) : Prop := ∀ v ∈ vs, R.value m v

/-- A way of ending, of code that is in a loop or not. -/
def Ends (inLoop : Bool) (m : Machine) : Signal → Prop
  | .normal => True
  | .breakLoop _ => R.Allows inLoop
  | .returned vs => R.Values m vs

/-- How a loop has ended, if it has. -/
def Ending (inLoop : Bool) (m : Machine) (ending : Option Signal) : Prop :=
  ∀ signal, ending = some signal → R.Ends inLoop m signal

def Place (m : Machine) : Place → Prop
  | .variable _ => True
  | .slot id key => R.value m (.ref (.table id)) ∧ R.value m key

variable {R}

theorem Onward.refl (good : R.machine m) : R.Onward m m := ⟨good, R.later_refl m⟩

theorem Onward.trans (h : R.Onward m m') (h' : R.Onward m' m'') : R.Onward m m'' :=
  ⟨h'.machine, R.later_trans h.later h'.later⟩

theorem Onward.same (good : R.machine m) (frames : m'.frames = m.frames)
    (tables : m'.tables = m.tables) (functions : m'.functions = m.functions) : R.Onward m m' :=
  ⟨(R.same good frames tables functions).1, (R.same good frames tables functions).2⟩

theorem allows_and : R.Allows (a && b) ↔ R.Allows a ∧ R.Allows b := by
  simp only [Allows, Bool.and_eq_true]
  exact ⟨fun h => ⟨fun strict => (h strict).1, fun strict => (h strict).2⟩,
    fun h strict => ⟨h.1 strict, h.2 strict⟩⟩

theorem Spreads.compress (h : R.Spreads m v) : R.value m v.compress := by
  cases v with
  | list vs =>
    cases vs with
    | nil => exact R.plain rfl
    | cons v vs => exact h v List.mem_cons_self
  | _ => exact List.forall_mem_singleton.mp h

theorem Values.adjust (h : R.Values m vs) (count : Nat) : R.Values m (Value.adjust vs count) := by
  refine List.forall_mem_append.mpr ⟨fun v member => h v (List.take_subset _ _ member), ?_⟩
  intro v member
  rw [List.eq_of_mem_replicate member]
  exact R.plain rfl

theorem Values.later (h : R.Values m vs) (later : R.later m m') : R.Values m' vs :=
  fun v member => R.value_later later (h v member)

theorem Ends.later {inLoop : Bool} {signal : Signal} (h : R.Ends inLoop m signal)
    (later : R.later m m') : R.Ends inLoop m' signal := by
  cases signal with
  | returned vs => exact Values.later h later
  | _ => exact h

theorem Place.later {place : MiniLua.Place} (h : R.Place m place) (later : R.later m m') :
    R.Place m' place := by
  cases place with
  | «variable» name => trivial
  | slot id key => exact ⟨R.value_later later h.1, R.value_later later h.2⟩

theorem unbound : ∀ b ∈ ([] : Bindings), R.value m b.2 := nofun

theorem Values.ofLists (names : List String) (h : R.Values m vs) :
    ∀ b ∈ Bindings.ofLists names vs, R.value m b.2 :=
  Bindings.forall_ofLists names h

theorem putValues {t : Table} (h : R.table m t) (values : R.Values m vs) (position : Nat) :
    R.table m (Eval.putValues t position vs) := by
  induction vs generalizing t position with
  | nil => exact h
  | cons v vs ih =>
    obtain ⟨first, rest⟩ := List.forall_mem_cons.mp values
    exact ih (R.insert h (Table.keyFault?_positionKey position) (R.plain rfl) first) rest _

theorem Admits.of_ne {error : RuntimeError} (other : error ≠ .breakOutsideLoop) (line : Nat) :
    R.Admits (.fault error line) := by
  rintro - l same
  exact other (Halt.fault.inj same).1

end Regime

/-- From this machine, if the regime holds there, the step ends at a later one at which it holds;
`post` speaks of the value given. -/
def Eval.Abides (R : Regime) (m : Machine) (x : Eval α) (post : Machine → α → Prop) : Prop :=
  R.machine m →
    match x m with
    | .ok a m' => R.Onward m m' ∧ post m' a
    | .error e m' => R.Onward m m' ∧ R.Admits e

/-- Nothing is said of the value given. -/
def Unsaid (_ : Machine) (_ : α) : Prop := True

namespace Eval.Abides

variable {R : Regime} {m : Machine} {x : Eval α} {post post₂ : Machine → α → Prop}
  {post' : Machine → β → Prop}

theorem of_ok (h : Abides R m x post) (good : R.machine m) {a : α} {m' : Machine}
    (done : x m = .ok a m') : R.Onward m m' ∧ post m' a := by
  have ending := h good
  rw [done] at ending
  exact ending

theorem of_error (h : Abides R m x post) (good : R.machine m) {e : Halt} {m' : Machine}
    (failed : x m = .error e m') : R.Onward m m' ∧ R.Admits e := by
  have ending := h good
  rw [failed] at ending
  exact ending

theorem mono (h : Abides R m x post) (weaker : ∀ m' a, post m' a → post₂ m' a) :
    Abides R m x post₂ := by
  intro good
  cases result : x m with
  | ok a m' => exact (h.of_ok good result).imp_right (weaker m' a)
  | error e m' => exact h.of_error good result

theorem pure {a : α} (h : post m a) : Abides R m (pure a) post := fun good => ⟨.refl good, h⟩

theorem done {a : α} : Abides R m (Pure.pure a) Unsaid := pure trivial

theorem throw {e : Halt} (h : R.Admits e) : Abides R m (throw e) post := fun good => ⟨.refl good, h⟩

theorem bind {f : α → Eval β} (first : Abides R m x post)
    (rest : ∀ a m', R.Onward m m' → post m' a → Abides R m' (f a) post') :
    Abides R m (x >>= f) post' := by
  intro good
  cases result : x m with
  | error e m' =>
    rw [bind_of_error f result]
    exact first.of_error good result
  | ok a m' =>
    rw [bind_of_ok result]
    obtain ⟨onward, fine⟩ := first.of_ok good result
    have next := rest a m' onward fine
    cases result' : f a m' with
    | ok b m'' => exact (next.of_ok onward.machine result').imp_left onward.trans
    | error e m'' => exact (next.of_error onward.machine result').imp_left onward.trans

theorem map (h : Abides R m x post) {f : α → β} (sends : ∀ m' a, post m' a → post' m' (f a)) :
    Abides R m (x >>= fun a => Pure.pure (f a)) post' :=
  h.bind fun a m' _ fine => pure (sends m' a fine)

theorem modifyGet {f : Machine → α × Machine}
    (h : R.machine m → R.Onward m (f m).2 ∧ post (f m).2 (f m).1) :
    Abides R m (modifyGet f) post := h

theorem modify {f : Machine → Machine} (h : R.machine m → R.Onward m (f m)) :
    Abides R m (modify f) Unsaid := fun good => ⟨h good, trivial⟩

theorem read (f : Machine → α) (h : R.machine m → post m (f m)) :
    Abides R m (do return f (← MonadState.get)) post := fun good => ⟨.refl good, h good⟩

/-- A step that only reads, traces and numbers references. -/
theorem aside (h : x.IsAside) (admitted : ∀ e m', x m = .error e m' → R.Admits e) :
    Abides R m x Unsaid := by
  intro good
  have moved := h m
  obtain ⟨trace, named, same⟩ := moved
  have onward : R.Onward m (x.final m) := same ▸ .same good rfl rfl rfl
  rw [final] at onward
  cases result : x m with
  | ok a m' =>
    rw [result] at onward
    exact ⟨onward, trivial⟩
  | error e m' =>
    rw [result] at onward
    exact ⟨onward, admitted e m' result⟩

theorem atLine (line : Nat) (h : Abides R m x post) : Abides R m (Eval.atLine line x) post := by
  intro good
  rw [Eval.atLine]
  cases result : x m with
  | ok a m' => exact h.of_ok good result
  | error e m' =>
    have ending := h.of_error good result
    cases e with
    | fault error l =>
      cases l with
      | zero =>
        refine ending.imp_right fun admits strict l same => admits strict 0 ?_
        rw [(Halt.fault.inj same).1]
      | succ l => exact ending
    | _ => exact ending

theorem deeper (h : ∀ m', R.Onward m m' → Abides R m' x post)
    (stable : ∀ m' m'' a, R.Onward m' m'' → post m' a → post m'' a) :
    Abides R m (Eval.deeper x) post := by
  intro good
  have inner : R.Onward m { m with depth := m.depth + 1 } := .same good rfl rfl rfl
  have out (m' : Machine) (at_ : R.machine m') :
      R.Onward m' { m' with depth := m'.depth - 1 } := .same at_ rfl rfl rfl
  rw [Eval.deeper]
  cases result : x { m with depth := m.depth + 1 } with
  | ok a m' =>
    obtain ⟨onward, fine⟩ := (h _ inner).of_ok inner.machine result
    exact ⟨(inner.trans onward).trans (out m' onward.machine),
      stable _ _ a (out m' onward.machine) fine⟩
  | error e m' =>
    obtain ⟨onward, admits⟩ := (h _ inner).of_error inner.machine result
    exact ⟨(inner.trans onward).trans (out m' onward.machine), admits⟩

theorem single {x : Eval Value} (h : Abides R m x R.Spreads) :
    Abides R m (Eval.single x) R.value :=
  h.map fun _ _ spreads => spreads.compress

theorem fault {error : RuntimeError} (other : error ≠ .breakOutsideLoop) :
    Abides R m (Eval.fault error) post := throw (.of_ne other 0)

end Eval.Abides

end MiniLua

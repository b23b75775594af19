import MiniLua.Proofs.Regimes.Moments
import MiniLua.Proofs.Scoping.Sharing
import MiniLua.Proofs.Table.Contents

/-!
# Intact machines

In an intact machine every reference leads somewhere, only single values are stored, tables are
proper and the scopes of functions lead out to the global frame. Every session keeps its machine
intact, at every moment of its runs: tables and functions are never taken away and frames are stable.
-/

namespace MiniLua

/-- A single value; what it refers to is in the store. -/
def Value.Lives (m : Machine) : Value → Prop
  | .ref (.table id) => id < m.tables.size
  | .ref (.function id) => id < m.functions.size
  | .list _ => False
  | _ => True

namespace Machine

structure Intact (m : Machine) : Prop where
  globals : 0 < m.frames.size
  frames : ∀ bs ∈ m.frames, ∀ b ∈ bs, b.2.Lives m
  tables : ∀ t ∈ m.tables, t.Proper ∧ t.Holds (·.Lives m)
  functions : ∀ f ∈ m.functions, m.frames.Outward f.scope

/-- Nothing has been taken away, and frames below the global one bind the names they did. -/
structure Outlives (m' m : Machine) : Prop where
  frames : m.frames.Stable m'.frames
  tables : m.tables.size ≤ m'.tables.size
  functions : m.functions.size ≤ m'.functions.size

variable {m m' m'' : Machine} {v : Value} {t : Table}

theorem Outlives.refl (m : Machine) : m.Outlives m := ⟨.refl _, Nat.le_refl _, Nat.le_refl _⟩

theorem Outlives.trans (h : m'.Outlives m) (h' : m''.Outlives m') : m''.Outlives m :=
  ⟨h.frames.trans h'.frames, Nat.le_trans h.tables h'.tables,
    Nat.le_trans h.functions h'.functions⟩

theorem Outlives.lives (h : m'.Outlives m) (v : Value) (lives : v.Lives m) : v.Lives m' := by
  cases v with
  | ref r =>
    cases r with
    | table id => exact Nat.lt_of_lt_of_le lives h.tables
    | function id => exact Nat.lt_of_lt_of_le lives h.functions
  | list vs => exact lives.elim
  | _ => trivial

/-- A later machine is intact if the parts of it that are new are. -/
theorem Intact.later (intact : m.Intact) (outlives : m'.Outlives m)
    (frames : ∀ bs ∈ m'.frames, bs ∈ m.frames ∨ ∀ b ∈ bs, b.2.Lives m')
    (tables : ∀ t ∈ m'.tables, t ∈ m.tables ∨ t.Proper ∧ t.Holds (·.Lives m'))
    (functions : ∀ f ∈ m'.functions, f ∈ m.functions ∨ m'.frames.Outward f.scope) : m'.Intact where
  globals := Nat.lt_of_lt_of_le intact.globals outlives.frames.size
  frames := by
    intro bs member b bound
    obtain old | new := frames bs member
    · exact outlives.lives b.2 (intact.frames bs old b bound)
    · exact new b bound
  tables := by
    intro t member
    obtain old | new := tables t member
    · exact (intact.tables t old).imp_right fun holds => holds.mono outlives.lives
    · exact new
  functions := by
    intro f member
    obtain old | new := functions f member
    · exact (intact.functions f old).stable outlives.frames
    · exact new

theorem Intact.table (intact : m.Intact) (id : Nat) :
    (m.tables.getD id .empty).Proper ∧ (m.tables.getD id .empty).Holds (·.Lives m) := by
  rw [Array.getD_eq_getD_getElem?]
  cases found : m.tables[id]? with
  | none => exact ⟨Table.proper_empty, Table.holds_empty⟩
  | some t => exact intact.tables t (Array.mem_of_getElem? found)

theorem Intact.function (intact : m.Intact) {id : Nat} (there : id < m.functions.size) :
    m.frames.Outward (m.functions.getD id default).scope := by
  rw [Array.getD_eq_getD_getElem?, Array.getElem?_eq_getElem there]
  exact intact.functions _ (Array.getElem_mem there)

theorem lives_positionKey (n : Nat) : (Table.positionKey n).Lives m := trivial

theorem Intact.pushFrame (intact : m.Intact) {scope : Scope} {bs : Bindings}
    (outward : m.frames.Outward scope) (bound : ∀ b ∈ bs, b.2.Lives m) :
    let m' := { m with frames := (m.frames.push scope bs).1 }
    (m'.Intact ∧ m'.Outlives m) ∧ m'.frames.Outward (m.frames.push scope bs).2 := by
  intro m'
  have stable : m.frames.Stable m'.frames := Frames.stable_push m.frames bs
  have outlives : m'.Outlives m := ⟨stable, Nat.le_refl _, Nat.le_refl _⟩
  refine ⟨⟨intact.later outlives (fun bs' member => ?_) (fun _ => .inl) fun _ => .inl, outlives⟩, ?_⟩
  · obtain old | rfl := Array.mem_push.mp member
    · exact .inl old
    · exact .inr bound
  · exact .frame (Nat.ne_of_gt intact.globals) (by simp [m', Frames.push]) (outward.stable stable)

theorem Intact.assign (intact : m.Intact) {scope : Scope} (outward : m.frames.Outward scope)
    (lives : v.Lives m) (name : String) :
    let m' := { m with frames := m.frames.assign scope name v }
    m'.Intact ∧ m'.Outlives m := by
  intro m'
  have outlives : m'.Outlives m :=
    ⟨Frames.stable_assign outward name v, Nat.le_refl _, Nat.le_refl _⟩
  refine ⟨intact.later outlives (fun bs member => ?_) (fun _ => .inl) fun _ => .inl, outlives⟩
  exact .inr (Frames.forall_assign intact.frames scope name lives bs member)

theorem Intact.setKey (intact : m.Intact) {id : Nat} {k : Value}
    (writable : Table.keyFault? k = none) (key : k.Lives m) (value : v.Lives m) :
    let m' := { m with tables := m.tables.modify id (·.insert k v) }
    m'.Intact ∧ m'.Outlives m := by
  intro m'
  have outlives : m'.Outlives m := ⟨.refl _, by simp [m'], Nat.le_refl _⟩
  refine ⟨intact.later outlives (fun _ => .inl) (fun t member => ?_) fun _ => .inl, outlives⟩
  obtain ⟨i, inside, rfl⟩ := Array.mem_iff_getElem.mp member
  have old := Array.size_modify ▸ inside
  obtain ⟨proper, holds⟩ := intact.tables _ (Array.getElem_mem old)
  rw [Array.getElem_modify]
  split
  · refine .inr ⟨proper.insert writable v, ?_⟩
    exact (holds.insert lives_positionKey key value).mono outlives.lives
  · exact .inl (Array.getElem_mem old)

theorem Intact.newTable (intact : m.Intact) (fine : t.Proper ∧ t.Holds (·.Lives m)) :
    let m' := { m with tables := m.tables.push t }
    (m'.Intact ∧ m'.Outlives m) ∧ (Value.ref (.table m.tables.size)).Lives m' := by
  intro m'
  have outlives : m'.Outlives m := ⟨.refl _, by simp [m'], Nat.le_refl _⟩
  refine ⟨⟨intact.later outlives (fun _ => .inl) (fun t' member => ?_) fun _ => .inl, outlives⟩, ?_⟩
  · obtain old | rfl := Array.mem_push.mp member
    · exact .inl old
    · exact .inr (fine.imp_right fun holds => holds.mono outlives.lives)
  · simp [Value.Lives, m']

theorem Intact.newFunction (intact : m.Intact) {f : Closure} (outward : m.frames.Outward f.scope) :
    let m' := { m with functions := m.functions.push f }
    (m'.Intact ∧ m'.Outlives m) ∧ (Value.ref (.function m.functions.size)).Lives m' := by
  intro m'
  have outlives : m'.Outlives m := ⟨.refl _, Nat.le_refl _, by simp [m']⟩
  refine ⟨⟨intact.later outlives (fun _ => .inl) (fun _ => .inl) fun f' member => ?_, outlives⟩, ?_⟩
  · obtain old | rfl := Array.mem_push.mp member
    · exact .inl old
    · exact .inr outward
  · simp [Value.Lives, m']

theorem intact_initial (tracing : Bool) : (Machine.initial tracing).Intact where
  globals := Nat.one_pos
  frames := by
    intro bs member b bound
    obtain rfl : bs = _ := Array.mem_singleton.mp member
    obtain ⟨builtin, -, rfl⟩ := List.mem_map.mp bound
    trivial
  tables := nofun
  functions := nofun

end Machine

/-- Intact machines, whatever the programs. -/
def Regime.intact : Regime where
  machine := Machine.Intact
  value m v := v.Lives m
  table m t := t.Proper ∧ t.Holds (·.Lives m)
  scope m s := m.frames.Outward s
  later m m' := m'.Outlives m
  strict := False
  later_refl := Machine.Outlives.refl
  later_trans := Machine.Outlives.trans
  value_later outlives lives := outlives.lives _ lives
  table_later outlives fine := fine.imp_right fun holds => holds.mono outlives.lives
  scope_later outlives outward := outward.stable outlives.frames
  plain {m v} plain := by
    cases v with
    | ref r => cases plain
    | list vs => cases plain
    | _ => trivial
  expand {m v} lives := by
    cases v with
    | list vs => exact lives.elim
    | _ => exact List.forall_mem_singleton.mpr lives
  lookup intact s name := Frames.forall_lookup intact.frames trivial s name
  contents intact id := intact.table id
  get fine k := fine.2.get trivial k
  keys fine e listed := (fine.2.items Machine.lives_positionKey e listed).1
  closure intact there := ⟨intact.function there, False.elim⟩
  root intact := .globals intact.globals
  empty _ := ⟨Table.proper_empty, Table.holds_empty⟩
  insert fine writable key value :=
    ⟨fine.1.insert writable _, fine.2.insert Machine.lives_positionKey key value⟩
  same {m m'} intact frames tables functions := by
    have outlives : m'.Outlives m := by
      refine ⟨frames ▸ .refl _, ?_, ?_⟩
      · rw [tables]
      · rw [functions]
    exact ⟨intact.later outlives (fun _ => frames ▸ .inl) (fun _ => tables ▸ .inl)
      fun _ => functions ▸ .inl, outlives⟩
  pushFrame intact outward bound := intact.pushFrame outward bound
  assign intact outward lives name := intact.assign outward lives name
  setKey intact _ := intact.setKey
  newTable intact fine := intact.newTable fine
  newFunction intact outward _ := intact.newFunction outward

namespace Session

/-- The machine of a session is intact. -/
theorem intact_session (tracing : Bool) (maxDepth : Nat) (requests : List Request) :
    (requests.foldl serve (.start tracing maxDepth)).machine.Intact := by
  refine abides_session (R := .intact) tracing maxDepth requests (Machine.intact_initial tracing) ?_
  exact fun _ _ => False.elim

/-- So it is at every moment that a run of the session reaches, and scopes lead out. -/
theorem intact_reached (tracing : Bool) (maxDepth : Nat) (requests : List Request) {turns : Nat}
    {program : Block} {r : Moment}
    (reaches : Reaches turns
      (.opening maxDepth (requests.foldl serve (.start tracing maxDepth)).machine program) r) :
    r.machine.Intact ∧ r.machine.frames.Outward r.scope := by
  have intact := intact_session tracing maxDepth requests
  have reached : Regime.intact.At r := reaches.abides (.opening intact False.elim)
  exact ⟨reached.machine, reached.scope⟩

end Session

end MiniLua

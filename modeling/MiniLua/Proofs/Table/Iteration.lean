import MiniLua.Eval.Loop
import MiniLua.Proofs.Table.Listing

/-!
# Walks over a table that changes

A walk fixes the keys when it begins and reads each value when its turn comes, while writes between
two steps do what they like to the table. Where an entry lives, and whether it moved, does not
matter: a turn yields what the table reads at that moment.
-/

namespace MiniLua

namespace Table

/-! ## Writes that only overwrite -/

/-- Every write finds its key present and gives it a value again. -/
def Overwrites (t : Table) : List (Value × Value) → Prop
  | [] => True
  | op :: ops =>
    (t.get op.1).isNil = false ∧ op.2.isNil = false ∧ Overwrites (t.attempt op) ops

def decideOverwrites : (t : Table) → (ops : List (Value × Value)) → Decidable (Overwrites t ops)
  | _, [] => isTrue trivial
  | t, op :: ops =>
    have := decideOverwrites (t.attempt op) ops
    inferInstanceAs (Decidable (_ ∧ _ ∧ _))

instance {t : Table} {ops : List (Value × Value)} : Decidable (Overwrites t ops) :=
  decideOverwrites t ops

/-- A valid table that reads something under the same keys as another one. -/
structure Refilled (t t' : Table) : Prop where
  valid : t'.Valid
  length : t'.items.length = t.items.length
  present : ∀ k, (t'.get k).isNil = (t.get k).isNil

variable {t : Table} {k v : Value}

theorem Overwrites.of_append {before after : List (Value × Value)}
    (h : Overwrites t (before ++ after)) : Overwrites t before := by
  induction before generalizing t with
  | nil => trivial
  | cons op ops ih => exact ⟨h.1, h.2.1, ih h.2.2⟩

theorem length_putEntry {es : Entries} {e : Value × Value} (found : findEntry k es = some e) :
    (putEntry k v es).length = es.length := by
  induction es with
  | nil => cases found
  | cons a es ih =>
    rw [putEntry]
    split
    · rfl
    next other =>
      simp only [findEntry, List.find?_cons, Bool.not_eq_true] at found other
      rw [other] at found
      exact congrArg (· + 1) (ih found)

/-- Overwriting neither adds nor takes away an entry. -/
theorem length_items_insert (valid : t.Valid) (reads : (t.get k).isNil = false)
    (hv : v.isNil = false) : (t.insert k v).items.length = t.items.length := by
  rcases inside_or_outside t k with ⟨p, hk, hp⟩ | outside
  · rw [insert_overwrite hk hp hv, length_items, length_items]
    simp only [Array.size_setIfInBounds]
  · rw [get_of_outside outside, entryValue] at reads
    cases found : findEntry k t.entries with
    | none => simp [found, Value.isNil] at reads
    | some e =>
      have next : position? k ≠ some (t.array.size + 1) := by
        intro hk
        rw [absent_of_settled hk valid] at found
        cases found
      rw [insert_put outside hv next, length_items, length_items, length_putEntry found]

theorem refilled_self (valid : t.Valid) : Refilled t t := ⟨valid, rfl, fun _ => rfl⟩

theorem refilled_attempt {t' : Table} {op : Value × Value} (small : t.items.length < 2 ^ 53)
    (refilled : Refilled t t') (reads : (t'.get op.1).isNil = false) (hv : op.2.isNil = false) :
    Refilled t (t'.attempt op) := by
  cases fault : keyFault? op.1 with
  | some e =>
    rw [attempt_of_fault fault]
    exact refilled
  | none =>
    have same := length_items_insert refilled.valid reads hv
    have written := written_insert refilled.valid fault (by rw [refilled.length]; exact small)
      (by rw [same, refilled.length]; exact small)
    rw [attempt_of_allowed fault]
    refine ⟨written.valid, same.trans refilled.length, fun k => ?_⟩
    rw [written.reads, ← refilled.present]
    split
    next equal => rw [hv, ← get_congr equal, reads]
    next => rfl

theorem refilled_foldl {t' : Table} {ops : List (Value × Value)} (small : t.items.length < 2 ^ 53)
    (refilled : Refilled t t') (h : Overwrites t' ops) :
    Refilled t (ops.foldl attempt t') := by
  induction ops generalizing t' with
  | nil => exact refilled
  | cons op ops ih =>
    exact ih (refilled_attempt small refilled h.1 h.2.1) h.2.2

end Table

/-- A walk under way: the table as it is now and what has been yielded so far. -/
structure Walk where
  table : Table
  yielded : List (Value × Value)

namespace Walk

/-- The writes that follow the step after so many others. -/
abbrev Script := Nat → List (Value × Value)

section

variable (script : Script)

def read (key : Value) : StateM Walk Value := do return (← get).table.get key

/-- Takes an entry and makes the writes that follow. -/
def visit (key value : Value) : StateM Walk (Option Unit) := do
  modify fun w =>
    { table := (script w.yielded.length).foldl Table.attempt w.table
      yielded := w.yielded ++ [(key, value)] }
  return none

def through (keys : List Value) (w : Walk) : Walk := ((overKeys read (visit script) keys).run w).2

/-- The whole walk over a table. -/
def of (t : Table) : Walk := through script t.keys ⟨t, []⟩

/-- The writes of the first steps, in order. -/
def writes (steps : Nat) : List (Value × Value) := (List.range steps).flatMap script

/-- What the turn of a key yields. -/
def offer (t : Table) (key : Value) : List (Value × Value) :=
  if (t.get key).isNil then [] else [(key, t.get key)]

/-- The walk after the turn of a key. -/
def turn (w : Walk) (key : Value) : Walk where
  table := if (w.table.get key).isNil then w.table
    else (script w.yielded.length).foldl Table.attempt w.table
  yielded := w.yielded ++ offer w.table key

end

variable {script : Script} {w : Walk} {key : Value} {keys : List Value}

/-! ## Turn by turn -/

theorem through_cons : through script (key :: keys) w = through script keys (turn script w key) := by
  unfold through turn offer
  rw [overKeys]
  cases absent : (w.table.get key).isNil <;>
    simp [read, visit, absent, StateT.run_bind, bind_pure_comp]

theorem through_append (before after : List Value) :
    through script (before ++ after) w = through script after (through script before w) := by
  induction before generalizing w with
  | nil => rfl
  | cons key before ih => rw [List.cons_append, through_cons, through_cons, ih]

theorem offer_sublist (t : Table) (key : Value) : ((offer t key).map (·.1)).Sublist [key] := by
  unfold offer
  split
  · exact List.nil_sublist _
  · exact List.Sublist.refl _

/-- What is yielded stays so, and all that follows comes from the keys that are left, in their
order. -/
theorem yielded_through (script : Script) (keys : List Value) (w : Walk) :
    ∃ later, (through script keys w).yielded = w.yielded ++ later ∧
      (later.map (·.1)).Sublist keys := by
  induction keys generalizing w with
  | nil => exact ⟨[], (List.append_nil _).symm, List.nil_sublist _⟩
  | cons key keys ih =>
    obtain ⟨later, yielded, rest⟩ := ih (turn script w key)
    refine ⟨offer w.table key ++ later, ?_, ?_⟩
    · rw [through_cons, yielded, ← List.append_assoc]
      rfl
    · rw [List.map_append]
      exact (offer_sublist w.table key).append rest

theorem writes_succ (steps : Nat) :
    writes script (steps + 1) = writes script steps ++ script steps := by
  simp [writes, List.range_succ]

theorem writes_add (script : Script) (steps more : Nat) :
    writes script steps <+: writes script (steps + more) := by
  induction more with
  | zero => exact List.prefix_rfl
  | succ more ih =>
    rw [← Nat.add_assoc, writes_succ]
    exact ih.trans (List.prefix_append _ _)

/-- The table of a walk has had the writes of the steps made so far, and no others. -/
def OnScript (script : Script) (start : Table) (w : Walk) : Prop :=
  w.table = (writes script w.yielded.length).foldl Table.attempt start

section

variable {start : Table}

theorem onScript_start : OnScript script start ⟨start, []⟩ := rfl

theorem OnScript.turn (scripted : OnScript script start w) :
    OnScript script start (turn script w key) := by
  unfold OnScript Walk.turn offer
  split
  · rw [List.append_nil]
    exact scripted
  · rw [List.length_append, List.length_singleton, writes_succ, List.foldl_append, ← scripted]

theorem OnScript.through (scripted : OnScript script start w) (keys : List Value) :
    OnScript script start (through script keys w) := by
  induction keys generalizing w with
  | nil => exact scripted
  | cons key keys ih =>
    rw [through_cons]
    exact ih scripted.turn

/-- With nothing but overwriting, a key is visited if it was there at the start. -/
theorem keys_through (small : start.items.length < 2 ^ 53) (valid : start.Valid)
    (scripted : OnScript script start w)
    (overwrites : start.Overwrites (writes script (through script keys w).yielded.length)) :
    (through script keys w).yielded.map (·.1) =
      w.yielded.map (·.1) ++ keys.filter fun key => !(start.get key).isNil := by
  induction keys generalizing w with
  | nil => exact (List.append_nil _).symm
  | cons key keys ih =>
    have refilled : start.Refilled w.table := by
      obtain ⟨later, yielded, -⟩ := yielded_through script (key :: keys) w
      rw [yielded, List.length_append] at overwrites
      obtain ⟨others, writes⟩ := writes_add script w.yielded.length later.length
      rw [← writes] at overwrites
      rw [scripted]
      exact Table.refilled_foldl small (Table.refilled_self valid) overwrites.of_append
    rw [through_cons] at overwrites ⊢
    rw [ih scripted.turn overwrites]
    simp only [Walk.turn, offer, refilled.present, List.map_append, List.append_assoc,
      List.filter_cons]
    congr 1
    cases (start.get key).isNil <;> rfl

/-- In the middle of a walk: what has been yielded, what the turn of the key offers, and the rest. -/
theorem yielded_at (script : Script) (before : List Value) (key : Value) (after : List Value)
    (w : Walk) :
    ∃ later, (through script (before ++ key :: after) w).yielded =
        (through script before w).yielded ++ offer (through script before w).table key ++ later ∧
      (later.map (·.1)).Sublist after := by
  obtain ⟨later, yielded, rest⟩ :=
    yielded_through script after (turn script (through script before w) key)
  refine ⟨later, ?_, rest⟩
  rw [through_append, through_cons]
  exact yielded

section

variable (small : start.items.length < 2 ^ 53) (valid : start.Valid)
  (overwrites : start.Overwrites (writes script (of script start).yielded.length))

include small valid overwrites

theorem exists_yielded {k : Value} (present : start.get k ≠ .nil) :
    ∃ e ∈ (of script start).yielded, e.1.rawEq k = true := by
  have listed := Table.get_isNil_iff valid small
  obtain ⟨key, member, equal⟩ := (listed k).mp (by
    rw [Bool.eq_false_iff]
    exact fun absent => present (Value.isNil_eq_true.mp absent))
  have own : (start.get key).isNil = false :=
    (listed key).mpr ⟨key, member, Value.rawEq_trans equal (Value.rawEq_symm equal)⟩
  have visited : key ∈ (of script start).yielded.map (·.1) := by
    rw [of, keys_through small valid onScript_start overwrites]
    exact List.mem_filter.mpr ⟨member, by rw [own]; rfl⟩
  obtain ⟨e, yielded, rfl⟩ := List.mem_map.mp visited
  exact ⟨e, yielded, equal⟩

theorem keys_yielded (single : ∀ key ∈ start.keys, key.isList = false) :
    (of script start).yielded.map (·.1) = start.keys := by
  rw [of, keys_through small valid onScript_start overwrites]
  refine List.filter_eq_self.mpr fun key member => ?_
  rw [Table.get_of_mem_keys valid small member (single key member)]
  rfl

end

end

end Walk

/-- A walk over a table yields some of the keys listed at its start, in their order and each at most
once, whatever is written between its steps; each key at its turn if the table reads something then,
with what it reads. Writes that only overwrite let every entry be visited. -/
theorem Walk.of_ofWrites (ops : List (Value × Value)) (script : Script) (small : Table.Small ops) :
    let start := Table.ofWrites ops
    let done := of script start
    (done.yielded.map (·.1)).Sublist start.keys ∧
    (done.yielded.map (·.1)).Pairwise (fun a b => a.rawEq b = false) ∧
    (∀ k, start.get k = .nil → ∀ e ∈ done.yielded, e.1.rawEq k = false) ∧
    done.yielded.length ≤ start.items.length ∧
    (∀ before key after, start.keys = before ++ key :: after →
      let now := through script before ⟨start, []⟩
      now.table = Table.ofWrites (ops ++ writes script now.yielded.length) ∧
      ∃ later, done.yielded = now.yielded ++
          (if (now.table.get key).isNil then [] else [(key, now.table.get key)]) ++ later ∧
        (now.yielded.map (·.1)).Sublist before ∧ (later.map (·.1)).Sublist after) ∧
    (start.Overwrites (writes script done.yielded.length) →
      (∀ k, start.get k ≠ .nil → ∃ e ∈ done.yielded, e.1.rawEq k = true) ∧
      ((∀ op ∈ ops, op.1.isList = false) → done.yielded.map (·.1) = start.keys)) := by
  intro start done
  obtain ⟨valid, -⟩ := Table.valid_ofWrites ops small
  have few : start.items.length < 2 ^ 53 := small ops List.prefix_rfl
  obtain ⟨all, yielded, listed⟩ := yielded_through script start.keys ⟨start, []⟩
  have same : done.yielded = all := yielded
  rw [← same] at listed
  have presence := Table.get_isNil_iff valid few
  refine ⟨listed, (Table.pairwise_keys valid few).sublist listed, ?_, ?_, ?_, ?_⟩
  · intro k absent e he
    have unlisted := (presence k).not.mp (by rw [absent]; exact nofun)
    rw [Bool.eq_false_iff]
    exact fun equal => unlisted ⟨e.1, listed.subset (List.mem_map_of_mem he), equal⟩
  · have := listed.length_le
    rwa [List.length_map, Table.length_keys] at this
  · intro before key after split now
    have scripted : OnScript script start now := onScript_start.through before
    obtain ⟨earlier, sofar, from_before⟩ := yielded_through script before ⟨start, []⟩
    obtain ⟨later, rest, from_after⟩ := yielded_at script before key after ⟨start, []⟩
    refine ⟨?_, later, ?_, ?_, from_after⟩
    · rw [scripted, Table.ofWrites, List.foldl_append]
      rfl
    · rw [← split] at rest
      exact rest
    · rw [show now.yielded = earlier from sofar]
      exact from_before
  · intro overwrites
    exact ⟨fun k present => exists_yielded few valid overwrites present,
      fun single => keys_yielded few valid overwrites (Table.single_keys single)⟩

/-- Two keys of the array and one beside it. -/
def Walk.mixedWrites : List (Value × Value) :=
  [(.number 1, .string "a"), (.string "x", .string "b"), (.number 2, .string "c")]

/-- After the first step, overwrites the keys that are still to come. -/
def Walk.refresh : Script
  | 0 => [(.string "x", .bool true), (.number 2, .bool false)]
  | _ => []

theorem Walk.of_mixedWrites :
    Table.Small mixedWrites ∧
      (of refresh (Table.ofWrites mixedWrites)).yielded.map (·.1) =
        (Table.ofWrites mixedWrites).keys ∧
      ((of refresh (Table.ofWrites mixedWrites)).yielded.map (·.2.typeName)) =
        ["string", "boolean", "boolean"] := by
  have small : Table.Small mixedWrites := by
    intro before h
    have bounded : ∀ before ∈ mixedWrites.inits, (Table.ofWrites before).items.length < 2 ^ 53 := by
      decide +kernel
    exact bounded before ((List.mem_inits before mixedWrites).mpr h)
  obtain ⟨-, -, -, -, -, overwritten⟩ := Walk.of_ofWrites mixedWrites refresh small
  refine ⟨small, (overwritten ?_).2 ?_, ?_⟩
  · decide +kernel
  · decide +kernel
  · decide +kernel

end MiniLua

import MiniLua.Proofs.Table.Entries

/-!
# What tables hold

A property that all keys and values of a table have is one of all it reads. Writing keeps it for a
key and a value that have it, if the keys of positions have it, which entries can be moved under.
-/

namespace MiniLua.Table

/-- Every key and every value of the table has the property. -/
structure Holds (p : Value → Prop) (t : Table) : Prop where
  array : ∀ v ∈ t.array, p v
  entries : ∀ e ∈ t.entries, p e.1 ∧ p e.2

variable {p q : Value → Prop} {t : Table} {k v : Value}

theorem holds_empty : empty.Holds p := ⟨nofun, nofun⟩

theorem Holds.mono (h : t.Holds p) (weaker : ∀ v, p v → q v) : t.Holds q :=
  ⟨fun v member => weaker v (h.array v member),
    fun e member => (h.entries e member).imp (weaker _) (weaker _)⟩

theorem Holds.get (h : t.Holds p) (nil : p .nil) (k : Value) : p (t.get k) := by
  unfold Table.get
  split
  next i _ =>
    rw [Array.getD_eq_getD_getElem?]
    cases found : t.array[i - 1]? with
    | none => exact nil
    | some v => exact h.array v (Array.mem_of_getElem? found)
  next =>
    cases found : findEntry k t.entries with
    | none => exact nil
    | some e => exact (h.entries e (findEntry_some found).1).2

theorem Holds.absorb (h : t.Holds p) (fuel : Nat) : (absorb fuel t).Holds p := by
  induction fuel generalizing t with
  | zero => exact h
  | succ fuel ih =>
    rw [Table.absorb]
    split
    · exact h
    next e found =>
      refine ih ⟨fun v member => ?_, fun e member => h.entries e (mem_eraseEntry member)⟩
      rcases Array.mem_push.mp member with before | rfl
      · exact h.array v before
      · exact (h.entries e (findEntry_some found).1).2

section

variable (positions : ∀ n, p (positionKey n))
include positions

theorem Holds.clearSlot (h : t.Holds p) (i : Nat) : (t.clearSlot i).Holds p := by
  have part {v : Value} {i j : Nat} (member : v ∈ t.array.extract i j) : p v := by
    obtain ⟨k, -, rfl⟩ := Array.mem_extract_iff_getElem.mp member
    exact h.array _ (Array.getElem_mem _)
  constructor
  · intro v member
    rw [Table.clearSlot, Array.shrink_eq_take] at member
    exact part member
  · intro e member
    rcases mem_putTail member with ⟨i, inside, key⟩ | old
    · exact ⟨key ▸ positions _, part (Array.mem_toList_iff.mp (List.mem_of_getElem? inside))⟩
    · exact h.entries e old

theorem Holds.insert (h : t.Holds p) (key : p k) (value : p v) : (t.insert k v).Holds p := by
  unfold Table.insert
  split
  next i _ =>
    split
    · exact h.clearSlot positions i
    · refine ⟨fun w member => ?_, h.entries⟩
      rcases Array.mem_or_eq_of_mem_setIfInBounds member with old | rfl
      · exact h.array w old
      · exact value
  next =>
    split
    · exact ⟨h.array, fun e member => h.entries e (mem_eraseEntry member)⟩
    split
    · refine Holds.absorb ⟨fun w member => ?_, fun e member =>
        h.entries e (mem_eraseEntry member)⟩ _
      rcases Array.mem_push.mp member with old | rfl
      · exact h.array w old
      · exact value
    · refine ⟨h.array, fun e member => ?_⟩
      rcases mem_putEntry member with rfl | old
      · exact ⟨key, value⟩
      · exact h.entries e old

theorem Holds.items (h : t.Holds p) : ∀ e ∈ t.items, p e.1 ∧ p e.2 := by
  refine List.forall_mem_append.mpr ⟨?_, h.entries⟩
  intro e member
  obtain ⟨⟨v, k⟩, inside, rfl⟩ := List.mem_map.mp member
  exact ⟨positions _, h.array v (Array.mem_toList_iff.mp (List.fst_mem_of_mem_zipIdx inside))⟩

end

end MiniLua.Table

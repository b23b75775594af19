import MiniLua.Proofs.Table.Listing

/-!
# Filing entries

A dictionary files each entry under the identity of a key: its content, or the object that it refers
to. Overwriting an entry replaces its key too and leaves the identity it is filed under as it was, so
the two could drift apart. They do not: every entry is filed under the identity of the key it
stores, and without the identities the dictionary is the list of entries of the table.
-/

namespace MiniLua

/-- What tells a key from others: its kind and content, or the object that it refers to. -/
inductive Identity where
  | bool (value : Bool)
  | string (text : String)
  | number (value : Float)
  | object (target : Ref)
  | builtin (function : Builtin)

namespace Identity

/-- How a dictionary compares identities: numbers by value, so that the two zeros are one. -/
def same : Identity → Identity → Bool
  | bool a, bool b => a == b
  | string a, string b => a == b
  | number a, number b => a == b
  | object a, object b => a == b
  | builtin a, builtin b => a == b
  | _, _ => false

end Identity

/-- Nil is never filed, and a list has no identity. -/
def Value.identity? : Value → Option Identity
  | .nil => none
  | .bool b => some (.bool b)
  | .string text => some (.string text)
  | .number x => some (.number x)
  | .ref r => some (.object r)
  | .builtin f => some (.builtin f)
  | .list _ => none

namespace Table

/-- Entries, each with the identity it is filed under. -/
abbrev Files := List (Identity × (Value × Value))

namespace Files

def find (i : Identity) (fs : Files) : Option (Value × Value) :=
  (List.find? (fun f => f.1.same i) fs).map (·.2)

def pop (i : Identity) (fs : Files) : Files := List.eraseP (fun f => f.1.same i) fs

/-- An entry of this identity is replaced and stays filed as it was; else the entry comes last. -/
def put (i : Identity) (e : Value × Value) : Files → Files
  | [] => [(i, e)]
  | f :: fs => if f.1.same i then (f.1, e) :: fs else f :: put i e fs

/-- Values filed one after another under the positions from `first` on. -/
def putTail (first : Nat) : List Value → Files → Files
  | [], fs => fs
  | v :: values, fs =>
    putTail (first + 1) values (put (.number (Float.ofNat first)) (positionKey first, v) fs)

/-- The entries without what they are filed under. -/
def entries (fs : Files) : Entries := fs.map (·.2)

end Files

/-- A table whose other entries are kept in a dictionary. -/
structure Cabinet where
  array : Array Value
  files : Files

namespace Cabinet

def empty : Cabinet := ⟨#[], []⟩

/-- Pulls entries into the array while one continues it, at most `fuel` of them. -/
def migrate : Nat → Cabinet → Cabinet
  | 0, c => c
  | fuel + 1, c =>
    let next := Identity.number (Float.ofNat (c.array.size + 1))
    match c.files.find next with
    | none => c
    | some e => migrate fuel ⟨c.array.push e.2, c.files.pop next⟩

/-- A write under a key of this identity. -/
def writeAs (i : Identity) (c : Cabinet) (k v : Value) : Cabinet :=
  match (position? k).filter (· ≤ c.array.size) with
  | some p =>
    if v.isNil then
      ⟨c.array.shrink (p - 1), c.files.putTail (p + 1) (c.array.extract p).toList⟩
    else { c with array := c.array.setIfInBounds (p - 1) v }
  | none =>
    if v.isNil then { c with files := c.files.pop i }
    else if position? k = some (c.array.size + 1) then
      migrate c.files.length ⟨c.array.push v, c.files.pop i⟩
    else { c with files := c.files.put i (k, v) }

/-- A write that may be refused: under nil, NaN or a list. -/
def attempt (c : Cabinet) (op : Value × Value) : Cabinet :=
  match op.1.identity?, keyFault? op.1 with
  | some i, none => c.writeAs i op.1 op.2
  | _, _ => c

def ofWrites (ops : List (Value × Value)) : Cabinet := ops.foldl attempt empty

end Cabinet

/-! ## Identities and equal keys -/

variable {a b c : Identity} {i : Identity} {k k' v : Value} {fs : Files}

/-- The key that is nothing but an identity. -/
def ofIdentity : Identity → Value
  | .bool b => .bool b
  | .string text => .string text
  | .number x => .number x
  | .object r => .ref r
  | .builtin f => .builtin f

theorem identity?_ofIdentity (i : Identity) : (ofIdentity i).identity? = some i := by
  cases i <;> rfl

/-- Keys are equal if their identities are the same. -/
theorem same_eq_rawEq (hk : k.identity? = some a) (hk' : k'.identity? = some b) :
    a.same b = k.rawEq k' := by
  cases k <;> cases hk <;> cases k' <;> cases hk' <;> rfl

theorem same_congr (h : a.same b = true) (c : Identity) : a.same c = b.same c := by
  have first := identity?_ofIdentity a
  have second := identity?_ofIdentity b
  have third := identity?_ofIdentity c
  simp only [same_eq_rawEq first second, same_eq_rawEq first third, same_eq_rawEq second third]
    at h ⊢
  exact Value.rawEq_congr h _

theorem exists_identity (single : k.isList = false) (allowed : keyFault? k = none) :
    ∃ i, k.identity? = some i := by
  cases k with
  | nil => cases allowed
  | list vs => cases single
  | _ => exact ⟨_, rfl⟩

theorem same_self (allowed : keyFault? k = none) (hk : k.identity? = some i) :
    i.same i = true := by
  rw [same_eq_rawEq hk hk]
  refine rawEq_self allowed ?_
  cases k <;> first | rfl | cases hk

/-! ## Dictionaries and lists of entries -/

/-- Every entry is filed under the identity of the key that it stores. -/
def Filed (fs : Files) : Prop := ∀ f ∈ fs, ∃ i, f.2.1.identity? = some i ∧ f.1.same i = true

theorem Filed.cons {f : Identity × (Value × Value)} (filed : Filed (f :: fs)) :
    (∃ i, f.2.1.identity? = some i ∧ f.1.same i = true) ∧ Filed fs :=
  List.forall_mem_cons.mp filed

section

variable (filed : Filed fs) (hk : k.identity? = some i)
include filed hk

/-- Looking for an identity among what is filed is looking for the key among what is stored. -/
theorem same_stored {f : Identity × (Value × Value)} (hf : f ∈ fs) :
    f.1.same i = f.2.1.rawEq k := by
  obtain ⟨stored, hstored, own⟩ := filed f hf
  rw [same_congr own, same_eq_rawEq hstored hk]

theorem find_eq_findEntry : fs.find i = findEntry k fs.entries := by
  induction fs with
  | nil => rfl
  | cons f fs ih =>
    have own := same_stored filed hk List.mem_cons_self
    have rest := ih filed.cons.2
    simp only [Files.find, Files.entries, findEntry, List.find?_cons, List.map_cons] at rest ⊢
    rw [own]
    cases f.2.1.rawEq k with
    | true => rfl
    | false => exact rest

theorem entries_pop : (fs.pop i).entries = eraseEntry k fs.entries := by
  induction fs with
  | nil => rfl
  | cons f fs ih =>
    have own := same_stored filed hk List.mem_cons_self
    have rest := ih filed.cons.2
    simp only [Files.pop, Files.entries, eraseEntry, List.eraseP_cons, List.map_cons] at rest ⊢
    rw [own]
    cases f.2.1.rawEq k with
    | true => rfl
    | false => exact congrArg (f.2 :: ·) rest

theorem entries_put : (fs.put i (k, v)).entries = putEntry k v fs.entries := by
  induction fs with
  | nil => rfl
  | cons f fs ih =>
    have own := same_stored filed hk List.mem_cons_self
    have rest := ih filed.cons.2
    simp only [Files.put, Files.entries, putEntry, List.map_cons] at rest ⊢
    rw [own]
    cases f.2.1.rawEq k with
    | true => rfl
    | false => exact congrArg (f.2 :: ·) rest

omit hk in
theorem filed_pop (i : Identity) : Filed (fs.pop i) :=
  fun f hf => filed f (List.mem_of_mem_eraseP hf)

/-- The entry that replaces another stays filed under an identity that its own key has too. -/
theorem filed_put (allowed : keyFault? k = none) : Filed (fs.put i (k, v)) := by
  induction fs with
  | nil =>
    intro f hf
    obtain rfl := List.mem_singleton.mp hf
    exact ⟨i, hk, same_self allowed hk⟩
  | cons f fs ih =>
    obtain ⟨own, rest⟩ := filed.cons
    simp only [Files.put]
    split
    next here => exact List.forall_mem_cons.mpr ⟨⟨i, hk, here⟩, rest⟩
    next => exact List.forall_mem_cons.mpr ⟨own, ih rest⟩

end

theorem filed_putTail (filed : Filed fs) (first : Nat) (values : List Value) :
    Filed (fs.putTail first values) ∧
      (fs.putTail first values).entries = putTail first values fs.entries := by
  induction values generalizing first fs with
  | nil => exact ⟨filed, rfl⟩
  | cons v values ih =>
    have hk : (positionKey first).identity? = some (.number (Float.ofNat first)) := rfl
    have allowed := keyFault?_positionKey first
    obtain ⟨filed', same⟩ := ih (filed_put filed hk (v := v) allowed) (first + 1)
    refine ⟨filed', ?_⟩
    rw [putTail_cons, ← entries_put filed hk]
    exact same

/-! ## Cabinets and tables -/

/-- The dictionary holds the entries of the table, each filed under the identity of its key. -/
structure Cabinet.Keeps (c : Cabinet) (t : Table) : Prop where
  array : c.array = t.array
  entries : c.files.entries = t.entries
  filed : Filed c.files

namespace Cabinet.Keeps

variable {c : Cabinet} {t : Table}

theorem empty : Cabinet.empty.Keeps Table.empty := ⟨rfl, rfl, nofun⟩

theorem migrate (keeps : c.Keeps t) (fuel : Nat) : (c.migrate fuel).Keeps (absorb fuel t) := by
  induction fuel generalizing c t with
  | zero => exact keeps
  | succ fuel ih =>
    obtain ⟨array, files⟩ := c
    obtain ⟨_, _⟩ := t
    obtain ⟨rfl, rfl, filed⟩ := keeps
    have hk : (positionKey (array.size + 1)).identity? =
      some (.number (Float.ofNat (array.size + 1))) := rfl
    have same := find_eq_findEntry filed hk
    simp only [Cabinet.migrate, absorb]
    cases found : findEntry (positionKey (array.size + 1)) files.entries with
    | none =>
      simp only [same, found]
      exact ⟨rfl, rfl, filed⟩
    | some e =>
      simp only [same, found]
      exact ih ⟨rfl, entries_pop filed hk, filed_pop filed _⟩

theorem writeAs (keeps : c.Keeps t) (hk : k.identity? = some i) (allowed : keyFault? k = none) :
    (c.writeAs i k v).Keeps (t.insert k v) := by
  obtain ⟨array, files⟩ := c
  obtain ⟨_, _⟩ := t
  obtain ⟨rfl, rfl, filed⟩ := keeps
  simp only [Cabinet.writeAs, insert, inArray]
  cases (position? k).filter (· ≤ array.size) with
  | some p =>
    by_cases hv : v.isNil = true
    · obtain ⟨filed', same⟩ := filed_putTail filed (p + 1) (array.extract p).toList
      simp only [if_pos hv]
      exact ⟨rfl, same, filed'⟩
    · simp only [if_neg hv]
      exact ⟨rfl, rfl, filed⟩
  | none =>
    have popped := entries_pop filed hk
    by_cases hv : v.isNil = true
    · simp only [if_pos hv]
      exact ⟨rfl, popped, filed_pop filed i⟩
    by_cases next : position? k = some (array.size + 1)
    · have length : files.entries.length = files.length := List.length_map _
      simp only [if_neg hv, if_pos next, length]
      exact migrate ⟨rfl, popped, filed_pop filed i⟩ files.length
    · simp only [if_neg hv, if_neg next]
      exact ⟨rfl, entries_put filed hk, filed_put filed hk allowed⟩

theorem attempt (keeps : c.Keeps t) (single : k.isList = false) :
    (c.attempt (k, v)).Keeps (t.attempt (k, v)) := by
  cases fault : keyFault? k with
  | some e =>
    have refused : c.attempt (k, v) = c := by
      unfold Cabinet.attempt
      split
      next allowed => simp [fault] at allowed
      next => rfl
    rw [attempt_of_fault fault, refused]
    exact keeps
  | none =>
    obtain ⟨i, hk⟩ := exists_identity single fault
    rw [attempt_of_allowed fault]
    simpa only [Cabinet.attempt, hk, fault] using keeps.writeAs hk fault

/-- Whatever is written, each entry stays filed under the identity of the key it stores. -/
theorem ofWrites {ops : List (Value × Value)} (single : ∀ op ∈ ops, op.1.isList = false) :
    (Cabinet.ofWrites ops).Keeps (Table.ofWrites ops) := by
  induction ops using List.reverseRecOn with
  | nil => exact empty
  | append_singleton ops op ih =>
    obtain ⟨before, own⟩ := List.forall_mem_append.mp single
    have last : Cabinet.ofWrites (ops ++ [op]) = (Cabinet.ofWrites ops).attempt op := by
      simp [Cabinet.ofWrites]
    rw [last, ofWrites_concat]
    exact (ih before).attempt (own op List.mem_cons_self)

end Cabinet.Keeps

end Table

end MiniLua

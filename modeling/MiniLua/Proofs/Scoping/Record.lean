import MiniLua.Proofs.Scoping.Watch

/-!
# What a record says of a machine

Records only grow, and what they say of a scope stays true. A consistent record knows the declaration
of every frame and the function expression of every closure; every sighting in it was made in the
scope that its occurrence calls for.
-/

namespace MiniLua

namespace Record

/-! ## Growing -/

/-- Nothing that was recorded is lost. Sightings are not spoken of. -/
structure Grows (r r' : Record) : Prop where
  programs : r.programs <+: r'.programs
  layers : r.layers <+: r'.layers
  closures : r.closures <+: r'.closures

theorem Grows.refl (r : Record) : r.Grows r := ⟨List.prefix_rfl, List.prefix_rfl, List.prefix_rfl⟩

theorem Grows.trans {r r' r'' : Record} (h : r.Grows r') (h' : r'.Grows r'') : r.Grows r'' :=
  ⟨h.programs.trans h'.programs, h.layers.trans h'.layers, h.closures.trans h'.closures⟩

/-- Grown by steps of the chunk that is running. -/
structure Advances (r r' : Record) : Prop extends Grows r r' where
  chunks : r'.programs = r.programs

theorem Advances.refl (r : Record) : r.Advances r := ⟨.refl r, rfl⟩

theorem Advances.trans {r r' r'' : Record} (h : r.Advances r') (h' : r'.Advances r'') :
    r.Advances r'' :=
  ⟨h.toGrows.trans h'.toGrows, h'.chunks.trans h.chunks⟩

theorem getElem?_of_prefix {α : Type} {l l' : List α} {i : Nat} {a : α} (h : l <+: l')
    (known : l[i]? = some a) : l'[i]? = some a := by
  obtain ⟨rest, rfl⟩ := h
  rw [List.getElem?_append_left (List.getElem?_eq_some_iff.mp known).1, known]

theorem Grows.layer? {r r' : Record} {id : FrameId} {layer : Layer} (h : r.Grows r')
    (known : r.layer? id = some layer) : r'.layer? id = some layer := by
  cases id with
  | zero => cases known
  | succ id => exact getElem?_of_prefix h.layers known

theorem Grows.at? {r r' : Record} {spot : Spot} {found : List Layer × Node} (h : r.Grows r')
    (known : r.at? spot = some found) : r'.at? spot = some found := by
  obtain ⟨program, there, inside⟩ := Option.bind_eq_some_iff.mp known
  exact Option.bind_eq_some_iff.mpr ⟨program, getElem?_of_prefix h.programs there, inside⟩

/-! ## Scopes and occurrences -/

/-- The frames of a scope, the global one at its end, are frames of these declarations. -/
inductive Encloses (r : Record) : Scope → List Layer → Prop
  | globals : Encloses r [0] []
  | frame {id : FrameId} {layer : Layer} {scope : Scope} {layers : List Layer} :
    r.layer? id = some layer → Encloses r scope layers → Encloses r (id :: scope) (layer :: layers)

theorem Encloses.grows {r r' : Record} {scope : Scope} {layers : List Layer}
    (h : r.Encloses scope layers) (grows : r.Grows r') : r'.Encloses scope layers := by
  induction h with
  | globals => exact .globals
  | frame known _ ih => exact .frame (grows.layer? known) ih

theorem Encloses.root {r : Record} {scope : Scope} {layers : List Layer}
    (h : r.Encloses scope layers) : Frames.root scope = 0 := by
  induction h with
  | globals => rfl
  | @frame id layer scope layers _ h ih =>
    cases h with
    | globals => rfl
    | frame _ _ => simpa [Frames.root] using ih

/-- The scope is the one that this node calls for at its spot. -/
def Stands (r : Record) (spot : Spot) (node : Node) (scope : Scope) : Prop :=
  ∃ layers, r.at? spot = some (layers, node) ∧ r.Encloses scope layers

section

variable {r r' : Record} {spot : Spot} {node child : Node} {scope : Scope} {i : Nat}

theorem Stands.grows (h : r.Stands spot node scope) (grows : r.Grows r') :
    r'.Stands spot node scope := by
  obtain ⟨layers, there, framed⟩ := h
  exact ⟨layers, grows.at? there, framed.grows grows⟩

theorem Stands.root (h : r.Stands spot node scope) : Frames.root scope = 0 := by
  obtain ⟨layers, -, framed⟩ := h
  exact framed.root

theorem at?_part {layers : List Layer} {names : Option (List String)}
    (there : r.at? spot = some (layers, node)) (inside : node.parts[i]? = some (names, child)) :
    r.at? (spot.part i) = some ((names.map fun names => ⟨spot, names⟩).toList ++ layers, child) := by
  obtain ⟨program, running, there⟩ := Option.bind_eq_some_iff.mp there
  refine Option.bind_eq_some_iff.mpr ⟨program, running, ?_⟩
  simp [Spot.part, Block.at?, there, inside]

/-- A part without names of its own is evaluated in the same scope. -/
theorem Stands.part (h : r.Stands spot node scope) (inside : node.parts[i]? = some (none, child)) :
    r.Stands (spot.part i) child scope := by
  obtain ⟨layers, there, framed⟩ := h
  exact ⟨layers, at?_part there inside, framed⟩

/-- A part with names of its own is evaluated in a frame of theirs. -/
theorem Stands.inner {names : List String} {id : FrameId} (h : r.Stands spot node scope)
    (inside : node.parts[i]? = some (some names, child)) (known : r.layer? id = some ⟨spot, names⟩) :
    r.Stands (spot.part i) child (id :: scope) := by
  obtain ⟨layers, there, framed⟩ := h
  exact ⟨_, at?_part there inside, .frame known framed⟩

end

/-! ## Consistency -/

/-- If the frame has a declaration, it binds the names of it and no others. -/
def Binds (r : Record) (frames : Frames) (id : FrameId) : Prop :=
  ∀ layer, r.layer? id = some layer → ∀ n, (frames.bindings id).binds n = true ↔ n ∈ layer.names

/-- A name was seen in the scope that its occurrence calls for. -/
structure Faithful (r : Record) (s : Sighting) : Prop where
  stands : ∃ node, r.Stands s.spot node s.scope ∧ node.name? = some s.name
  binds : ∀ id ∈ s.scope, r.Binds s.frames id

structure Consistent (r : Record) (m : Machine) : Prop where
  frames : m.frames.size = r.layers.length + 1
  binds : ∀ id, r.Binds m.frames id
  functions : m.functions.size = r.closures.length
  closures : ∀ (id : Nat) (f : Closure) (spot : Spot), m.functions[id]? = some f →
    r.closures[id]? = some spot →
    ∃ name line, r.Stands spot (.lambda (.mk f.params f.body name line)) f.scope
  sightings : ∀ s ∈ r.sightings, r.Faithful s

theorem Encloses.known {r : Record} {scope : Scope} {layers : List Layer}
    (h : r.Encloses scope layers) {id : FrameId} (inside : id ∈ scope) :
    id = 0 ∨ ∃ layer, r.layer? id = some layer := by
  induction h with
  | globals => exact .inl (List.mem_singleton.mp inside)
  | frame known _ ih =>
    rcases List.mem_cons.mp inside with rfl | inside
    · exact .inr ⟨_, known⟩
    · exact ih inside

theorem Faithful.grows {r r' : Record} {s : Sighting} (h : r.Faithful s) (grows : r.Grows r') :
    r'.Faithful s := by
  obtain ⟨⟨node, stands, name⟩, binds⟩ := h
  refine ⟨⟨node, stands.grows grows, name⟩, ?_⟩
  intro id inside layer known
  obtain ⟨layers, -, framed⟩ := stands
  rcases framed.known inside with rfl | ⟨earlier, there⟩
  · cases known
  · obtain rfl : earlier = layer := Option.some.inj ((grows.layer? there).symm.trans known)
    exact binds id inside earlier there

/-- The record of a machine that has not changed. -/
theorem Consistent.grows {r r' : Record} {m : Machine} (h : r.Consistent m) (grows : r.Grows r')
    (layers : r'.layers = r.layers) (closures : r'.closures = r.closures)
    (sightings : ∀ s ∈ r'.sightings, s ∈ r.sightings ∨ r'.Faithful s) : r'.Consistent m where
  frames := by rw [layers, h.frames]
  binds := by
    intro id layer known
    refine h.binds id layer ?_
    cases id with
    | zero => exact known
    | succ id => simpa [layer?, layers] using known
  functions := by rw [closures, h.functions]
  closures := by
    intro id f spot made origin
    rw [closures] at origin
    obtain ⟨name, line, stands⟩ := h.closures id f spot made origin
    exact ⟨name, line, stands.grows grows⟩
  sightings := by
    intro s seen
    rcases sightings s seen with earlier | new
    · exact (h.sightings s earlier).grows grows
    · exact new

end Record

end MiniLua

import MiniLua.Proofs.Scoping.Keeping
import MiniLua.Proofs.Scoping.Record

/-!
# Tracking

A watched step tracks a plain one if it ends the same way in the same machine and leaves a record
that is still consistent. Steps that make no frame and no closure are tracked by themselves; the
others are tracked rule by rule.
-/

namespace MiniLua

variable {α β : Type}

/-- The watched outcome is the plain one beside a good record; `post` speaks of the record and the
value given. -/
inductive Mirrors (good : Record → Machine → Prop) (post : Record → α → Prop) :
    EStateM.Result Halt Machine α → EStateM.Result Halt (Machine × Record) α → Prop
  | ok {a : α} {m : Machine} {r : Record} :
    good r m → post r a → Mirrors good post (.ok a m) (.ok a (m, r))
  | error {e : Halt} {m : Machine} {r : Record} :
    good r m → Mirrors good post (.error e m) (.error e (m, r))

theorem Mirrors.imp {good good' : Record → Machine → Prop} {post : Record → α → Prop}
    {plain : EStateM.Result Halt Machine α} {watched : EStateM.Result Halt (Machine × Record) α}
    (h : Mirrors good post plain watched) (better : ∀ r m, good r m → good' r m) :
    Mirrors good' post plain watched := by
  cases h with
  | ok fine holds => exact .ok (better _ _ fine) holds
  | error fine => exact .error (better _ _ fine)

/-- From every consistent record that this one has grown into, the watched step ends as the plain
one does, and leaves a consistent record. -/
def Tracks (r : Record) (x : Eval α) (y : Watched α) (post : Record → α → Prop) : Prop :=
  ∀ (r₁ : Record) (m : Machine), r.Grows r₁ → r₁.Consistent m →
    Mirrors (fun r' m' => r₁.Advances r' ∧ r'.Consistent m') post (x m) (y (m, r₁))

/-- Tracking where nothing is said of the value. -/
abbrev Follows (r : Record) (x : Eval α) (y : Watched α) : Prop := Tracks r x y fun _ _ => True

/-- The calls of a watched engine follow those of a plain one. -/
structure EngineFollows (e : Engine) (w : WatchedEngine) : Prop where
  call : ∀ r id args, Follows r (e.call id args) (w.call id args)
  loopLimit : w.loopLimit = e.loopLimit

theorem Record.Consistent.kept {r : Record} {m m' : Machine} (h : r.Consistent m)
    (kept : m.Kept m') : r.Consistent m' where
  frames := kept.size.trans h.frames
  binds := by
    intro id layer known n
    cases id with
    | zero => cases known
    | succ id =>
      rw [kept.names (id + 1) (by simp)]
      exact h.binds (id + 1) layer known n
  functions := by rw [kept.functions, h.functions]
  closures := by rw [kept.functions]; exact h.closures
  sightings := h.sightings

namespace Tracks

variable {r : Record} {post : Record → α → Prop}

theorem grows {r' : Record} {x : Eval α} {y : Watched α} (h : Tracks r x y post)
    (grows : r.Grows r') : Tracks r' x y post :=
  fun r₁ m later consistent => h r₁ m (grows.trans later) consistent

theorem pure {a : α} (h : ∀ r', r.Grows r' → post r' a) : Tracks r (pure a) (pure a) post :=
  fun r₁ _ grows consistent => .ok ⟨.refl r₁, consistent⟩ (h r₁ grows)

theorem done {a : α} : Follows r (Pure.pure a) (Pure.pure a) := .pure fun _ _ => trivial

theorem throw (e : Halt) : Tracks r (throw e) (throw e) post :=
  fun r₁ _ _ consistent => .error ⟨.refl r₁, consistent⟩

theorem bind {x : Eval α} {y : Watched α} {f : α → Eval β} {g : α → Watched β}
    {post' : Record → β → Prop} (first : Tracks r x y post)
    (rest : ∀ r' a, r.Grows r' → post r' a → Tracks r' (f a) (g a) post') :
    Tracks r (x >>= f) (y >>= g) post' := by
  intro r₁ m grows consistent
  have tracked := first r₁ m grows consistent
  change Mirrors _ _ (EStateM.bind x f m) (EStateM.bind y g (m, r₁))
  unfold EStateM.bind
  generalize x m = plain at tracked ⊢
  generalize y (m, r₁) = watched at tracked ⊢
  cases tracked with
  | error fine => exact .error fine
  | @ok a m' r' fine holds =>
    obtain ⟨later, consistent'⟩ := fine
    have next := rest r' a (grows.trans later.toGrows) holds r' m' (.refl r') consistent'
    exact next.imp fun _ _ fine => ⟨later.trans fine.1, fine.2⟩

theorem map {x : Eval α} {y : Watched α} (h : Tracks r x y post) (f : α → β) :
    Follows r (x >>= fun a => Pure.pure (f a)) (y >>= fun a => Pure.pure (f a)) :=
  h.bind fun _ _ _ _ => .done

theorem lift {x : Eval α} (keeps : x.Keeps) : Follows r x (Watched.lift x) := by
  intro r₁ m _ consistent
  have kept := keeps m
  unfold Eval.final at kept
  unfold Watched.lift
  cases hx : x m with
  | error e m' => exact .error ⟨.refl r₁, consistent.kept (by simpa only [hx] using kept)⟩
  | ok a m' => exact .ok ⟨.refl r₁, consistent.kept (by simpa only [hx] using kept)⟩ trivial

theorem aside {x : Eval α} (h : x.IsAside) : Follows r x (Watched.lift x) := lift h.keeps

theorem atLine {x : Eval α} {y : Watched α} (line : Nat) (h : Tracks r x y post) :
    Tracks r (Eval.atLine line x) (Watched.atLine line y) post := by
  intro r₁ m grows consistent
  have tracked := h r₁ m grows consistent
  unfold Eval.atLine Watched.atLine
  generalize x m = plain at tracked ⊢
  generalize y (m, r₁) = watched at tracked ⊢
  cases tracked with
  | ok fine holds => exact .ok fine holds
  | @error e m' r' fine =>
    cases e with
    | fault error l => cases l <;> exact .error fine
    | _ => exact .error fine

theorem deeper {x : Eval α} {y : Watched α} (h : Tracks r x y post) :
    Tracks r (Eval.deeper x) (Watched.deeper y) post := by
  intro r₁ m grows consistent
  have tracked := h r₁ { m with depth := m.depth + 1 } grows
    (consistent.kept ⟨rfl, fun _ _ _ => rfl, rfl⟩)
  unfold Eval.deeper Watched.deeper
  dsimp only
  generalize x { m with depth := m.depth + 1 } = plain at tracked ⊢
  generalize y ({ m with depth := m.depth + 1 }, r₁) = watched at tracked ⊢
  cases tracked with
  | ok fine holds => exact .ok ⟨fine.1, fine.2.kept ⟨rfl, fun _ _ _ => rfl, rfl⟩⟩ holds
  | error fine => exact .error ⟨fine.1, fine.2.kept ⟨rfl, fun _ _ _ => rfl, rfl⟩⟩

theorem single {x : Eval Value} {y : Watched Value} (h : Follows r x y) :
    Follows r (Eval.single x) (Watched.single y) := h.map _

/-! ## Names, frames and closures -/

section

variable {spot : Spot} {node : Node} {scope : Scope}

/-- A sighting is a step of the watch alone. -/
theorem see {name : String} {x : Eval α} {y : Watched α} (stands : r.Stands spot node scope)
    (named : node.name? = some name) (h : Tracks r x y post) :
    Tracks r x (do Watched.see spot name scope; y) post := by
  intro r₁ m grows consistent
  let r₂ : Record := { r₁ with sightings := ⟨spot, name, scope, m.frames⟩ :: r₁.sightings }
  have grown : r₁.Advances r₂ := ⟨⟨List.prefix_rfl, List.prefix_rfl, List.prefix_rfl⟩, rfl⟩
  have consistent' : r₂.Consistent m := by
    refine consistent.grows grown.toGrows rfl rfl fun s seen => ?_
    rcases List.mem_cons.mp seen with rfl | seen
    · exact .inr ⟨⟨node, (stands.grows grows).grows grown.toGrows, named⟩,
        fun id _ => consistent.binds id⟩
    · exact .inl seen
  have tracked := h r₂ m (grows.trans grown.toGrows) consistent'
  exact tracked.imp fun _ _ fine => ⟨grown.trans fine.1, fine.2⟩

theorem fault (error : RuntimeError) :
    Tracks r (Eval.fault error) (Watched.lift (Eval.fault error)) post := Tracks.throw _

theorem faultAt {e : Expr} (line : Nat) (error : Origin → RuntimeError)
    (stands : r.Stands spot (.expr e) scope) :
    Follows r (Eval.faultAt line scope e error : Eval α)
      (Watched.faultAt line spot scope e error) := by
  have described : Follows r (Eval.faultAt line scope e error : Eval α)
      (Watched.lift (Eval.faultAt line scope e error)) := aside (Eval.aside_faultAt _ _ _ _)
  cases e with
  | name n l => exact see stands rfl described
  | _ => exact described

theorem pushFrame {layer : Layer} {bs : Bindings}
    (names : ∀ n, bs.binds n = true ↔ n ∈ layer.names) :
    Tracks r (Eval.pushFrame scope bs) (Watched.pushFrame layer scope bs)
      fun r' scope' => ∃ id, scope' = id :: scope ∧ r'.layer? id = some layer := by
  intro r₁ m _ consistent
  let r₂ : Record := { r₁ with layers := r₁.layers ++ [layer] }
  have grown : r₁.Advances r₂ :=
    ⟨⟨List.prefix_rfl, List.prefix_append _ _, List.prefix_rfl⟩, rfl⟩
  have last : r₂.layer? m.frames.size = some layer := by
    simp [consistent.frames, Record.layer?, r₂]
  refine .ok ⟨grown, ?_⟩ ⟨m.frames.size, rfl, last⟩
  exact
    { frames := by simp [consistent.frames]
      binds := by
        intro id layer' known n
        change (Frames.bindings (Array.push m.frames bs) id).binds n = true ↔ _
        rw [Frames.bindings_push]
        split
        next same =>
          subst same
          obtain rfl : layer = layer' := Option.some.inj (last.symm.trans known)
          exact names n
        next other =>
          refine consistent.binds id layer' ?_ n
          cases id with
          | zero => exact known
          | succ id =>
            have inside := (List.getElem?_eq_some_iff.mp known).1
            have different : id ≠ r₁.layers.length := fun same => other (by rw [consistent.frames, same])
            have earlier : id < r₁.layers.length := by
              simp only [List.length_append, List.length_singleton] at inside
              omega
            simpa [Record.layer?, r₂, List.getElem?_append, earlier] using known
      functions := consistent.functions
      closures := fun id f spot made origin => by
        obtain ⟨name, line, stands⟩ := consistent.closures id f spot made origin
        exact ⟨name, line, stands.grows grown.toGrows⟩
      sightings := fun s seen => (consistent.sightings s seen).grows grown.toGrows }

theorem closureOf {f : Lambda} (stands : r.Stands spot (.lambda f) scope) :
    Follows r (Eval.closureOf scope f) (Watched.closureOf spot scope f) := by
  obtain ⟨params, body, name, line⟩ := f
  intro r₁ m grows consistent
  let r₂ : Record := { r₁ with closures := r₁.closures ++ [spot] }
  have grown : r₁.Advances r₂ :=
    ⟨⟨List.prefix_rfl, List.prefix_rfl, List.prefix_append _ _⟩, rfl⟩
  refine .ok ⟨grown, ?_⟩ trivial
  exact
    { frames := consistent.frames
      binds := consistent.binds
      functions := by simp [consistent.functions]
      closures := by
        intro id f spot' made origin
        rcases Nat.lt_trichotomy id r₁.closures.length with earlier | rfl | beyond
        · obtain ⟨name, line, stands⟩ := consistent.closures id f spot'
            (by simpa [Array.getElem?_push, consistent.functions, Nat.ne_of_lt earlier] using made)
            (by simpa [r₂, List.getElem?_append, earlier] using origin)
          exact ⟨name, line, stands.grows grown.toGrows⟩
        · obtain rfl : spot = spot' := by simpa [r₂] using origin
          rw [← consistent.functions] at made
          obtain rfl : _ = f := Option.some.inj (Array.getElem?_push_size.symm.trans made)
          exact ⟨name, line, (stands.grows grows).grows grown.toGrows⟩
        · have outside := (List.getElem?_eq_some_iff.mp origin).1
          simp at outside
          omega
      sightings := fun s seen => (consistent.sightings s seen).grows grown.toGrows }

end

end Tracks

end MiniLua

import MiniLua.Proofs.Journal.Invariants

/-!
# Recording

An observed step records a plain one if it ends the same way in the same machine, and all that it has
added to the journal is in order: at every moment the depth is the number of bodies that are running,
and the step has met the limit on the depth exactly if it has called a function with all of it used up.
That values are single and scopes lead to the global frame is known where it was so at the start.
-/

namespace MiniLua

variable {α β : Type}

/-- What is known where a step begins: which bodies are running, and how many may. If the run is
orderly, its values are within the texts. -/
structure Setting where
  orderly : Prop
  given : List String
  max : Nat
  running : List Nat
  bound : running.length ≤ max

/-- A moment at which the depth is accounted for, in order if the run is. -/
structure Entry.Good (orderly : Prop) (given : List String) (max : Nat) (entry : Entry) : Prop where
  depth : entry.machine.depth = entry.running.length
  bound : entry.running.length ≤ max
  sound : orderly → entry.machine.Sound given entry.parents ∧ entry.event.Fine given

/-- A function is called while as many bodies are running as may. -/
def Entry.Overflows (max : Nat) (entry : Entry) : Prop :=
  entry.running.length = max ∧ entry.event.Calls

def Overflowing (max : Nat) (entries : List Entry) : Prop := ∃ entry ∈ entries, entry.Overflows max

theorem overflows_append {max : Nat} {new new' : List Entry} :
    Overflowing max (new ++ new') ↔ Overflowing max new ∨ Overflowing max new' := by
  simp only [Overflowing, List.mem_append, or_and_right, exists_or]

theorem calm_nil {max : Nat} : ¬ Overflowing max [] := nofun

theorem overflows_singleton {max : Nat} {entry : Entry} :
    Overflowing max [entry] ↔ entry.Overflows max := by
  simp only [Overflowing, List.mem_singleton, exists_eq_left]

theorem calm_stepped {max : Nat} {m : Machine} {running : List Nat} {parents : List FrameId} :
    ¬ Overflowing max [⟨.stepped, m, running, parents⟩] := by
  rw [overflows_singleton]
  exact fun ⟨_, _, _, called⟩ => nomatch called

namespace Setting

variable (c : Setting)

/-- Inside the body of one more function. -/
def inside (id : Nat) (room : c.running.length < c.max) : Setting :=
  { c with running := id :: c.running, bound := room }

abbrev Good (entry : Entry) : Prop := entry.Good c.orderly c.given c.max

/-! What is known of texts, values and scopes of an orderly run. -/

def Knows (texts : List String) : Prop := c.orderly → ∀ text ∈ texts, text ∈ c.given

def One (v : Value) : Prop := c.orderly → v.Within c.given

def Several (vs : List Value) : Prop := c.orderly → AllWithin c.given vs

def Gives (e : Expr) (v : Value) : Prop := c.orderly → e.Gives c.given v

def Scoped (parents : List FrameId) (scope : Scope) : Prop := c.orderly → Rooted parents scope

/-- How a statement ends: with single values, in a scope that leads to the global frame. -/
def Ends (parents : List FrameId) (out : Signal × Scope) : Prop :=
  (c.orderly → out.1.Within c.given) ∧ c.Scoped parents out.2

/-- A machine and a journal that a step may begin with, where these frames at least exist. -/
structure Ready (parents : List FrameId) (m : Machine) (j : Journal) : Prop where
  running : j.running = c.running
  depth : m.depth = c.running.length
  parents : parents <+: j.parents
  sound : c.orderly → m.Sound c.given j.parents

/-- The journal goes on with these entries. -/
structure Continues (j : Journal) (new : List Entry) (m : Machine) (j' : Journal) : Prop where
  entries : j'.entries = new ++ j.entries
  good : ∀ entry ∈ new, c.Good entry
  running : j'.running = c.running
  depth : m.depth = c.running.length
  parents : j.parents <+: j'.parents
  sound : c.orderly → m.Sound c.given j'.parents

end Setting

namespace Setting

variable {c : Setting} {parents : List FrameId} {m m' m'' : Machine} {j j' j'' : Journal}
variable {new new' : List Entry} {event : Event}

theorem Knows.append {texts texts' : List String} (h : c.Knows (texts ++ texts')) :
    c.Knows texts ∧ c.Knows texts' :=
  ⟨fun o => (List.forall_mem_append.mp (h o)).1, fun o => (List.forall_mem_append.mp (h o)).2⟩

theorem One.gives {v : Value} {e : Expr} (h : c.One v) : c.Gives e v := fun o => (h o).gives e

theorem Scoped.grows {parents' : List FrameId} {scope : Scope} (h : c.Scoped parents scope)
    (grown : parents <+: parents') : c.Scoped parents' scope := fun o => (h o).grows grown

theorem Ready.of_prefix {parents' : List FrameId} (h : c.Ready parents' m j)
    (grown : parents <+: parents') : c.Ready parents m j :=
  ⟨h.running, h.depth, grown.trans h.parents, h.sound⟩

theorem Ready.continues (h : c.Ready parents m j) : c.Continues j [] m j :=
  ⟨rfl, nofun, h.running, h.depth, List.prefix_rfl, h.sound⟩

theorem Continues.ready (h : c.Continues j new m j') : c.Ready j'.parents m j' :=
  ⟨h.running, h.depth, List.prefix_rfl, h.sound⟩

theorem Continues.trans (h : c.Continues j new m j') (h' : c.Continues j' new' m' j'') :
    c.Continues j (new' ++ new) m' j'' where
  entries := by rw [h'.entries, h.entries, List.append_assoc]
  good := List.forall_mem_append.mpr ⟨h'.good, h.good⟩
  running := h'.running
  depth := h'.depth
  parents := h.parents.trans h'.parents
  sound := h'.sound

/-- One more entry at this moment. -/
theorem Ready.write (h : c.Ready parents m j) (fine : c.orderly → event.Fine c.given) :
    c.Continues j [⟨event, m, j.running, j.parents⟩] m (j.write event m) where
  entries := rfl
  good := List.forall_mem_singleton.mpr
    ⟨h.depth.trans (congrArg _ h.running.symm), h.running ▸ c.bound, fun o => ⟨h.sound o, fine o⟩⟩
  running := h.running
  depth := h.depth
  parents := List.prefix_rfl
  sound := h.sound

theorem Ready.stepped (h : c.Ready parents m j) :
    c.Continues j [⟨.stepped, m, j.running, j.parents⟩] m (j.write .stepped m) :=
  h.write fun _ => trivial

end Setting

/-- The observed outcome is the plain one beside a journal that goes on in order; `post` speaks of the
parents that are then known and the value given. -/
inductive Recorded (c : Setting) (j : Journal) (post : List FrameId → α → Prop) :
    EStateM.Result Halt Machine α → EStateM.Result Halt (Machine × Journal) α → Prop
  | ok {a : α} {new : List Entry} {m : Machine} {j' : Journal} :
    c.Continues j new m j' → ¬ Overflowing c.max new → post j'.parents a →
    Recorded c j post (.ok a m) (.ok a (m, j'))
  | error {e : Halt} {new : List Entry} {m : Machine} {j' : Journal} :
    c.Continues j new m j' → (e.limit? = some .depth ↔ Overflowing c.max new) →
    Recorded c j post (.error e m) (.error e (m, j'))

/-- From wherever the step may begin, the observed step records the plain one. -/
def Records (c : Setting) (parents : List FrameId) (x : Eval α) (y : Observed α)
    (post : List FrameId → α → Prop) : Prop :=
  ∀ m j, c.Ready parents m j → Recorded c j post (x m) (y (m, j))

/-- Nothing is said of the value given. -/
def Whatever (_ : List FrameId) (_ : α) : Prop := True

variable {c : Setting} {parents : List FrameId} {post : List FrameId → α → Prop}

/-- What is recorded after entries without an overflow is recorded with them. -/
theorem Recorded.after {j j₁ : Journal} {new : List Entry} {m₁ : Machine}
    {plain : EStateM.Result Halt Machine α} {observed : EStateM.Result Halt (Machine × Journal) α}
    (h : Recorded c j₁ post plain observed) (before : c.Continues j new m₁ j₁)
    (calm : ¬ Overflowing c.max new) : Recorded c j post plain observed := by
  cases h with
  | ok later calm' holds =>
    refine .ok (before.trans later) ?_ holds
    rw [overflows_append]
    exact not_or.mpr ⟨calm', calm⟩
  | error later overflow =>
    refine .error (before.trans later) (overflow.trans ?_)
    rw [overflows_append, or_iff_left calm]

namespace Records

variable {post' : List FrameId → β → Prop} {x : Eval α} {y : Observed α}

theorem grows {parents' : List FrameId} (h : Records c parents x y post)
    (grown : parents <+: parents') : Records c parents' x y post :=
  fun m j ready => h m j (ready.of_prefix grown)

theorem mono {post₂ : List FrameId → α → Prop} (h : Records c parents x y post)
    (weaker : ∀ parents' a, parents <+: parents' → post parents' a → post₂ parents' a) :
    Records c parents x y post₂ := by
  intro m j ready
  have recorded := h m j ready
  generalize x m = plain at recorded ⊢
  generalize y (m, j) = observed at recorded ⊢
  cases recorded with
  | ok later calm holds =>
    exact .ok later calm (weaker _ _ (ready.parents.trans later.parents) holds)
  | error later overflow => exact .error later overflow

theorem pure {a : α} (h : ∀ parents', parents <+: parents' → post parents' a) :
    Records c parents (pure a) (pure a) post :=
  fun _ j ready => .ok ready.continues calm_nil (h j.parents ready.parents)

theorem done {a : α} : Records c parents (Pure.pure a) (Pure.pure a) Whatever :=
  pure fun _ _ => trivial

theorem exhausted : Records c parents (throw .exhausted : Eval α) (throw .exhausted) post :=
  fun _ _ ready => .error ready.continues (iff_of_false nofun calm_nil)

theorem bind {f : α → Eval β} {g : α → Observed β} (first : Records c parents x y post)
    (rest : ∀ parents' a, parents <+: parents' → post parents' a →
      Records c parents' (f a) (g a) post') :
    Records c parents (x >>= f) (y >>= g) post' := by
  intro m j ready
  have recorded := first m j ready
  change Recorded c j post' (EStateM.bind x f m) (EStateM.bind y g (m, j))
  unfold EStateM.bind
  generalize x m = plain at recorded ⊢
  generalize y (m, j) = observed at recorded ⊢
  cases recorded with
  | error later overflow => exact .error later overflow
  | @ok a new m' j' later calm holds =>
    have next := rest j'.parents a (ready.parents.trans later.parents) holds m' j' later.ready
    exact next.after later calm

theorem map (h : Records c parents x y post) {f : α → β}
    (sends : ∀ parents' a, parents <+: parents' → post parents' a → post' parents' (f a)) :
    Records c parents (x >>= fun a => Pure.pure (f a)) (y >>= fun a => Pure.pure (f a)) post' := by
  intro m j ready
  have recorded := h m j ready
  change Recorded c j post' (EStateM.bind x _ m) (EStateM.bind y _ (m, j))
  unfold EStateM.bind
  generalize x m = plain at recorded ⊢
  generalize y (m, j) = observed at recorded ⊢
  cases recorded with
  | error later overflow => exact .error later overflow
  | ok later calm holds =>
    exact .ok later calm (sends _ _ (ready.parents.trans later.parents) holds)

theorem atLine (line : Nat) (h : Records c parents x y post) :
    Records c parents (Eval.atLine line x) (Observed.atLine line y) post := by
  intro m j ready
  have recorded := h m j ready
  unfold Eval.atLine Observed.atLine
  generalize x m = plain at recorded ⊢
  generalize y (m, j) = observed at recorded ⊢
  cases recorded with
  | ok later calm holds => exact .ok later calm holds
  | @error e new m' j' later overflow =>
    cases e with
    | fault error l =>
      cases l with
      | zero => exact .error later (Halt.limit?_atLine error line 0 ▸ overflow)
      | succ l => exact .error later overflow
    | _ => exact .error later overflow

/-! ## Steps of the machine -/

/-- A step that leaves the depth alone and meets no limit is recorded by itself. -/
theorem lift (holds : List FrameId → α → Prop) (onward : x.IsOnward) (unlimited : x.Unlimited)
    (sound : c.orderly → ∀ parents', parents <+: parents' → ∀ m, m.Sound c.given parents' →
      (x.final m).Sound c.given parents' ∧ ∀ a m', x m = .ok a m' → holds parents' a) :
    Records c parents x (Observed.lift x) fun parents' a => c.orderly → holds parents' a := by
  intro m j ready
  have depth := (onward m).depth.trans ready.depth
  have fine (o : c.orderly) := sound o j.parents ready.parents m (ready.sound o)
  have met := unlimited m
  unfold Eval.final at depth fine
  unfold Observed.lift
  dsimp only
  cases result : x m with
  | ok a m' =>
    simp only [result] at depth fine
    have after : c.Ready parents m' j := ⟨ready.running, depth, ready.parents, fun o => (fine o).1⟩
    exact .ok after.stepped calm_stepped fun o => (fine o).2 a m' rfl
  | error e m' =>
    simp only [result] at depth fine
    have after : c.Ready parents m' j := ⟨ready.running, depth, ready.parents, fun o => (fine o).1⟩
    refine .error after.stepped ?_
    rw [met e m' result]
    exact iff_of_false nofun calm_stepped

/-- A step that keeps the frames and stays within the texts. -/
theorem kept {holds : α → Prop} (onward : x.IsOnward) (unlimited : x.Unlimited)
    (keeps : c.orderly → x.Keeps) (stays : c.orderly → x.Stays c.given holds) :
    Records c parents x (Observed.lift x) fun _ a => c.orderly → holds a := by
  refine lift (fun _ => holds) onward unlimited fun o parents' _ m sound => ?_
  have kept := keeps o m
  have ending := stays o m sound.within
  unfold Eval.final at *
  cases result : x m with
  | ok a m' =>
    rw [result] at kept ending
    refine ⟨⟨ending.1, sound.grounded.kept kept⟩, ?_⟩
    rintro _ _ ⟨⟩
    exact ending.2
  | error e m' =>
    rw [result] at kept ending
    exact ⟨⟨ending.1, sound.grounded.kept kept⟩, nofun⟩

/-- A step that only reads. -/
theorem aside {holds : α → Prop} (h : x.IsAside) (unlimited : x.Unlimited)
    (stays : c.orderly → x.Stays c.given holds) :
    Records c parents x (Observed.lift x) fun _ a => c.orderly → holds a :=
  kept h.isOnward unlimited (fun _ => h.keeps) stays

theorem traceLine (line : Unit → String) :
    Records c parents (Eval.traceLine line) (Observed.lift (Eval.traceLine line)) Whatever :=
  (aside (Eval.aside_traceLine line) (Eval.raises_modify _).unlimited fun _ => .traceLine line).mono
    fun _ _ _ _ => trivial

theorem fault (error : RuntimeError) (entered : error ≠ .stackOverflow) :
    Records c parents (Eval.fault error : Eval α) (Observed.lift (Eval.fault error)) post := by
  have recorded : Records c parents (Eval.fault error : Eval α) (Observed.lift (Eval.fault error))
      fun _ _ => c.orderly → False :=
    aside (Eval.moves_fault error) (Eval.raises_fault entered).unlimited fun _ => .fault error
  intro m j ready
  cases recorded m j ready with
  | error later overflow => exact .error later overflow

/-! ## Notes -/

/-- A note changes nothing; it is no call of a function with the depth used up. -/
theorem noted {event : Event} (fine : c.orderly → event.Fine c.given)
    (calm : event.Calls → c.running.length ≠ c.max) (h : Records c parents x y post) :
    Records c parents x (do Observed.note event; y) post := by
  intro m j ready
  have written := ready.write fine
  have next := h m (j.write event m) (written.ready.of_prefix ready.parents)
  refine next.after written ?_
  rw [overflows_singleton]
  rintro ⟨full, calls⟩
  exact calm calls (ready.running ▸ full)

theorem single {e : Expr} {x : Eval Value} {y : Observed Value}
    (h : Records c parents x y fun _ v => c.Gives e v) :
    Records c parents (Eval.single x) (Observed.single e y) fun _ v => c.One v := by
  refine h.bind fun parents' v _ gives => noted gives ?_ (noted ?_ ?_ (pure fun _ _ => ?_))
  · exact fun ⟨_, _, called⟩ => nomatch called
  · exact fun o => (gives o).1.compress
  · exact fun ⟨_, _, called⟩ => nomatch called
  · exact fun o => (gives o).1.compress

theorem spread {e : Expr} {x : Eval Value} {y : Observed Value}
    (h : Records c parents x y fun _ v => c.Gives e v) :
    Records c parents (do return (← x).expand) (Observed.spread e y) fun _ vs => c.Several vs := by
  refine h.bind fun parents' v _ gives => noted gives ?_ (pure fun _ _ o => (gives o).1)
  exact fun ⟨_, _, called⟩ => nomatch called

theorem spreadMap {e : Expr} {x : Eval Value} {y : Observed Value}
    (h : Records c parents x y fun _ v => c.Gives e v) {f : List Value → β}
    (sends : ∀ parents' vs, c.Several vs → post' parents' (f vs)) :
    Records c parents (do return f (← x).expand) (do return f (← Observed.spread e y)) post' := by
  have spread := (Records.spread h).map (f := f) fun parents' vs _ several =>
    sends parents' vs several
  simpa only [bind_assoc, pure_bind] using spread

theorem answer {x : Eval Value} {y : Observed Value}
    (h : Records c parents x y fun _ v => c.orderly → v.Spreads c.given) :
    Records c parents x (Observed.answer y) fun _ v => c.orderly → v.Spreads c.given := by
  rw [← bind_pure x]
  refine h.bind fun parents' v _ spreads => noted spreads ?_ (pure fun _ _ => spreads)
  exact fun ⟨_, _, called⟩ => nomatch called

theorem ending {x : Eval (Signal × Scope)} {y : Observed (Signal × Scope)}
    (h : Records c parents x y c.Ends) : Records c parents x (Observed.ending y) c.Ends := by
  rw [← bind_pure x]
  refine h.bind fun parents' out _ ends => noted ends.1 ?_ (pure fun _ grown => ?_)
  · exact fun ⟨_, _, called⟩ => nomatch called
  · exact ⟨ends.1, ends.2.grows grown⟩

end Records

/-! ## Bodies and frames -/

theorem Machine.Sound.of_depth {given : List String} {m : Machine} (h : m.Sound given parents)
    (depth : Nat) : Machine.Sound given parents { m with depth } where
  within := ⟨h.within.frames, h.within.tables, h.within.functions⟩
  grounded := ⟨h.grounded.size, h.grounded.frames, h.grounded.functions⟩

/-- What goes on inside a body goes on outside of it, once the body has been left. -/
theorem Setting.Continues.leave {id : Nat} {room : c.running.length < c.max} {j j' : Journal}
    {new : List Entry} {m : Machine}
    (h : (c.inside id room).Continues { j with running := id :: j.running } new m j')
    (running : j.running = c.running) :
    c.Continues j new { m with depth := m.depth - 1 } { j' with running := j.running } where
  entries := h.entries
  good := h.good
  running := running
  depth := congrArg (· - 1) h.depth
  parents := h.parents
  sound := fun o => (h.sound o).of_depth _

namespace Records

variable {x : Eval α} {y : Observed α}

theorem within {id : Nat} (room : c.running.length < c.max)
    (h : Records (c.inside id room) parents x y post) :
    Records c parents (Eval.deeper x) (Observed.within id y) post := by
  intro m j ready
  let entered : Machine := { m with depth := m.depth + 1 }
  let inner : Journal := { j with running := id :: j.running }
  have begun : (c.inside id room).Ready parents entered inner :=
    ⟨congrArg (id :: ·) ready.running, congrArg (· + 1) ready.depth, ready.parents,
      fun o => (ready.sound o).of_depth _⟩
  have written := begun.stepped
  have recorded := h entered _ (written.ready.of_prefix begun.parents)
  unfold Eval.deeper Observed.within
  dsimp only
  generalize x { m with depth := m.depth + 1 } = plain at recorded ⊢
  generalize y (_, _) = observed at recorded ⊢
  cases recorded with
  | ok later calm holds =>
    have left := (written.trans later).leave ready.running
    refine .ok (left.trans left.ready.stepped) ?_ holds
    rw [overflows_append, overflows_append]
    exact not_or.mpr ⟨calm_stepped, not_or.mpr ⟨calm, calm_stepped⟩⟩
  | error later overflow =>
    have left := (written.trans later).leave ready.running
    refine .error (left.trans left.ready.stepped) (overflow.trans ?_)
    rw [overflows_append, overflows_append, or_iff_right calm_stepped, or_iff_left calm_stepped]
    rfl

/-- The new frame leads up by the scope it is made in; a scope without frames stands for the global
frame. -/
theorem pushFrame {scope : Scope} {bs : Bindings}
    (way : c.orderly → Rooted parents (scope.headD 0 :: scope.tail))
    (bound : c.orderly → bs.Within c.given) :
    Records c parents (Eval.pushFrame scope bs) (Observed.pushFrame scope bs) fun parents' scope' =>
      ∃ id, scope' = id :: scope ∧
        (c.orderly → Rooted parents' (id :: scope.headD 0 :: scope.tail)) := by
  intro m j ready
  let m' : Machine := { m with frames := Array.push m.frames bs }
  let j₁ : Journal := { j with parents := j.parents ++ [scope.headD 0] }
  have known : j.parents <+: j₁.parents := List.prefix_append _ _
  have rooted (o : c.orderly) := (way o).grows ready.parents
  have made : c.Ready j₁.parents m' j₁ :=
    { running := ready.running
      depth := ready.depth
      parents := List.prefix_rfl
      sound := fun o =>
        ⟨(Eval.Stays.pushFrame scope (bound o) m (ready.sound o).within).1,
          (ready.sound o).grounded.pushFrame (rooted o) bs⟩ }
  have written := made.stepped
  have goes : c.Continues j _ m' (j₁.write .stepped m') :=
    ⟨written.entries, written.good, written.running, written.depth, known, written.sound⟩
  refine .ok goes calm_stepped ⟨m.frames.size, rfl, fun o => ?_⟩
  rw [(ready.sound o).grounded.size]
  exact (rooted o).push

theorem pushFrame_scoped {scope : Scope} {bs : Bindings} (rooted : c.Scoped parents scope)
    (bound : c.orderly → bs.Within c.given) :
    Records c parents (Eval.pushFrame scope bs) (Observed.pushFrame scope bs) fun parents' scope' =>
      c.Scoped parents' scope' := by
  have whole (o : c.orderly) : scope.headD 0 :: scope.tail = scope := (rooted o).headD_cons_tail
  refine (pushFrame (fun o => (whole o).symm ▸ rooted o) bound).mono
    fun parents' scope' _ made o => ?_
  obtain ⟨id, rfl, leads⟩ := made
  rw [← whole o]
  exact leads o

theorem closureOf {scope : Scope} {f : Lambda} (rooted : c.Scoped parents scope)
    (known : c.Knows f.texts) :
    Records c parents (Eval.closureOf scope f) (Observed.lift (Eval.closureOf scope f))
      fun _ v => c.One v := by
  refine lift (fun _ v => v.Within c.given) (Eval.onward_closureOf scope f)
    (Eval.raises_closureOf scope f).unlimited fun o parents' grown m sound => ?_
  obtain ⟨params, body, name, line⟩ := f
  obtain ⟨within, one⟩ := Eval.Stays.closureOf scope (.mk params body name line) (known o) m
    sound.within
  refine ⟨⟨within, sound.grounded.size, sound.grounded.frames, fun f member => ?_⟩, ?_⟩
  · rcases Array.mem_push.mp member with before | rfl
    · exact sound.grounded.functions f before
    · exact (rooted o).grows grown
  · rintro _ _ ⟨⟩
    exact one

/-- A function of the machine has its body in the texts and a scope that leads to the global frame. -/
theorem closure (id : Nat) :
    Records c parents (Eval.closure id) (Observed.lift (Eval.closure id)) fun parents' f =>
      c.orderly → (∀ text ∈ f.body.texts, text ∈ c.given) ∧
        (f = default ∨ Rooted parents' f.scope) := by
  refine lift (fun parents' f => (∀ text ∈ f.body.texts, text ∈ c.given) ∧
    (f = default ∨ Rooted parents' f.scope)) (Eval.aside_closure id).isOnward
    (Eval.raises_closure id).unlimited fun o parents' _ m sound => ⟨sound, ?_⟩
  rintro _ _ ⟨⟩
  refine ⟨sound.within.function id, ?_⟩
  rw [Array.getD_eq_getD_getElem?]
  cases found : m.functions[id]? with
  | none => exact .inl rfl
  | some f => exact .inr (sound.grounded.functions f (Array.mem_of_getElem? found))

/-! ## Stores -/

theorem store {scope : Scope} {place : Place} {v : Value} (rooted : c.Scoped parents scope)
    (there : c.orderly → place.Within c.given) (one : c.One v) :
    Records c parents (Eval.store scope place v) (Observed.lift (Eval.store scope place v))
      Whatever :=
  (kept (Eval.onward_store scope place v) (Eval.raises_store scope place v).entered.unlimited
    (fun o => Eval.keeps_store scope place v (rooted o).root)
    fun o => .store scope (there o) (one o)).mono fun _ _ _ _ => trivial

theorem storeAll {scope : Scope} {places : List Place} {vs : List Value}
    (rooted : c.Scoped parents scope)
    (there : c.orderly → ∀ place ∈ places, place.Within c.given) (several : c.Several vs) :
    Records c parents (Eval.storeAll scope places vs) (Observed.storeAll scope places vs)
      Whatever := by
  induction places generalizing vs with
  | nil => exact done
  | cons place places ih =>
    cases vs with
    | nil => exact done
    | cons v vs =>
      have first := store rooted (fun o => (List.forall_mem_cons.mp (there o)).1)
        fun o => (List.forall_mem_cons.mp (several o)).1
      refine first.bind fun parents' _ grown _ => grows ?_ grown
      exact ih (fun o => (List.forall_mem_cons.mp (there o)).2)
        fun o => (List.forall_mem_cons.mp (several o)).2

end Records

end MiniLua

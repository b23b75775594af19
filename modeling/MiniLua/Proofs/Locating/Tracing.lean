import MiniLua.Proofs.Locating.Lines
import MiniLua.Proofs.Locating.Following
import MiniLua.Proofs.Running.Faults

/-!
# Located errors

An error is located if the innermost construct that it has left gave it its line and it has kept that
line ever since. A followed step traces a plain one if it ends the same way in the same machine; what
is left to say is which errors it may end with, located ones or some that the constructs around it
are still to locate.
-/

namespace MiniLua

variable {α β : Type}

/-- No error has left anything: all that has been noted are `break`s. -/
def Calm (log : Log) : Prop := ∀ mark ∈ log, ∃ line, mark = .broke line

/-- A site is one of these. -/
def Construct.Within (given : List Site) : Construct → Prop
  | .site n => n ∈ given
  | .body _ => True
  | .chunk => True

/-- How a located error got its line. -/
inductive Located (given : List Site) : RuntimeError → Nat → Log → Prop
  /-- From the innermost site, its own. Where a call could not be entered, that is the call. -/
  | site {n : Site} {error : RuntimeError} {log : Log} : n ∈ given → Calm log →
      error ≠ .breakOutsideLoop → (error = .stackOverflow → ∃ c, n = .expr (.call c)) →
      Located given error n.line (.left (.site n) n.line :: log)
  /-- From the `break` that was run last, when it left a body or a chunk. -/
  | escape {c : Construct} {line : Nat} {log : Log} : (∀ n, c ≠ .site n) →
      .stmt (.breakLoop line) ∈ given → Calm log →
      Located given .breakOutsideLoop line (.left c line :: .broke line :: log)
  /-- It has left one more construct with the line it had. -/
  | outward {c : Construct} {error : RuntimeError} {line : Nat} {log : Log} : c.Within given →
      Located given error line log → Located given error line (.left c line :: log)

namespace Located

variable {given : List Site} {error : RuntimeError} {line : Nat} {log : Log}

/-- The line of a located error is the line of a site. -/
theorem exists_site (h : Located given error line log) : ∃ n ∈ given, n.line = line := by
  induction h with
  | site member => exact ⟨_, member, rfl⟩
  | escape _ member => exact ⟨_, member, rfl⟩
  | outward _ _ ih => exact ih

theorem one_le (h : Located given error line log) (lined : Lined given) : 1 ≤ line := by
  obtain ⟨n, member, rfl⟩ := h.exists_site
  exact lined n member

end Located

/-- The functions of the machine have no other sites. -/
def Machine.Coded (given : List Site) (m : Machine) : Prop :=
  ∀ f ∈ m.functions, f.body.sites ⊆ given

def Machine.StaysCoded (given : List Site) (m m' : Machine) : Prop :=
  m.Coded given → m'.Coded given

instance (given : List Site) : IsPreorder Machine (Machine.StaysCoded given) where
  refl _ coded := coded
  trans _ _ _ first second coded := second (first coded)

/-- How a followed step may end beside a plain one: the same way in the same machine. `post` speaks
of the value given, `fails` of the errors. -/
inductive Traced (given : List Site) (post : α → Log → Prop)
    (fails : RuntimeError → Nat → Log → Prop) :
    EStateM.Result Halt Machine α → EStateM.Result Halt (Machine × Log) α → Prop
  | ok {a : α} {m : Machine} {log : Log} : m.Coded given → Calm log → post a log →
      Traced given post fails (.ok a m) (.ok a (m, log))
  | fault {error : RuntimeError} {line : Nat} {m : Machine} {log : Log} : m.Coded given →
      fails error line log →
      Traced given post fails (.error (.fault error line) m) (.error (.fault error line) (m, log))
  | halt {e : Halt} {m : Machine} {log : Log} : m.Coded given → (∀ error line, e ≠ .fault error line) →
      Traced given post fails (.error e m) (.error e (m, log))

/-- From this log on, the followed step traces the plain one. -/
def Traces (given : List Site) (log : Log) (x : Eval α) (y : Followed α) (post : α → Log → Prop)
    (fails : RuntimeError → Nat → Log → Prop) : Prop :=
  ∀ m : Machine, m.Coded given → Calm log → Traced given post fails (x m) (y (m, log))

/-- Nothing is said of the value given. -/
def Anyhow (_ : α) (_ : Log) : Prop := True

/-- The error is located, or it is up to the site, which it still has to leave. -/
def Owed (given : List Site) (n : Site) (line : Nat) (error : RuntimeError) (l : Nat) (log : Log) :
    Prop :=
  Located given error l log ∨
    Calm log ∧ error ≠ .breakOutsideLoop ∧ (error = .stackOverflow → ∃ c, n = .expr (.call c)) ∧
      l = line

/-- The error is located, or it is that of the `break` run last and still has to leave the body. -/
def Escaping (given : List Site) (error : RuntimeError) (line : Nat) (log : Log) : Prop :=
  Located given error line log ∨
    error = .breakOutsideLoop ∧ .stmt (.breakLoop line) ∈ given ∧
      ∃ before, log = .broke line :: before ∧ Calm before

/-- A `break` is the one that was run last. -/
def Closing (given : List Site) (signal : Signal) (log : Log) : Prop :=
  ∀ line, signal = .breakLoop line →
    .stmt (.breakLoop line) ∈ given ∧ ∃ before, log = .broke line :: before

variable {given : List Site} {log : Log}

namespace Traces

variable {x : Eval α} {y : Followed α} {post : α → Log → Prop} {post' : β → Log → Prop}
variable {fails fails' : RuntimeError → Nat → Log → Prop}

theorem mono {post₂ : α → Log → Prop} (h : Traces given log x y post fails)
    (sends : ∀ a log', post a log' → post₂ a log')
    (owes : ∀ error line log', fails error line log' → fails' error line log') :
    Traces given log x y post₂ fails' := by
  intro m coded calm
  have traced := h m coded calm
  generalize x m = plain at traced ⊢
  generalize y (m, log) = followed at traced ⊢
  cases traced with
  | ok coded calm holds => exact .ok coded calm (sends _ _ holds)
  | fault coded failed => exact .fault coded (owes _ _ _ failed)
  | halt coded other => exact .halt coded other

/-- An error that is located already is up to no one. -/
theorem owed {n : Site} {line : Nat} (h : Traces given log x y post (Located given)) :
    Traces given log x y post (Owed given n line) :=
  h.mono (fun _ _ holds => holds) fun _ _ _ located => .inl located

theorem pure {a : α} (h : post a log) : Traces given log (pure a) (pure a) post fails :=
  fun _ coded calm => .ok coded calm h

theorem done {a : α} : Traces given log (Pure.pure a) (Pure.pure a) Anyhow fails := pure trivial

theorem exhausted : Traces given log (throw .exhausted : Eval α) (throw .exhausted) post fails :=
  fun _ coded _ => .halt coded nofun

theorem bind {f : α → Eval β} {g : α → Followed β} (first : Traces given log x y post fails)
    (rest : ∀ a log', post a log' → Traces given log' (f a) (g a) post' fails) :
    Traces given log (x >>= f) (y >>= g) post' fails := by
  intro m coded calm
  have traced := first m coded calm
  change Traced given post' fails (EStateM.bind x f m) (EStateM.bind y g (m, log))
  unfold EStateM.bind
  generalize x m = plain at traced ⊢
  generalize y (m, log) = followed at traced ⊢
  cases traced with
  | ok coded calm holds => exact rest _ _ holds _ coded calm
  | fault coded failed => exact .fault coded failed
  | halt coded other => exact .halt coded other

theorem map {f : α → β} (h : Traces given log x y post fails)
    (sends : ∀ a log', post a log' → post' (f a) log') :
    Traces given log (x >>= fun a => Pure.pure (f a)) (y >>= fun a => Pure.pure (f a)) post' fails :=
  h.bind fun a log' holds => pure (sends a log' holds)

/-! ## Steps of the machine -/

theorem lift {such : RuntimeError → Nat → Prop} {holds : α → Prop} (raises : x.Raises such)
    (moves : x.Moves (Machine.StaysCoded given))
    (sends : ∀ m a m', m.Coded given → x m = .ok a m' → holds a)
    (owes : ∀ error line, such error line → Calm log → fails error line log) :
    Traces given log x (Followed.lift x) (fun a _ => holds a) fails := by
  intro m coded calm
  have after := moves m coded
  have raised := raises m
  have sent := sends m
  unfold Eval.final at after
  unfold Followed.lift
  dsimp only
  cases result : x m with
  | ok a m' =>
    rw [result] at after
    exact .ok after calm (sent a m' coded result)
  | error e m' =>
    rw [result] at after
    have fine := raised e m' result
    cases e with
    | fault error line => exact .fault after (owes error line fine calm)
    | crash c => exact .halt after nofun
    | exhausted => exact fine.elim

/-- An operation may raise errors that the site it belongs to has to locate. -/
theorem operation {n : Site} {line : Nat} (raises : x.Raises (Ordinary line))
    (moves : x.Moves (Machine.StaysCoded given)) :
    Traces given log x (Followed.lift x) Anyhow (Owed given n line) :=
  lift raises moves (fun _ _ _ _ _ => trivial) fun _ _ raised calm =>
    .inr ⟨calm, raised.1, fun overflow => absurd overflow raised.2.1, raised.2.2⟩

/-- A step that raises no errors. -/
theorem quiet (raises : x.Raises fun _ _ => False) (moves : x.Moves (Machine.StaysCoded given)) :
    Traces given log x (Followed.lift x) Anyhow fails :=
  lift raises moves (fun _ _ _ _ _ => trivial) fun _ _ raised => raised.elim

/-! ## Constructs -/

/-- Where an error gets its line: afterwards it has the line of the site that it is up to. -/
theorem atLine {n : Site} (lined : Lined given) (h : Traces given log x y post (Owed given n 0)) :
    Traces given log (Eval.atLine n.line x) (Followed.atLine n.line y) post
      (Owed given n n.line) := by
  intro m coded calm
  have traced := h m coded calm
  unfold Eval.atLine Followed.atLine
  generalize x m = plain at traced ⊢
  generalize y (m, log) = followed at traced ⊢
  cases traced with
  | ok coded calm holds => exact .ok coded calm holds
  | @fault error l _ _ coded failed =>
    rcases failed with located | ⟨calm, unescaped, entered, rfl⟩
    · -- a located error has a line already and is not given another one
      cases l with
      | zero => exact absurd (located.one_le lined) (Nat.not_succ_le_zero 0)
      | succ l => exact .fault coded (.inl located)
    · exact .fault coded (.inr ⟨calm, unescaped, entered, rfl⟩)
  | @halt e _ _ coded other =>
    cases e with
    | fault error line => exact absurd rfl (other error line)
    | _ => exact .halt coded nofun

theorem within {c : Construct} (h : Traces given log x y post fails)
    (locates : ∀ error line log', fails error line log' →
      fails' error line (.left c line :: log')) :
    Traces given log x (Followed.within c y) post fails' := by
  intro m coded calm
  have traced := h m coded calm
  unfold Followed.within
  generalize x m = plain at traced ⊢
  generalize y (m, log) = followed at traced ⊢
  cases traced with
  | ok coded calm holds => exact .ok coded calm holds
  | fault coded failed => exact .fault coded (locates _ _ _ failed)
  | @halt e _ _ coded other =>
    cases e with
    | fault error line => exact absurd rfl (other error line)
    | _ => exact .halt coded nofun

/-- Every error that leaves a site is located. -/
theorem site {n : Site} (member : n ∈ given) (h : Traces given log x y post (Owed given n n.line)) :
    Traces given log x (Followed.within (.site n) y) post (Located given) :=
  h.within fun error line log' failed => by
    rcases failed with located | ⟨calm, unescaped, entered, rfl⟩
    · exact .outward member located
    · exact .site member calm unescaped entered

/-- Every error that leaves a body or a chunk is located. -/
theorem body {c : Construct} (outer : ∀ n, c ≠ .site n)
    (h : Traces given log x y post (Escaping given)) :
    Traces given log x (Followed.within c y) post (Located given) :=
  h.within fun error line log' failed => by
    rcases failed with located | ⟨rfl, member, before, rfl, calm⟩
    · refine .outward ?_ located
      cases c with
      | site n => exact absurd rfl (outer n)
      | _ => trivial
    · exact .escape outer member calm

theorem deeper (h : Traces given log x y post fails) :
    Traces given log (Eval.deeper x) (Followed.deeper y) post fails := by
  intro m coded calm
  have traced := h { m with depth := m.depth + 1 } coded calm
  unfold Eval.deeper Followed.deeper
  dsimp only
  generalize x { m with depth := m.depth + 1 } = plain at traced ⊢
  generalize y ({ m with depth := m.depth + 1 }, log) = followed at traced ⊢
  cases traced with
  | ok coded calm holds => exact .ok coded calm holds
  | fault coded failed => exact .fault coded failed
  | halt coded other => exact .halt coded other

end Traces

end MiniLua

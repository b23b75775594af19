import MiniLua.Proofs.Control.Halting

/-!
# Signals pass outward

A moment ends as the code inside it that does not end normally. A turn that ends with a `break` ends
its loop normally, one that ends with a `return` ends its loop with the same values. So a `return`
ends everything up to the body of its function, and a `break` everything up to its loop.
-/

namespace MiniLua

open Eval

variable {engine : Engine} {s : Scope} {m m' : Machine} {turns : Nat} {p q r : Moment}
variable {signal : Signal}

/-! ## Loops -/

def Stmt.isLoop : Stmt → Bool
  | .whileLoop .. => true
  | .numericFor .. => true
  | .genericFor .. => true
  | _ => false

/-- A loop, or what is left of its turns. -/
def Task.isLoop : Task → Bool
  | stmt x => x.isLoop
  | t => t.isTurns

/-- Only what is left of its turns is inside a loop. -/
theorem Inside.isTurns (part : Inside turns p q) (loop : p.task.isLoop = true) :
    q.task.isTurns = true := by
  cases part with
  | whileLoop => rfl
  | numericFor => rfl
  | genericFor => rfl
  | nextWhile => rfl
  | nextCounter => rfl
  | passedOver => rfl
  | nextKey => rfl
  | _ => cases loop

theorem Task.isLoop_of_isTurns {t : Task} (h : t.isTurns = true) : t.isLoop = true := by
  cases t with
  | stmt x => cases h
  | _ => exact h

/-- No turns end with a `break`. -/
theorem Task.run_ne_break {t : Task} (loop : t.isTurns = true) {line : Nat} :
    t.run engine s m ≠ .ok (.breakLoop line) m' := by
  intro ended
  cases t with
  | whileTurns condition body limit =>
    induction limit generalizing m with
    | zero => cases ended
    | succ limit ih =>
      obtain ⟨held, m₁, -, ended⟩ := bind_eq_ok.mp ended
      cases held with
      | false => cases ended
      | true =>
        obtain ⟨signal, m₂, -, ended⟩ := bind_eq_ok.mp ended
        cases signal with
        | normal => exact ih rfl ended
        | breakLoop line => cases ended
        | returned vs => cases ended
  | countedTurns name step stop body limit counter =>
    induction limit generalizing m counter with
    | zero => cases ended
    | succ limit ih =>
      rw [Task.run, Eval.countedTurns] at ended
      split at ended
      · obtain ⟨signal, m₂, -, ended⟩ := bind_eq_ok.mp ended
        cases signal with
        | normal => exact ih _ rfl ended
        | breakLoop line => cases ended
        | returned vs => cases ended
      · cases ended
  | keyedTurns names id body keys =>
    induction keys generalizing m with
    | nil => cases ended
    | cons key keys ih =>
      rw [Task.run_keyedTurns_cons] at ended
      obtain ⟨t, m₁, -, ended⟩ := bind_eq_ok.mp ended
      split at ended
      · exact ih rfl ended
      · obtain ⟨signal, m₂, -, ended⟩ := bind_eq_ok.mp ended
        cases signal with
        | normal => exact ih rfl ended
        | breakLoop line => cases ended
        | returned vs => cases ended
  | _ => cases loop

/-- A loop ends as its turns do and leaves the scope as it was. -/
theorem Stmt.exec_loop {x : Stmt} {s' : Scope} (loop : x.isLoop = true)
    (ended : x.exec engine s m = .ok (signal, s') m') :
    s' = s ∧ ∃ (t : Task) (m₁ : Machine), t.isTurns = true ∧ t.run engine s m₁ = .ok signal m' := by
  cases x with
  | whileLoop condition body line =>
    rw [Stmt.exec] at ended
    obtain ⟨_, done, ⟨⟩⟩ := map_eq_ok.mp ended
    exact ⟨rfl, .whileTurns condition body engine.loopLimit, m, rfl, done⟩
  | numericFor name start stop step body line =>
    rw [Stmt.exec_numericFor] at ended
    obtain ⟨⟨first, last, stride⟩, m₁, -, ended⟩ := bind_eq_ok.mp ended
    obtain ⟨_, done, ⟨⟩⟩ := map_eq_ok.mp ended
    exact ⟨rfl, .countedTurns name stride last body engine.loopLimit first, m₁, rfl, done⟩
  | genericFor names values body line =>
    rw [Stmt.exec_genericFor] at ended
    obtain ⟨⟨id, keys⟩, m₁, -, ended⟩ := bind_eq_ok.mp ended
    obtain ⟨_, done, ⟨⟩⟩ := map_eq_ok.mp ended
    exact ⟨rfl, .keyedTurns names id body keys, m₁, rfl, done⟩
  | _ => cases loop

/-! ## One level -/

/-- What is left of a list of statements after one of them has ended otherwise than normally is not
run. -/
theorem Stmt.execAll_of_ended {x : Stmt} {s' : Scope}
    (ended : x.exec engine s (m.announced x) = .ok (signal, s') m') (stops : signal ≠ .normal)
    (rest : List Stmt) : Stmt.execAll engine s (x :: rest) m = .ok signal m' := by
  rw [Stmt.execAll]
  refine (bind_of_ok rfl).trans ((bind_of_ok (atLine_eq_ok.mpr ended)).trans ?_)
  cases signal with
  | normal => exact absurd rfl stops
  | breakLoop line => rfl
  | returned vs => rfl

theorem Stmt.execAll_of_normal {x : Stmt} {s' : Scope}
    (ended : x.exec engine s (m.announced x) = .ok (.normal, s') m') (rest : List Stmt) :
    Stmt.execAll engine s (x :: rest) m = Stmt.execAll engine s' rest m' := by
  rw [Stmt.execAll]
  exact (bind_of_ok rfl).trans (bind_of_ok (atLine_eq_ok.mpr ended))

theorem Inside.passes (part : Inside turns p q) (ended : q.run turns = .ok signal m')
    (passed : signal ≠ .normal ∨ p.task.isLoop = true) : p.run turns = .ok signal m' := by
  unfold Moment.run
  cases part with
  | statements => exact ended
  | first =>
    obtain ⟨⟨_, s'⟩, done, rfl⟩ := map_eq_ok.mp ended
    exact Stmt.execAll_of_ended done (passed.resolve_right Bool.false_ne_true) _
  | rest done => exact (Stmt.execAll_of_normal done _).trans ended
  | @doBlock b s m body line =>
    rw [Task.run, Stmt.exec]
    exact map_eq_ok.mpr ⟨(signal, s), map_eq_ok.mpr ⟨signal, ended, rfl⟩, rfl⟩
  | @clauses b s m cs otherwise line =>
    obtain ⟨ending, done, same⟩ := map_eq_ok.mp ended
    cases ending with
    | none => exact absurd same.symm (passed.resolve_right Bool.false_ne_true)
    | some signal' =>
      obtain rfl : signal' = signal := same
      refine map_eq_ok.mpr ⟨(signal', s), ?_, rfl⟩
      cases otherwise <;> exact bind_of_ok done
  | @otherwise b s m m₁ cs body line done =>
    rw [Task.run, Stmt.exec]
    refine map_eq_ok.mpr ⟨(signal, s), (bind_of_ok done).trans ?_, rfl⟩
    exact map_eq_ok.mpr ⟨signal, ended, rfl⟩
  | clause held =>
    rw [Task.run, Clause.execFirst_cons]
    refine map_eq_ok.mpr ⟨some signal, (bind_of_ok held).trans ?_, rfl⟩
    exact map_eq_ok.mpr ⟨signal, ended, rfl⟩
  | nextClause held =>
    obtain ⟨ending, done, same⟩ := map_eq_ok.mp ended
    rw [Task.run, Clause.execFirst_cons]
    exact map_eq_ok.mpr ⟨ending, (bind_of_ok held).trans done, same⟩
  | @whileLoop b s =>
    rw [Task.run, Stmt.exec]
    exact map_eq_ok.mpr ⟨(signal, s), map_eq_ok.mpr ⟨signal, ended, rfl⟩, rfl⟩
  | @numericFor b s _ _ _ _ _ _ _ _ _ _ _ done =>
    rw [Task.run, Stmt.exec_numericFor]
    refine map_eq_ok.mpr ⟨(signal, s), (bind_of_ok done).trans ?_, rfl⟩
    exact map_eq_ok.mpr ⟨signal, ended, rfl⟩
  | @genericFor b s _ _ _ _ _ _ _ _ done =>
    rw [Task.run, Stmt.exec_genericFor]
    refine map_eq_ok.mpr ⟨(signal, s), (bind_of_ok done).trans ?_, rfl⟩
    exact map_eq_ok.mpr ⟨signal, ended, rfl⟩
  | nextWhile held done =>
    rw [Task.run, whileTurns]
    exact (bind_of_ok held).trans ((bind_of_ok done).trans ended)
  | nextCounter within done =>
    rw [Task.run, countedTurns, if_pos within]
    exact (bind_of_ok done).trans ended
  | passedOver none =>
    rw [Task.run_keyedTurns_cons]
    refine (bind_of_ok rfl).trans ?_
    rw [if_pos none]
    exact ended
  | nextKey some done =>
    rw [Task.run_keyedTurns_cons]
    refine (bind_of_ok rfl).trans ?_
    rw [if_neg (Bool.not_eq_true _ ▸ some)]
    exact (bind_of_ok done).trans ended

/-- A turn that does not end normally ends the loop. -/
theorem Turn.ends {ending : Signal} (part : Turn turns p q) (ended : q.run turns = .ok signal m')
    (ends : signal.ending? = some ending) : p.run turns = .ok ending m' := by
  unfold Moment.run
  cases part with
  | whileLoop held =>
    rw [Task.run, whileTurns]
    refine (bind_of_ok held).trans ((bind_of_ok ended).trans ?_)
    rw [ends]
    rfl
  | counter within =>
    rw [Task.run, countedTurns, if_pos within]
    refine (bind_of_ok ended).trans ?_
    rw [ends]
    rfl
  | key value =>
    rw [Task.run_keyedTurns_cons]
    refine (bind_of_ok rfl).trans ?_
    rw [if_neg (Bool.not_eq_true _ ▸ value)]
    refine (bind_of_ok ended).trans ?_
    rw [ends]
    rfl

/-! ## All levels -/

/-- Code of the same function body: inside, or a turn of a loop. -/
def Within (turns : Nat) : Moment → Moment → Prop :=
  Relation.ReflTransGen fun p q => Inside turns p q ∨ Turn turns p q

/-- A signal passes the code it is inside of; what is left of the turns of a loop ends as the loop
does in any case. -/
theorem passes (path : Relation.ReflTransGen (Inside turns) p q)
    (ended : q.run turns = .ok signal m') (passed : signal ≠ .normal ∨ p.task.isLoop = true) :
    p.run turns = .ok signal m' := by
  induction path using Relation.ReflTransGen.head_induction_on with
  | refl => exact ended
  | head part _ ih =>
    refine part.passes (ih (passed.imp_right fun loop => ?_)) passed
    exact Task.isLoop_of_isTurns (part.isTurns loop)

/-- A `return` leaves all the code of its function that it is in. -/
theorem Within.returns {vs : List Value} (path : Within turns p q)
    (ended : q.run turns = .ok (.returned vs) m') : p.run turns = .ok (.returned vs) m' := by
  induction path using Relation.ReflTransGen.head_induction_on with
  | refl => exact ended
  | head part _ ih =>
    obtain inside | turn := part
    · exact inside.passes ih (.inl nofun)
    · exact turn.ends ih rfl

/-- What begins once a moment has ended normally: the statements after a statement, what is left of
the turns after a turn, the last block of a branch after its clauses. -/
inductive Next (turns : Nat) : Moment → Moment → Prop
  | rest {b : Nat} {s s' : Scope} {m m' : Machine} {x : Stmt} {xs : List Stmt} :
    x.exec (Eval.engine turns b) s m = .ok (.normal, s') m' →
    Next turns ⟨b, s, m, .stmt x⟩ ⟨b, s', m', .stmts xs⟩
  | otherwise {b : Nat} {s : Scope} {m m' : Machine} {cs : List Clause} {body : Block} :
    Clause.execFirst (Eval.engine turns b) s cs m = .ok none m' →
    Next turns ⟨b, s, m, .clauses cs⟩ (.framed b s m' [] body)
  | nextWhile {b : Nat} {s : Scope} {m m' : Machine} {condition : Expr} {body : Block}
      {limit : Nat} : (Moment.framed b s m [] body).run turns = .ok .normal m' →
    Next turns (.framed b s m [] body) ⟨b, s, m', .whileTurns condition body limit⟩
  | nextCounter {b : Nat} {s : Scope} {m m' : Machine} {name : String} {step stop counter : Float}
      {body : Block} {limit : Nat} :
    (Moment.framed b s m [(name, .number counter)] body).run turns = .ok .normal m' →
    Next turns (.framed b s m [(name, .number counter)] body)
      ⟨b, s, m', .countedTurns name step stop body limit (counter + step)⟩
  | nextKey {b : Nat} {s : Scope} {m m' : Machine} {names : List String} {id : Nat} {body : Block}
      {key : Value} {keys : List Value} :
    (Moment.keyed b s m names id key body).run turns = .ok .normal m' →
    Next turns (.keyed b s m names id key body) ⟨b, s, m', .keyedTurns names id body keys⟩

theorem Next.normal (next : Next turns p q) : ∃ m', p.run turns = .ok .normal m' := by
  cases next with
  | rest ended => exact ⟨_, map_eq_ok.mpr ⟨_, ended, rfl⟩⟩
  | otherwise ended => exact ⟨_, map_eq_ok.mpr ⟨none, ended, rfl⟩⟩
  | nextWhile ended => exact ⟨_, ended⟩
  | nextCounter ended => exact ⟨_, ended⟩
  | nextKey ended => exact ⟨_, ended⟩

/-- A `return` is the last of its function to be run: nothing comes next after code that it is in. -/
theorem Within.last {vs : List Value} (path : Within turns p r)
    (ended : r.run turns = .ok (.returned vs) m') : ¬ Next turns p q := by
  intro next
  obtain ⟨m'', normal⟩ := next.normal
  cases (path.returns ended).symm.trans normal

/-- The second moment is inside a turn of the first one, and inside no turn further in. -/
def TurnOf (turns : Nat) (p r : Moment) : Prop :=
  ∃ q body, Relation.ReflTransGen (Inside turns) p q ∧ Turn turns q body ∧
    Relation.ReflTransGen (Inside turns) body r

/-- A `break` ends the loop of its turn. -/
theorem TurnOf.breaks {line : Nat} (turn : TurnOf turns p r) (loop : p.task.isLoop = true)
    (ended : r.run turns = .ok (.breakLoop line) m') : p.run turns = .ok .normal m' := by
  obtain ⟨q, body, outside, turn, inside⟩ := turn
  have broken : body.run turns = .ok (.breakLoop line) m' := passes inside ended (.inl nofun)
  exact passes outside (turn.ends broken rfl) (.inr loop)

end MiniLua

import MiniLua.Eval.Program

/-!
# Steps in sequence

A sequence of steps ends where its first step ends early, and else where the steps after it do.
-/

namespace MiniLua.Eval

variable {α β : Type} {x : Eval α} {f : α → Eval β} {m m' : Machine} {a : α} {e : Halt}

theorem bind_of_ok (h : x m = .ok a m') : (x >>= f) m = f a m' := by
  change EStateM.bind x f m = f a m'
  rw [EStateM.bind, h]

variable (f) in
theorem bind_of_error (h : x m = .error e m') : (x >>= f) m = .error e m' := by
  change EStateM.bind x f m = _
  rw [EStateM.bind, h]

theorem bind_eq_ok {b : β} :
    (x >>= f) m = .ok b m' ↔ ∃ a m₁, x m = .ok a m₁ ∧ f a m₁ = .ok b m' := by
  constructor
  · intro h
    cases first : x m with
    | ok a m₁ => exact ⟨a, m₁, rfl, (bind_of_ok first).symm.trans h⟩
    | error e m₁ => cases (bind_of_error f first).symm.trans h
  · rintro ⟨a, m₁, first, rest⟩
    exact (bind_of_ok first).trans rest

theorem bind_eq_error :
    (x >>= f) m = .error e m' ↔
      x m = .error e m' ∨ ∃ a m₁, x m = .ok a m₁ ∧ f a m₁ = .error e m' := by
  constructor
  · intro h
    cases first : x m with
    | ok a m₁ => exact .inr ⟨a, m₁, rfl, (bind_of_ok first).symm.trans h⟩
    | error e' m₁ =>
      obtain ⟨rfl, rfl⟩ := EStateM.Result.error.inj ((bind_of_error f first).symm.trans h)
      exact .inl rfl
  · rintro (first | ⟨a, m₁, first, rest⟩)
    · exact bind_of_error f first
    · exact (bind_of_ok first).trans rest

theorem pure_eq_ok {b : α} : (pure a : Eval α) m = .ok b m' ↔ a = b ∧ m = m' := by
  constructor
  · rintro ⟨⟩
    exact ⟨rfl, rfl⟩
  · rintro ⟨rfl, rfl⟩
    rfl

/-! ## Steps whose value is changed -/

theorem map_eq_ok {f : α → β} {b : β} :
    (do return f (← x)) m = .ok b m' ↔ ∃ a, x m = .ok a m' ∧ f a = b := by
  rw [bind_eq_ok]
  constructor
  · rintro ⟨a, m₁, done, same⟩
    obtain ⟨rfl, rfl⟩ := pure_eq_ok.mp same
    exact ⟨a, done, rfl⟩
  · rintro ⟨a, done, rfl⟩
    exact ⟨a, m', done, rfl⟩

theorem map_eq_error {f : α → β} : (do return f (← x)) m = .error e m' ↔ x m = .error e m' := by
  rw [bind_eq_error]
  constructor
  · rintro (failed | ⟨a, m₁, -, ⟨⟩⟩)
    exact failed
  · exact .inl

theorem single_eq_ok {y : Eval Value} {v : Value} :
    single y m = .ok v m' ↔ ∃ w, y m = .ok w m' ∧ w.compress = v := map_eq_ok

theorem single_of_ok {y : Eval Value} {v : Value} (done : y m = .ok v m') :
    single y m = .ok v.compress m' := single_eq_ok.mpr ⟨v, done, rfl⟩

theorem single_eq_error {y : Eval Value} : single y m = .error e m' ↔ y m = .error e m' :=
  map_eq_error

/-! ## Steps elsewhere -/

theorem atLine_eq_ok {line : Nat} : atLine line x m = .ok a m' ↔ x m = .ok a m' := by
  rw [atLine]
  cases x m with
  | ok b m'' => rfl
  | error e m'' =>
    cases e with
    | fault error l => cases l <;> constructor <;> intro done <;> cases done
    | _ => constructor <;> intro done <;> cases done

variable (m') in
theorem deeper_of_ok (done : x { m with depth := m.depth + 1 } = .ok a m') :
    deeper x m = .ok a { m' with depth := m'.depth - 1 } := by
  rw [deeper, done]

end MiniLua.Eval

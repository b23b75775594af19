import MiniLua.Eval.Machine

/-! # Loops

A loop ends normally, by a `break` of its own, which goes no further, or by a `return`, which goes
on to the function it is in. The loops with an open number of turns are given a bound on it. -/

namespace MiniLua

/-- How a statement hands over control. -/
inductive Signal where
  | normal
  | breakLoop (line : Nat)
  | returned (values : List Value)
  deriving Inhabited

namespace Signal

/-- How a loop ends after a turn of its body, if it ends there. -/
def ending? : Signal → Option Signal
  | normal => none
  | breakLoop _ => some normal
  | returned values => some (returned values)

theorem ending?_ne_break (s : Signal) (line : Nat) : s.ending? ≠ some (breakLoop line) := by
  cases s <;> simp [ending?]

end Signal

/-- Goes over keys fixed beforehand, reading the value of each when its turn comes. A key whose
value has become nil is passed over; a visit that gives a result ends the walk. -/
@[specialize]
def overKeys {m : Type → Type} [Monad m] {α : Type} (read : Value → m Value)
    (visit : Value → Value → m (Option α)) : List Value → m (Option α)
  | [] => return none
  | key :: keys => do
    let value ← read key
    if value.isNil then overKeys read visit keys
    else
      match ← visit key value with
      | none => overKeys read visit keys
      | some a => return some a

namespace Eval

/-- Turns while the condition holds. -/
def whileTurns (condition : Eval Bool) (body : Eval Signal) : (limit : Nat) → Eval Signal
  | 0 => throw .exhausted
  | limit + 1 => do
    if ← condition then
      match (← body).ending? with
      | none => whileTurns condition body limit
      | some signal => return signal
    else return .normal

/-- Whether a counter has not passed its limit in the direction of the step. -/
def withinLimit (step stop counter : Float) : Bool :=
  (0 < step && counter ≤ stop) || (step < 0 && stop ≤ counter)

/-- Turns over a counter, from where it stands. -/
def countedTurns (step stop : Float) (body : Float → Eval Signal) :
    (limit : Nat) → Float → Eval Signal
  | 0, _ => throw .exhausted
  | limit + 1, counter => do
    if withinLimit step stop counter then
      match (← body counter).ending? with
      | none => countedTurns step stop body limit (counter + step)
      | some signal => return signal
    else return .normal

/-- Turns over keys and their values. -/
def keyedTurns (read : Value → Eval Value) (body : Value → Value → Eval Signal)
    (keys : List Value) : Eval Signal := do
  let ending ← overKeys read (fun key value => do return (← body key value).ending?) keys
  return ending.getD .normal

end Eval

end MiniLua

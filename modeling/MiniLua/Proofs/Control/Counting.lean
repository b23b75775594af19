import MiniLua.Proofs.Control.Moments
import MiniLua.Proofs.Number.Whole
import MiniLua.Proofs.Regimes.Sessions

/-!
# Counted loops

A loop over a counter adds the step to the counter after each turn and looks at nothing else. As long
as the counter has not passed the limit, the sums are exact; the sum that passes it may be rounded,
but stays on the other side. So the turns are those of the whole numbers from the start to the
limit, whatever the body does.
-/

namespace MiniLua

open Eval Number

/-! ## Counting in whole numbers -/

/-- How many of the numbers `a`, `a + d`, … come before the limit `z` is passed. -/
def turnCount (a z d : Int) : Nat := (max 0 ((z - a).fdiv d + 1)).toNat

theorem lt_turnCount_iff_of_pos {a z d : Int} (hd : 0 < d) (k : Nat) :
    k < turnCount a z d ↔ a + k * d ≤ z := by
  have quotient : (k : Int) ≤ (z - a).fdiv d ↔ k * d ≤ z - a := by
    rw [Int.fdiv_eq_ediv_of_nonneg _ hd.le]
    exact Int.le_ediv_iff_mul_le hd
  rw [turnCount]
  omega

theorem turnCount_neg (a z d : Int) : turnCount (-a) (-z) (-d) = turnCount a z d := by
  have difference : -z - -a = -(z - a) := by omega
  rw [turnCount, turnCount, difference, Int.neg_fdiv_neg]

theorem lt_turnCount_iff_of_neg {a z d : Int} (hd : d < 0) (k : Nat) :
    k < turnCount a z d ↔ z ≤ a + k * d := by
  rw [← turnCount_neg, lt_turnCount_iff_of_pos (by omega)]
  constructor <;> intro h <;> linarith

section

variable {first last stride : Float} {a z d : Int}

/-- The counter after so many steps. -/
def counterAt (first stride : Float) : Nat → Float
  | 0 => first
  | k + 1 => counterAt first stride k + stride

theorem withinLimit_of_pos {x : Float} {c : Int} (hstride : IsWhole stride d)
    (hlast : IsWhole last z) (hx : IsWhole x c) (hd : 0 < d) :
    withinLimit stride last x = decide (c ≤ z) := by
  have up : 0 < stride := (isWhole_zero.lt_iff hstride).mpr hd
  have notDown : ¬ stride < 0 := fun h => absurd ((hstride.lt_iff isWhole_zero).mp h) (by omega)
  simp [withinLimit, up, notDown, hx.le_iff hlast]

theorem withinLimit_of_neg {x : Float} {c : Int} (hstride : IsWhole stride d)
    (hlast : IsWhole last z) (hx : IsWhole x c) (hd : d < 0) :
    withinLimit stride last x = decide (z ≤ c) := by
  have notUp : ¬ 0 < stride := fun h => absurd ((isWhole_zero.lt_iff hstride).mp h) (by omega)
  have down : stride < 0 := (hstride.lt_iff isWhole_zero).mpr hd
  simp [withinLimit, notUp, down, hlast.le_iff hx]

variable (hfirst : IsWhole first a) (hstride : IsWhole stride d) (ha : a.natAbs < 2 ^ 53)
  (hz : z.natAbs < 2 ^ 53) (hd : d.natAbs < 2 ^ 53) (nonzero : d ≠ 0)
include hfirst hstride ha hz hd nonzero

/-- Up to its last turn the counter is exact, and only then it passes the limit. -/
theorem counterAt_whole (k : Nat) (le : k ≤ turnCount a z d) :
    ∃ c, IsWhole (counterAt first stride k) c ∧ (k < turnCount a z d → c = a + k * d) ∧
      (0 < d → (c ≤ z ↔ k < turnCount a z d)) ∧ (d < 0 → (z ≤ c ↔ k < turnCount a z d)) := by
  induction k with
  | zero =>
    refine ⟨a, hfirst, fun _ => by simp, fun pos => ?_, fun neg => ?_⟩
    · rw [lt_turnCount_iff_of_pos pos]
      simp
    · rw [lt_turnCount_iff_of_neg neg]
      simp
  | succ k ih =>
    obtain ⟨c, whole, exact, -⟩ := ih (by omega)
    obtain rfl := exact le
    clear ih exact
    have next : a + ((k + 1 : Nat) : Int) * d = a + k * d + d := by
      push_cast
      ring
    rcases Int.lt_or_gt_of_ne nonzero with neg | pos
    · have within := (lt_turnCount_iff_of_neg (a := a) (z := z) neg k).mp le
      have distance : (k : Int) * d ≤ 0 := Int.mul_nonpos_of_nonneg_of_nonpos (by omega) neg.le
      obtain ⟨r, sum, rounds⟩ := whole.add hstride (by omega) hd
      have exact := rounds.exact
      have below := rounds.below
      rw [lt_turnCount_iff_of_neg neg, next]
      exact ⟨r, sum, by omega, by omega, fun _ => by omega⟩
    · have within := (lt_turnCount_iff_of_pos (a := a) (z := z) pos k).mp le
      have distance : 0 ≤ (k : Int) * d := Int.mul_nonneg (by omega) pos.le
      obtain ⟨r, sum, rounds⟩ := whole.add hstride (by omega) hd
      have exact := rounds.exact
      have above := rounds.above
      rw [lt_turnCount_iff_of_pos pos, next]
      exact ⟨r, sum, by omega, fun _ => by omega, by omega⟩

theorem isWhole_counterAt {k : Nat} (lt : k < turnCount a z d) :
    IsWhole (counterAt first stride k) (a + k * d) := by
  obtain ⟨c, whole, exact, -⟩ :=
    counterAt_whole hfirst hstride ha hz hd nonzero k (Nat.le_of_lt lt)
  exact exact lt ▸ whole

theorem withinLimit_counterAt (hlast : IsWhole last z) {k : Nat} (le : k ≤ turnCount a z d) :
    withinLimit stride last (counterAt first stride k) = decide (k < turnCount a z d) := by
  obtain ⟨c, whole, -, up, down⟩ := counterAt_whole hfirst hstride ha hz hd nonzero k le
  rcases Int.lt_or_gt_of_ne nonzero with neg | pos
  · rw [withinLimit_of_neg hstride hlast whole neg]
    exact decide_eq_decide.mpr (down neg)
  · rw [withinLimit_of_pos hstride hlast whole pos]
    exact decide_eq_decide.mpr (up pos)

end

/-! ## Turns -/

/-- Frames are never taken away, whatever the machine. -/
def Regime.growing : Regime where
  machine _ := True
  value _ _ := True
  table _ _ := True
  scope _ _ := True
  later m m' := m.frames.size ≤ m'.frames.size
  strict := False
  later_refl _ := Nat.le_refl _
  later_trans := Nat.le_trans
  value_later _ _ := trivial
  table_later _ _ := trivial
  scope_later _ _ := trivial
  plain _ := trivial
  expand _ _ _ := trivial
  lookup _ _ _ := trivial
  contents _ _ := trivial
  get _ _ := trivial
  keys _ _ _ := trivial
  closure _ _ := ⟨trivial, False.elim⟩
  root _ := trivial
  empty _ := trivial
  insert _ _ _ _ := trivial
  same _ frames _ _ := ⟨trivial, Nat.le_of_eq (congrArg Array.size frames.symm)⟩
  pushFrame _ _ _ := ⟨⟨trivial, by simp [Frames.push]⟩, trivial⟩
  assign _ _ _ _ := ⟨trivial, by simp [Frames.assign, Frames.define]⟩
  setKey _ _ _ _ _ := ⟨trivial, Nat.le_refl _⟩
  newTable _ _ := ⟨⟨trivial, Nat.le_refl _⟩, trivial⟩
  newFunction _ _ _ := ⟨⟨trivial, Nat.le_refl _⟩, trivial⟩

/-- A turn of a loop over a counter: the machine in which it begins, and the counter. -/
structure Lap where
  machine : Machine
  counter : Float

/-- The body as it begins in a turn: in a new frame, which binds the loop variable to the counter. -/
def Lap.moment (b : Nat) (s : Scope) (name : String) (body : Block) (lap : Lap) : Moment :=
  .framed b s lap.machine [(name, .number lap.counter)] body

/-- Turns that all end normally, each begun where the one before has led. -/
inductive Laps (turns b : Nat) (s : Scope) (name : String) (body : Block) :
    Machine → List Lap → Machine → Prop
  | nil {m : Machine} : Laps turns b s name body m [] m
  | cons {m m' m'' : Machine} {x : Float} {laps : List Lap} :
    (Lap.moment b s name body ⟨m, x⟩).run turns = .ok .normal m' →
    Laps turns b s name body m' laps m'' → Laps turns b s name body m (⟨m, x⟩ :: laps) m''

/-- The second moment is a turn of the loop that begins as the first. -/
def HasTurn (turns : Nat) (p q : Moment) : Prop :=
  ∃ p', Relation.ReflTransGen (Inside turns) p p' ∧ Turn turns p' q

section

variable {turns b limit : Nat} {s : Scope} {m m' m'' : Machine} {name : String} {body : Block}
  {first last stride x : Float} {laps : List Lap} {q : Moment}

/-- A block that begins in a new frame leaves it in the store. -/
theorem size_lt_of_framed {bs : Bindings} {signal : Signal}
    (ended : (Moment.framed b s m bs body).run turns = .ok signal m') :
    m.frames.size < m'.frames.size := by
  have abides := Block.abides (R := .growing) (abides_callAt turns b) false
    { m with frames := (m.frames.push s bs).1 } (m.frames.push s bs).2 body trivial False.elim
  have grown : (m.frames.push s bs).1.size ≤ m'.frames.size := (abides.of_ok trivial ended).1.later
  simpa [Frames.push] using grown

theorem Laps.later (run : Laps turns b s name body m laps m') :
    (∀ l ∈ laps, m.frames.size ≤ l.machine.frames.size) ∧
      laps.Pairwise fun l l' => l.machine.frames.size < l'.machine.frames.size := by
  induction run with
  | nil => exact ⟨nofun, .nil⟩
  | cons ended _ ih =>
    have grown := size_lt_of_framed ended
    refine ⟨fun l member => ?_, .cons (fun l member => ?_) ih.2⟩
    · rcases List.mem_cons.mp member with rfl | member
      · exact Nat.le_refl _
      · exact Nat.le_of_lt (Nat.lt_of_lt_of_le grown (ih.1 l member))
    · exact Nat.lt_of_lt_of_le grown (ih.1 l member)

theorem Lap.lookup (lap : Lap) (b : Nat) (s : Scope) (name : String) (body : Block) :
    let p := lap.moment b s name body
    p.machine.frames.lookup p.scope name = .number lap.counter := by
  simp [Lap.moment, Moment.framed, Frames.push, Frames.lookup, Frames.resolve?, Frames.bindings,
    Bindings.binds]

/-- What is left of a loop over a counter. -/
def Moment.counting (b : Nat) (s : Scope) (m : Machine) (name : String) (stride last : Float)
    (body : Block) (limit : Nat) (counter : Float) : Moment :=
  ⟨b, s, m, .countedTurns name stride last body limit counter⟩

theorem hasTurn_beyond (beyond : withinLimit stride last x = false) :
    ¬ HasTurn turns (.counting b s m name stride last body limit x) q := by
  rintro ⟨p, path, turn⟩
  rcases path.cases_head with rfl | ⟨p', part, -⟩
  · cases turn with
    | counter within => rw [beyond] at within; cases within
  · cases part with
    | nextCounter within => rw [beyond] at within; cases within

/-- The turns of a loop are its first turn and those of what is left after it. -/
theorem hasTurn_iff (within : withinLimit stride last x = true)
    (ended : (Lap.moment b s name body ⟨m, x⟩).run turns = .ok .normal m') :
    HasTurn turns (.counting b s m name stride last body (limit + 1) x) q ↔
      q = Lap.moment b s name body ⟨m, x⟩ ∨
        HasTurn turns (.counting b s m' name stride last body limit (x + stride)) q := by
  constructor
  · rintro ⟨p, path, turn⟩
    rcases path.cases_head with rfl | ⟨p', part, path⟩
    · cases turn with
      | counter => exact .inl rfl
    · cases part with
      | nextCounter _ ended' =>
        obtain ⟨-, rfl⟩ := EStateM.Result.ok.inj (ended.symm.trans ended')
        exact .inr ⟨p, path, turn⟩
  · rintro (rfl | ⟨p, path, turn⟩)
    · exact ⟨_, .refl, .counter within⟩
    · exact ⟨p, .head (.nextCounter within ended) path, turn⟩

/-- A turn of a loop over a counter is its body in a new frame. -/
theorem HasTurn.lap (turn : HasTurn turns (.counting b s m name stride last body limit x) q) :
    ∃ lap : Lap, q = lap.moment b s name body := by
  obtain ⟨p, path, turn⟩ := turn
  suffices ∃ m limit x, p = .counting b s m name stride last body limit x by
    obtain ⟨m, limit, x, rfl⟩ := this
    cases turn with
    | counter => exact ⟨⟨m, x⟩, rfl⟩
  clear turn
  induction path with
  | refl => exact ⟨m, limit, x, rfl⟩
  | tail _ part ih =>
    obtain ⟨m, limit, x, rfl⟩ := ih
    cases part with
    | nextCounter => exact ⟨_, _, _, rfl⟩

/-- A loop whose counter comes `n` times before it passes the limit takes `n` turns, if they end
normally. -/
theorem counting_laps {n k : Nat} (room : n < limit)
    (within : ∀ i ≤ n, withinLimit stride last (counterAt first stride (k + i)) = decide (i < n))
    (normal : ∀ q, HasTurn turns
        (.counting b s m name stride last body limit (counterAt first stride k)) q →
      ∃ m', q.run turns = .ok .normal m') :
    ∃ laps m', (Moment.counting b s m name stride last body limit (counterAt first stride k)).run
        turns = .ok .normal m' ∧
      Laps turns b s name body m laps m' ∧
      laps.map (·.counter) = (List.range' k n).map (counterAt first stride) ∧
      ∀ q, HasTurn turns (.counting b s m name stride last body limit (counterAt first stride k)) q ↔
        ∃ lap ∈ laps, q = lap.moment b s name body := by
  induction n generalizing k m limit with
  | zero =>
    have beyond := within 0 (Nat.le_refl 0)
    obtain ⟨limit, rfl⟩ : ∃ l, limit = l + 1 := ⟨limit - 1, by omega⟩
    refine ⟨[], m, ?_, .nil, rfl, fun q => ⟨fun turn => (hasTurn_beyond beyond turn).elim, nofun⟩⟩
    rw [Moment.run, Moment.counting, Task.run, countedTurns, if_neg (by simpa using beyond)]
    rfl
  | succ n ih =>
    have now : withinLimit stride last (counterAt first stride k) = true := within 0 (Nat.zero_le _)
    obtain ⟨limit, rfl⟩ : ∃ l, limit = l + 1 := ⟨limit - 1, by omega⟩
    obtain ⟨m₁, ended⟩ := normal _ ⟨_, .refl, .counter now⟩
    have turns_iff (q : Moment) :
        HasTurn turns (.counting b s m name stride last body (limit + 1) _) q ↔ _ :=
      hasTurn_iff now ended
    have later (i : Nat) (le : i ≤ n) :
        withinLimit stride last (counterAt first stride (k + 1 + i)) = decide (i < n) := by
      have next := within (i + 1) (by omega)
      rw [Nat.add_right_comm k 1 i]
      simpa [Nat.add_assoc] using next
    obtain ⟨laps, m', run, lapped, counters, exactly⟩ := ih (m := m₁) (k := k + 1)
      (show n < limit by omega) later fun q turn => normal q ((turns_iff q).mpr (.inr turn))
    refine ⟨⟨m, _⟩ :: laps, m', ?_, .cons ended lapped, ?_, fun q => ?_⟩
    · rw [Moment.run, Moment.counting, Task.run, countedTurns, if_pos now]
      exact (bind_of_ok ended).trans run
    · rw [List.map_cons, counters]
      rfl
    · simp only [turns_iff, List.mem_cons, exists_eq_or_imp]
      exact or_congr_right (exactly q)

end

/-- The step of a loop, which is 1 if there is none in the text. -/
def Eval.strideOf (engine : Engine) (scope : Scope) : Option Expr → Eval Float
  | none => pure 1
  | some step => forOperand engine scope .step step

theorem counting_of_ok {engine : Engine} {s : Scope} {m m₁ m₂ m₀ : Machine} {start stop : Expr}
    {step : Option Expr} {first last stride : Float}
    (starts : forOperand engine s .start start m = .ok first m₁)
    (stops : forOperand engine s .limit stop m₁ = .ok last m₂)
    (strides : strideOf engine s step m₂ = .ok stride m₀) (nonzero : (stride == 0) = false) :
    counting engine s start stop step m = .ok (first, last, stride) m₀ := by
  refine (bind_of_ok starts).trans ((bind_of_ok stops).trans ?_)
  cases step with
  | none =>
    obtain ⟨rfl, rfl⟩ := pure_eq_ok.mp strides
    rfl
  | some step =>
    refine (bind_of_ok strides).trans ?_
    simp only [nonzero, Bool.false_eq_true, if_false]
    rfl

/-- A loop from `a` to `z` in steps of `d` takes the turns of the whole numbers `a + k * d` that do
not pass `z`, in their order, if its body ends normally in each of its turns. Each of them begins in
a frame of its own, which binds the loop variable to its number. -/
theorem numericFor_counts (turns b : Nat) (s : Scope) (m m₁ m₂ m₀ : Machine) (name : String)
    (start stop : Expr) (step : Option Expr) (body : Block) (line : Nat) (first last stride : Float)
    (starts : forOperand (engine turns b) s .start start m = .ok first m₁)
    (stops : forOperand (engine turns b) s .limit stop m₁ = .ok last m₂)
    (strides : strideOf (engine turns b) s step m₂ = .ok stride m₀) (a z d : Int)
    (hfirst : IsWhole first a) (hlast : IsWhole last z) (hstride : IsWhole stride d)
    (ha : a.natAbs < 2 ^ 53) (hz : z.natAbs < 2 ^ 53) (hd : d.natAbs < 2 ^ 53) (nonzero : d ≠ 0)
    (room : turnCount a z d < turns)
    (normal : ∀ q, HasTurn turns (.counting b s m₀ name stride last body turns first) q →
      ∃ m', q.run turns = .ok .normal m') :
    ∃ laps m', (Stmt.numericFor name start stop step body line).exec (engine turns b) s m =
        .ok (.normal, s) m' ∧
      laps.length = turnCount a z d ∧ Laps turns b s name body m₀ laps m' ∧
      (∀ q, HasTurn turns (.counting b s m₀ name stride last body turns first) q ↔
        ∃ lap ∈ laps, q = lap.moment b s name body) ∧
      (∀ k (h : k < laps.length), IsWhole laps[k].counter (a + k * d) ∧
        let p := laps[k].moment b s name body
        p.machine.frames.lookup p.scope name = .number laps[k].counter) ∧
      laps.Pairwise fun l l' => l.machine.frames.size < l'.machine.frames.size := by
  have within (k : Nat) (le : k ≤ turnCount a z d) :
      withinLimit stride last (counterAt first stride (0 + k)) = decide (k < turnCount a z d) := by
    rw [Nat.zero_add]
    exact withinLimit_counterAt hfirst hstride ha hz hd nonzero hlast le
  obtain ⟨laps, m', run, lapped, counters, exactly⟩ := counting_laps (k := 0) room within normal
  have length : laps.length = turnCount a z d := by
    have lengths := congrArg List.length counters
    simpa using lengths
  have moving : (stride == 0) = false := by
    rw [Bool.eq_false_iff]
    exact fun zero => nonzero ((hstride.beq_iff isWhole_zero).mp zero)
  refine ⟨laps, m', ?_, length, lapped, exactly, fun k h => ⟨?_, laps[k].lookup b s name body⟩,
    lapped.later.2⟩
  · rw [Stmt.exec_numericFor]
    exact (bind_of_ok (counting_of_ok starts stops strides moving)).trans (map_eq_ok.mpr ⟨_, run, rfl⟩)
  · have counter : laps[k].counter = counterAt first stride k := by
      have := congrArg (·[k]?) counters
      simpa [h, length ▸ h] using this
    rw [counter]
    exact isWhole_counterAt hfirst hstride ha hz hd nonzero (length ▸ h)

/-- The body of `for i = 5, 1, -2 do i = 10 end`. -/
def overwritingBody : Block := .mk [.assign [.name "i" 1] [.number 10 1] 1] 1

theorem numericFor_counts_overwritten :
    ∃ laps m', (Stmt.numericFor "i" (.number 5 1) (.number 1 1) (some (.number (-2) 1))
        overwritingBody 1).exec (engine 10 1) [0] (Machine.initial false) = .ok (.normal, [0]) m' ∧
      laps.length = 3 ∧ Laps 10 1 [0] "i" overwritingBody (Machine.initial false) laps m' ∧
      ∀ k (h : k < laps.length), IsWhole laps[k].counter (5 + k * -2) := by
  have ends (q : Moment) (turn : HasTurn 10 (.counting 1 [0] (Machine.initial false) "i" (-2) 1
      overwritingBody 10 5) q) : ∃ m', q.run 10 = .ok .normal m' := by
    obtain ⟨lap, rfl⟩ := turn.lap
    exact ⟨_, rfl⟩
  obtain ⟨laps, m', run, length, lapped, -, counters, -⟩ :=
    numericFor_counts 10 1 [0] (Machine.initial false) _ _ _ "i" (.number 5 1) (.number 1 1)
      (some (.number (-2) 1)) overwritingBody 1 5 1 (-2) rfl rfl rfl 5 1 (-2)
      ⟨by decide +kernel, by decide +kernel⟩ ⟨by decide +kernel, by decide +kernel⟩
      ⟨by decide +kernel, by decide +kernel⟩ (by decide) (by decide) (by decide) (by decide)
      (by decide) ends
  exact ⟨laps, m', run, length, lapped, fun k h => (counters k h).1⟩

end MiniLua

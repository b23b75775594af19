import MiniLua.Proofs.Running.Values

/-!
# Steps that stay within texts

From a machine whose values are within given texts a step ends in another one. It may end early with
an error or at a bound on turns; it crashes only if an oversize numeral can be built from the texts.
-/

namespace MiniLua

variable {α β : Type} {given : List String}

/-- An early end that is no crash, or the crash of an oversize numeral that can be built. -/
def Halt.Contained (given : List String) : Halt → Prop
  | .crash c => c = .numeralTooLarge ∧ ∃ text, Built given text ∧ Oversize text
  | _ => True

/-- How a step may end: `post` speaks of the value given. -/
def Eval.Ending (given : List String) (post : α → Prop) : EStateM.Result Halt Machine α → Prop
  | .ok a m => m.Within given ∧ post a
  | .error e m => m.Within given ∧ e.Contained given

/-- The step leads from machines within the texts to machines within the texts. -/
def Eval.Stays (given : List String) (x : Eval α) (post : α → Prop) : Prop :=
  ∀ m : Machine, m.Within given → Eval.Ending given post (x m)

/-- Nothing is said of the value given. -/
def Anything (_ : α) : Prop := True

/-- All values of a list are within the texts. -/
def AllWithin (given : List String) (vs : List Value) : Prop := ∀ v ∈ vs, v.Within given

def Signal.Within (given : List String) : Signal → Prop
  | .returned vs => AllWithin given vs
  | _ => True

def Place.Within (given : List String) : Place → Prop
  | .slot _ key => key.Within given
  | .variable _ => True

namespace Eval.Stays

variable {post : α → Prop} {post' : β → Prop} {x : Eval α}

theorem mono {post₂ : α → Prop} (h : Stays given x post) (weaker : ∀ a, post a → post₂ a) :
    Stays given x post₂ := by
  intro m good
  have ending := h m good
  cases result : x m with
  | ok a m' =>
    rw [result] at ending
    exact ⟨ending.1, weaker a ending.2⟩
  | error e m' =>
    rw [result] at ending
    exact ending

theorem pure {a : α} (h : post a) : Stays given (pure a) post := fun _ good => ⟨good, h⟩

theorem done {a : α} : Stays given (Pure.pure a) Anything := pure trivial

theorem throw {e : Halt} (h : e.Contained given) : Stays given (throw e) post :=
  fun _ good => ⟨good, h⟩

theorem bind {f : α → Eval β} (first : Stays given x post)
    (rest : ∀ a, post a → Stays given (f a) post') : Stays given (x >>= f) post' := by
  intro m good
  have ending := first m good
  change Ending given post' (EStateM.bind x f m)
  rw [EStateM.bind]
  cases result : x m with
  | ok a m' =>
    rw [result] at ending
    exact rest a ending.2 m' ending.1
  | error e m' =>
    rw [result] at ending
    exact ending

theorem map (h : Stays given x post) {f : α → β} (sends : ∀ a, post a → post' (f a)) :
    Stays given (x >>= fun a => Pure.pure (f a)) post' :=
  h.bind fun a holds => pure (sends a holds)

theorem atLine (line : Nat) (h : Stays given x post) : Stays given (Eval.atLine line x) post := by
  intro m good
  have ending := h m good
  rw [Eval.atLine]
  cases result : x m with
  | ok a m' =>
    rw [result] at ending
    exact ending
  | error e m' =>
    rw [result] at ending
    cases e with
    | fault error l => cases l <;> exact ending
    | _ => exact ending

theorem deeper (h : Stays given x post) : Stays given (Eval.deeper x) post := by
  intro m good
  have ending := h { m with depth := m.depth + 1 } ⟨good.frames, good.tables, good.functions⟩
  rw [Eval.deeper]
  cases result : x { m with depth := m.depth + 1 } with
  | ok a m' =>
    rw [result] at ending
    exact ⟨⟨ending.1.frames, ending.1.tables, ending.1.functions⟩, ending.2⟩
  | error e m' =>
    rw [result] at ending
    exact ⟨⟨ending.1.frames, ending.1.tables, ending.1.functions⟩, ending.2⟩

theorem single {x : Eval Value} (h : Stays given x (·.Spreads given)) :
    Stays given (Eval.single x) (·.Within given) :=
  h.map fun _ spreads => spreads.compress

theorem modifyGet {f : Machine → α × Machine}
    (h : ∀ m : Machine, m.Within given → (f m).2.Within given ∧ post (f m).1) :
    Stays given (modifyGet f) post := h

theorem modify {f : Machine → Machine} (h : ∀ m : Machine, m.Within given → (f m).Within given) :
    Stays given (modify f) Anything := fun m good => ⟨h m good, trivial⟩

theorem get : Stays given get (·.Within given) := fun _ good => ⟨good, good⟩

theorem read (f : Machine → α) (h : ∀ m : Machine, m.Within given → post (f m)) :
    Stays given (do return f (← MonadState.get)) post := get.map h

theorem fault (error : RuntimeError) : Stays given (Eval.fault error) post := throw trivial

theorem faultAt (line : Nat) (scope : Scope) (e : Expr) (error : Origin → RuntimeError) :
    Stays given (Eval.faultAt line scope e error) post := by
  have origin : Stays given (originOf scope e) Anything := by
    unfold originOf
    split
    · exact read _ fun _ _ => trivial
    · exact done
    · exact done
  exact origin.bind fun _ _ => atLine line (fault _)

theorem traceLine (line : Unit → String) : Stays given (Eval.traceLine line) Anything := by
  refine modify fun m good => ?_
  split
  · exact ⟨good.frames, good.tables, good.functions⟩
  · exact good

/-! ## The store -/

theorem pushFrame (scope : Scope) {bs : Bindings} (h : bs.Within given) :
    Stays given (Eval.pushFrame scope bs) Anything :=
  modifyGet fun _ good => ⟨⟨fun bs' member => (Array.mem_push.mp member).elim (good.frames bs')
    fun same => same ▸ h, good.tables, good.functions⟩, trivial⟩

theorem lookup (scope : Scope) (name : String) :
    Stays given (Eval.lookup scope name) (·.Within given) :=
  read _ fun _ good => Frames.within_lookup good.frames scope name

theorem assign (scope : Scope) (name : String) {v : Value} (h : v.Within given) :
    Stays given (Eval.assign scope name v) Anything :=
  modify fun _ good =>
    ⟨Frames.within_assign good.frames scope name h, good.tables, good.functions⟩

theorem newTable {t : Table} (h : t.Within given) :
    Stays given (Eval.newTable t) (·.Within given) :=
  modifyGet fun _ good => ⟨⟨good.frames, fun t' member =>
    (Array.mem_push.mp member).elim (good.tables t') fun same => same ▸ h, good.functions⟩, trivial⟩

theorem closureOf (scope : Scope) (f : Lambda) (h : ∀ text ∈ f.texts, text ∈ given) :
    Stays given (Eval.closureOf scope f) (·.Within given) := by
  cases f with
  | mk params body name line =>
    exact modifyGet fun _ good => ⟨⟨good.frames, good.tables, fun f' member =>
      (Array.mem_push.mp member).elim (good.functions f') fun same => same ▸ h⟩, trivial⟩

theorem table (id : Nat) : Stays given (Eval.table id) (·.Within given) :=
  read _ fun _ good => good.table id

theorem closure (id : Nat) :
    Stays given (Eval.closure id) fun f => ∀ text ∈ f.body.texts, text ∈ given :=
  read _ fun _ good => good.function id

theorem setKey (id : Nat) {k v : Value} (key : k.Within given) (value : v.Within given) :
    Stays given (Eval.setKey id k v) Anything := by
  unfold Eval.setKey
  split
  · exact fault _
  · refine modify fun m good => ⟨good.frames, fun t member => ?_, good.functions⟩
    obtain ⟨i, inside, rfl⟩ := Array.mem_iff_getElem.mp member
    rw [Array.getElem_modify]
    split
    · exact Table.within_insert (good.tables _ (Array.getElem_mem _)) key value
    · exact good.tables _ (Array.getElem_mem _)

theorem store (scope : Scope) {place : Place} {v : Value} (there : place.Within given)
    (h : v.Within given) : Stays given (Eval.store scope place v) Anything := by
  cases place with
  | «variable» name => exact assign scope name h
  | slot id key => exact setKey id there h

theorem storeAll (scope : Scope) {places : List Place} {vs : List Value}
    (there : ∀ place ∈ places, place.Within given) (h : AllWithin given vs) :
    Stays given (Eval.storeAll scope places vs) Anything := by
  induction places generalizing vs with
  | nil => exact done
  | cons place places ih =>
    cases vs with
    | nil => exact done
    | cons v vs =>
      obtain ⟨first, rest⟩ := List.forall_mem_cons.mp there
      obtain ⟨head, tail⟩ := List.forall_mem_cons.mp h
      exact (store scope first head).bind fun _ _ => ih rest tail

/-! ## Conversions and operators -/

/-- A conversion to a number crashes only on an oversize text. -/
theorem toNumber? {v : Value} (h : v.Within given) :
    Stays given (Eval.toNumber? v) Anything := by
  unfold Eval.toNumber? ofNumeral
  cases read : v.toNumber? with
  | ok x => exact done
  | error why =>
    obtain ⟨text, rfl, large⟩ := Value.toNumber?_eq_error.mp read
    cases why
    exact throw ⟨rfl, text, h, large⟩

theorem operate {op : BinaryOp} {a b : Value} (left : a.Within given) (right : b.Within given) :
    Stays given (Eval.operate op a b) (·.Within given) := by
  unfold Eval.operate
  split
  next v result => exact pure (Value.within_binary left right result)
  next result =>
    obtain ⟨text, operand, large⟩ := Value.binary_eq_numeral result
    refine throw ⟨rfl, text, ?_, large⟩
    rcases operand with rfl | rfl
    · exact left
    · exact right
  next => exact fault _
  next => exact fault _
  next => exact fault _

theorem forNumber (what : ForOperand) {v : Value} (h : v.Within given) :
    Stays given (Eval.forNumber what v) Anything := by
  refine (toNumber? h).bind fun x _ => ?_
  cases x with
  | none => exact fault _
  | some x => exact done

theorem textOf (v : Value) : Stays given (Eval.textOf v) Anything := by
  fun_induction Eval.textOf v with
  | case6 r =>
    have counted : Stays given (ordinal r) Anything := by
      refine modifyGet fun m good => ?_
      split
      · exact ⟨good, trivial⟩
      · exact ⟨⟨good.frames, good.tables, good.functions⟩, trivial⟩
    exact counted.bind fun _ _ => done
  | case8 v vs ih => exact ih
  | _ => exact done

theorem write (text : String) : Stays given (Eval.write text) Anything :=
  modify fun _ good => ⟨good.frames, good.tables, good.functions⟩

theorem print (args : List Value) : Stays given (args.mapM Eval.textOf) Anything := by
  induction args with
  | nil => exact done
  | cons v args ih =>
    rw [List.mapM_cons]
    exact (textOf v).bind fun _ _ => ih.bind fun _ _ => done

theorem pairsTable (args : List Value) : Stays given (Eval.pairsTable args) Anything := by
  unfold Eval.pairsTable
  split
  · exact fault _
  · exact (traceLine _).bind fun _ _ => done
  · exact fault _

end Eval.Stays

end MiniLua

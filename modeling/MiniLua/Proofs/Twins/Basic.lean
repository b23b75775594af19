import MiniLua.Proofs.Reading.Ahead
import MiniLua.Proofs.Twins.Balance

/-!
# Reading two texts side by side

Two texts show the grammar the same tokens, the second one perhaps a closing parenthesis more. Then
a parser reads the same in both, up to lines. What it reads has balanced parentheses, so that the
parenthesis at the end of the second text is left over.
-/

namespace MiniLua

open MiniLua.Parser MiniLua.Lexeme

/-- A text, and a text that shows the same tokens and then `extra`. -/
structure Pair where
  left : List Char
  right : List Char
  extra : List Lexeme

/-- From these places of the texts the tokens `w` are ahead in both. -/
structure Twins (P : Pair) (c d : Cursor) (w : List Lexeme) : Prop where
  left : Ahead P.left c w
  right : Ahead P.right d (w ++ P.extra)
  last : P.extra = [] ∨ P.extra = [.symbol ")"] ∧ Closed w

/-- Two parsers did the same: they read the same tokens for the same value as `view` sees it, or
both failed, or both stopped at an expression that is no statement. If `strict` they have read a
token. -/
inductive Agrees {α γ : Type} (P : Pair) (view : α → γ) (strict : Bool) (w : List Lexeme) :
    Reply α → Reply α → Prop
  | ok {a b : α} {c d : Cursor} {u w' : List Lexeme} (same : view a = view b)
      (split : w = u ++ w') (balanced : Balanced u) (moved : strict = true → u ≠ [])
      (twins : Twins P c d w') : Agrees P view strict w (.ok a c) (.ok b d)
  | fail : Agrees P view strict w .fail .fail
  | stop {c d : Cursor} (ahead : strict = true → w ≠ []) :
      Agrees P view strict w (.stop (.notStatement c)) (.stop (.notStatement d))

/-- The parsers do the same wherever less than `n` tokens are ahead. -/
def Alike {α γ : Type} (P : Pair) (n : Nat) (strict : Bool) (view : α → γ) (p q : Parser α) :
    Prop :=
  ∀ c d w, w.length < n → Twins P c d w → Agrees P view strict w (p c) (q d)

variable {P : Pair} {α β γ δ : Type} {n : Nat} {strict : Bool} {view : α → γ}

namespace Twins

variable {c d : Cursor} {w : List Lexeme}

theorem skip (h : Twins P c d w) : Twins P (Parser.skip c) (Parser.skip d) w :=
  ⟨h.left.skip, h.right.skip, h.last⟩

theorem skipComments (h : Twins P c d w) :
    Twins P (Parser.skipComments c) (Parser.skipComments d) w :=
  ⟨h.left.skipComments, h.right.skipComments, h.last⟩

theorem after {l : Lexeme} {c' d' : Cursor} (h : Twins P c d (l :: w)) (left : Ahead P.left c' w)
    (right : Ahead P.right d' (w ++ P.extra)) : Twins P c' d' w where
  left := left
  right := right
  last := h.last.imp_right fun ⟨extra, closed⟩ =>
    ⟨extra, closed.suffix (List.suffix_cons l w)⟩

/-- Where the first text is over there is nothing in the second but the extra parenthesis. -/
theorem nothing {reads : Lexeme → Option α} {q : Parser β} {g : α → Parser β} (h : Twins P c d [])
    (second : Takes P.right q reads g) (refused : reads (.symbol ")") = none) : q d = .fail := by
  have right := h.right
  rw [List.nil_append] at right
  rcases h.last with none | ⟨closing, -⟩
  · exact second.nothing (none ▸ right)
  · exact second.other (closing ▸ right) refused

end Twins

/-! ## Outcomes -/

namespace Agrees

variable {r r' : Reply α} {u w : List Lexeme}

/-- Nothing but balanced tokens before. -/
theorem after (h : Agrees P view strict w r r') (balanced : Balanced u) {strict' : Bool}
    (moved : strict' = true → u ≠ [] ∨ strict = true) : Agrees P view strict' (u ++ w) r r' := by
  have some : strict' = true → ∀ v, (strict = true → v ≠ []) → u ++ v ≠ [] := by
    intro h v tail none
    obtain ⟨rfl, rfl⟩ := List.append_eq_nil_iff.mp none
    exact (moved h).elim (fun some => some rfl) fun h => tail h rfl
  cases h with
  | @ok a b c d u' w' same split balanced' moved' twins =>
    refine .ok same (u := u ++ u') ?_ (balanced.append balanced')
      (fun h => some h u' moved') twins
    rw [split, List.append_assoc]
  | fail => exact .fail
  | stop ahead => exact .stop fun h => some h w ahead

/-- A parser that has to read a token fails where there is none. -/
theorem of_nil (h : Agrees P view true [] r r') : r = .fail ∧ r' = .fail := by
  cases h with
  | ok same split balanced moved twins =>
    exact absurd (List.append_eq_nil_iff.mp split.symm).1 (moved rfl)
  | fail => exact ⟨rfl, rfl⟩
  | stop ahead => exact absurd rfl (ahead rfl)

end Agrees

/-! ## Parsers -/

namespace Alike

variable {p q : Parser α}

theorem mono (h : Alike P n strict view p q) {m : Nat} (fewer : m ≤ n) :
    Alike P m strict view p q :=
  fun _ _ _ short twins => h _ _ _ (Nat.lt_of_lt_of_le short fewer) twins

theorem zero : Alike P 0 strict view p q :=
  fun _ _ _ short _ => absurd short (Nat.not_lt_zero _)

theorem of_succ (h : ∀ m, Alike P (m + 1) strict view p q) : Alike P n strict view p q := by
  cases n with
  | zero => exact .zero
  | succ n => exact h n

theorem pure {a b : α} (same : view a = view b) :
    Alike P n false view (Pure.pure a) (Pure.pure b) :=
  fun _ _ _ _ twins => .ok same (List.nil_append _).symm .nil (fun h => by cases h) twins

theorem stop {x y : Cursor} :
    Alike P n false view (Parser.stop (.notStatement x)) (Parser.stop (.notStatement y)) :=
  fun _ _ _ _ _ => .stop fun h => by cases h

theorem sequence {f g : α → Parser β} {view' : β → δ} {strict' : Bool} {m : Nat}
    (first : Alike P n strict view p q) (enough : m = n ∨ strict = true ∧ n = m + 1)
    (others : ∀ a b, view a = view b → Alike P m strict' view' (f a) (g b)) :
    Alike P n strict view' (p >>= f) (q >>= g) := by
  intro c d w short twins
  have agree := first c d w short twins
  generalize read : p c = r at agree
  generalize read' : q d = r' at agree
  cases agree with
  | @ok a b c' d' u w' same split balanced moved twins' =>
    rw [bind_of_ok read, bind_of_ok read', split]
    refine (others a b same c' d' w' ?_ twins').after balanced fun strict => .inl (moved strict)
    rw [split, List.length_append] at short
    rcases enough with rfl | ⟨strict, rfl⟩
    · omega
    · have := List.length_pos_iff.mpr (moved strict)
      omega
  | fail =>
    rw [bind_of_fail read, bind_of_fail read']
    exact .fail
  | stop ahead =>
    rw [bind_of_stop read, bind_of_stop read']
    exact .stop ahead

theorem bind {f g : α → Parser β} {view' : β → δ} {strict' : Bool}
    (first : Alike P n strict view p q)
    (others : ∀ a b, view a = view b → Alike P n strict' view' (f a) (g b)) :
    Alike P n strict view' (p >>= f) (q >>= g) :=
  first.sequence (.inl rfl) others

/-- After a token less tokens are ahead. -/
theorem next {f g : α → Parser β} {view' : β → δ} {strict' : Bool}
    (first : Alike P (n + 1) true view p q)
    (others : ∀ a b, view a = view b → Alike P n strict' view' (f a) (g b)) :
    Alike P (n + 1) true view' (p >>= f) (q >>= g) :=
  first.sequence (.inr ⟨rfl, rfl⟩) others

theorem map {f : α → β} {view' : β → δ} (first : Alike P n strict view p q)
    (same : ∀ a b, view a = view b → view' (f a) = view' (f b)) :
    Alike P n strict view' (f <$> p) (f <$> q) :=
  first.bind fun a b h => .pure (same a b h)

theorem here {f g : Cursor → Parser α} (h : ∀ x y, Alike P n strict view (f x) (g y)) :
    Alike P n strict view (Parser.here >>= f) (Parser.here >>= g) :=
  fun c d w short twins => h c d c d w short twins

theorem mark {f g : Cursor → Parser α} (h : ∀ x y, Alike P n strict view (f x) (g y)) :
    Alike P n strict view (Parser.mark >>= f) (Parser.mark >>= g) :=
  fun _ _ _ short twins => h _ _ _ _ _ short twins.skipComments

theorem exact {f g : Cursor → Parser α} (h : ∀ x y, Alike P n strict view (f x) (g y)) :
    Alike P n strict view (Parser.exact >>= f) (Parser.exact >>= g) :=
  fun _ _ _ short twins => h _ _ _ _ _ short twins.skip

theorem orElse {p' q' : Parser α} (first : Alike P n strict view p q)
    (second : Alike P n strict view p' q') :
    Alike P n strict view (p <|> p') (q <|> q') := by
  intro c d w short twins
  have agree := first c d w short twins
  generalize read : p c = r at agree
  generalize read' : q d = r' at agree
  cases agree with
  | ok same split balanced moved twins' =>
    rw [orElse_of_ok read, orElse_of_ok read']
    exact .ok same split balanced moved twins'
  | fail =>
    rw [orElse_of_fail read, orElse_of_fail read']
    exact second c d w short twins
  | stop ahead =>
    rw [orElse_of_stop read, orElse_of_stop read']
    exact .stop ahead

theorem opt (h : Alike P n strict view p q) :
    Alike P n false (Option.map view) (Parser.opt p) (Parser.opt q) := by
  intro c d w short twins
  have agree := h c d w short twins
  unfold Parser.opt
  generalize p c = r at agree
  generalize q d = r' at agree
  cases agree with
  | ok same split balanced moved twins' =>
    exact .ok (congrArg some same) split balanced (fun h => by cases h) twins'
  | fail => exact .ok rfl (List.nil_append _).symm .nil (fun h => by cases h) twins.skip
  | stop ahead => exact .stop fun h => by cases h

/-! ### Repetitions -/

/-- However many repetitions are allowed, if only as many as there are tokens ahead. -/
theorem manyAfter (h : Alike P n true view p q) {fuel fuel' : Nat} {c d : Cursor}
    {w : List Lexeme} (enough : w.length ≤ fuel) (enough' : w.length ≤ fuel')
    (short : w.length < n) (twins : Twins P c d w) :
    Agrees P (List.map view) false w (Parser.manyAfter p fuel c)
      (Parser.manyAfter q fuel' d) := by
  have finished : ∀ {p : Parser α} {fuel : Nat} {c}, p (Parser.skipComments c) = .fail →
      Parser.manyAfter p fuel c = .ok [] c := by
    intro p fuel c none
    cases fuel with
    | zero => rfl
    | succ fuel => simp only [Parser.manyAfter, none]
  have done : Agrees P (List.map view) false w (.ok [] c) (.ok [] d) :=
    .ok rfl (List.nil_append w).symm .nil (fun h => by cases h) twins
  induction fuel generalizing fuel' c d w with
  | zero =>
    obtain rfl := List.length_eq_zero_iff.mp (Nat.le_zero.mp enough)
    obtain ⟨none, none'⟩ := (h _ _ _ short twins.skipComments).of_nil
    rw [finished none, finished none']
    exact done
  | succ fuel ih =>
    have agree := h _ _ w short twins.skipComments
    generalize read : p (Parser.skipComments c) = r at agree
    generalize read' : q (Parser.skipComments d) = r' at agree
    cases agree with
    | fail =>
      rw [finished read, finished read']
      exact done
    | stop ahead =>
      obtain ⟨l, w, rfl⟩ := List.exists_cons_of_ne_nil (ahead rfl)
      obtain ⟨fuel', rfl⟩ := Nat.exists_eq_succ_of_ne_zero (Nat.ne_zero_of_lt enough')
      simp only [Parser.manyAfter, read, read']
      exact .stop fun h => by cases h
    | @ok a b c' d' u w' same split balanced moved twins' =>
      have positive := List.length_pos_iff.mpr (moved rfl)
      rw [split, List.length_append] at enough enough' short
      obtain ⟨fuel', rfl⟩ := Nat.exists_eq_succ_of_ne_zero (show fuel' ≠ 0 by omega)
      have tail := ih (show w'.length ≤ fuel by omega) (show w'.length ≤ fuel' by omega)
        (by omega) twins'
        (.ok rfl (List.nil_append w').symm .nil (fun h => by cases h) twins')
      simp only [Parser.manyAfter, read, read', split]
      generalize Parser.manyAfter p fuel c' = r at tail
      generalize Parser.manyAfter q fuel' d' = r' at tail
      cases tail with
      | ok sames split' balanced' moved' twins'' =>
        refine .ok ?_ (by rw [split', List.append_assoc]) (balanced.append balanced')
          (fun h => by cases h) twins''
        rw [List.map_cons, List.map_cons, same, sames]
      | fail => exact .fail
      | stop ahead => exact .stop fun h => by cases h

theorem many (h : Alike P n true view p q) :
    Alike P n false (List.map view) (Parser.many p) (Parser.many q) := by
  intro c d w short twins
  have agree := h c d w short twins
  unfold Parser.many
  generalize p c = r at agree
  generalize q d = r' at agree
  cases agree with
  | fail => exact .ok rfl (List.nil_append w).symm .nil (fun h => by cases h) twins
  | stop ahead => exact .stop fun h => by cases h
  | @ok a b c' d' u w' same split balanced moved twins' =>
    have right := twins'.right.length_le
    rw [List.length_append] at right
    have tail := h.manyAfter twins'.left.length_le (show w'.length ≤ d'.rest.length by omega)
      (by rw [split, List.length_append] at short; omega) twins'
    rw [split]
    dsimp only
    generalize Parser.manyAfter p c'.rest.length c' = r at tail
    generalize Parser.manyAfter q d'.rest.length d' = r' at tail
    cases tail with
    | ok sames split' balanced' moved' twins'' =>
      refine .ok ?_ (by rw [split', List.append_assoc]) (balanced.append balanced')
        (fun h => by cases h) twins''
      rw [List.map_cons, List.map_cons, same, sames]
    | fail => exact .fail
    | stop ahead => exact .stop fun h => by cases h

/-! ### Tokens -/

/-- Both read the same token, which is no parenthesis. -/
theorem token {p q : Parser β} {view : β → γ} {f g : α → Parser β}
    {reads : Lexeme → Option α} (first : Takes P.left p reads f)
    (second : Takes P.right q reads g) (flat : ∀ l a, reads l = some a → l.nesting = 0)
    (others : ∀ a, Alike P n strict view (f a) (g a)) : Alike P (n + 1) true view p q := by
  intro c d w short twins
  cases w with
  | nil =>
    have refused : reads (.symbol ")") = none := by
      by_contra some
      obtain ⟨a, found⟩ := Option.ne_none_iff_exists'.mp some
      exact absurd (flat _ a found) (by decide)
    rw [first.nothing twins.left, twins.nothing second refused]
    exact .fail
  | cons l w =>
    have right := twins.right
    rw [List.cons_append] at right
    cases found : reads l with
    | none =>
      rw [first.other twins.left found, second.other right found]
      exact .fail
    | some a =>
      obtain ⟨c', left', read⟩ := first.token twins.left found
      obtain ⟨d', right', read'⟩ := second.token right found
      rw [read, read', ← List.singleton_append]
      refine (others a c' d' w (Nat.lt_of_succ_lt_succ short) (twins.after left' right')).after
        (.singleton (flat l a found)) fun _ => .inl (List.cons_ne_nil _ _)

/-- A terminal that reads no parenthesis. -/
theorem terminal {reads : Lexeme → Option α} (both : ∀ {text}, Takes text p reads Pure.pure)
    (flat : ∀ l a, reads l = some a → l.nesting = 0) : Alike P n true id p p :=
  .of_succ fun _ => .token both both flat fun _ => .pure rfl

theorem keyword {word : String} (known : word ∈ keywords) :
    Alike P n true id (Parser.keyword word) (Parser.keyword word) := by
  refine .terminal (takes_keyword known) fun l u some => ?_
  rw [Lexeme.only_eq_some.mp some]
  rfl

theorem symbol {s : String} (whole : Whole s) (flat : (Lexeme.symbol s).nesting = 0) :
    Alike P n true id (Parser.symbol s) (Parser.symbol s) := by
  refine .terminal (takes_symbol whole) fun l u some => ?_
  rw [Lexeme.only_eq_some.mp some, flat]

theorem name : Alike P n true id Parser.name Parser.name := by
  refine .terminal takes_name fun l word some => ?_
  cases l with
  | name => rfl
  | _ => cases some

theorem number : Alike P n true id Parser.number Parser.number := by
  refine .terminal takes_number fun l value some => ?_
  cases l with
  | number => rfl
  | _ => cases some

theorem string : Alike P n true id Parser.string Parser.string := by
  refine .terminal takes_string fun l text some => ?_
  cases l with
  | string => rfl
  | _ => cases some

/-- Both read the same closing parenthesis, or none; the extra one is not read, because then an
opening one would be without it in the first text. -/
theorem closing {f g : α → Parser β} {view' : β → δ} {strict' : Bool} {a b : α} {c d c' d' : Cursor}
    {u w : List Lexeme} (short : w.length < n)
    (before : Twins P c d (.symbol "(" :: u ++ w)) (twins : Twins P c' d' w) (inner : Balanced u)
    (others : Alike P n strict' view' (f a) (g b)) :
    Agrees P view' true (.symbol "(" :: u ++ w)
      ((Parser.symbol ")" >>= fun _ => f a) c') ((Parser.symbol ")" >>= fun _ => g b) d') := by
  have first : Takes P.left (Parser.symbol ")" >>= fun _ => f a) _ fun _ => f a :=
    (takes_symbol (by decide)).then _
  have second : Takes P.right (Parser.symbol ")" >>= fun _ => g b) _ fun _ => g b :=
    (takes_symbol (by decide)).then _
  cases w with
  | nil =>
    have right := twins.right
    rw [List.nil_append] at right
    rcases before.last with none | ⟨-, closed⟩
    · rw [none] at right
      rw [first.nothing twins.left, second.nothing right]
      exact .fail
    · rw [List.append_nil] at closed
      exact absurd closed inner.not_closed
  | cons l w =>
    have right := twins.right
    rw [List.cons_append] at right
    cases found : Lexeme.only (.symbol ")") l with
    | none =>
      rw [first.other twins.left found, second.other right found]
      exact .fail
    | some u' =>
      obtain ⟨c'', left', read⟩ := first.token twins.left found
      obtain ⟨d'', right', read'⟩ := second.token right found
      obtain rfl := Lexeme.only_eq_some.mp found
      rw [read, read', List.append_cons]
      rw [List.length_cons] at short
      exact (others c'' d'' w (by omega) (twins.after left' right')).after inner.parens
        fun _ => .inl (by simp)

/-- Something in parentheses. -/
theorem parens {f g : α → Parser β} {view' : β → δ} {strict' : Bool}
    (inner : Alike P n strict view p q)
    (others : ∀ a b, view a = view b → Alike P n strict' view' (f a) (g b)) :
    Alike P (n + 1) true view'
      (Parser.symbol "(" >>= fun _ => p >>= fun a => Parser.symbol ")" >>= fun _ => f a)
      (Parser.symbol "(" >>= fun _ => q >>= fun a => Parser.symbol ")" >>= fun _ => g a) := by
  intro c d w short twins
  have first : Takes P.left (Parser.symbol "(" >>= fun _ => p >>= fun a => Parser.symbol ")" >>=
      fun _ => f a) _ _ := (takes_symbol (by decide)).then _
  have second : Takes P.right (Parser.symbol "(" >>= fun _ => q >>= fun a => Parser.symbol ")" >>=
      fun _ => g a) _ _ := (takes_symbol (by decide)).then _
  cases w with
  | nil =>
    rw [first.nothing twins.left, twins.nothing second (Lexeme.only_eq_none.mpr (by decide))]
    exact .fail
  | cons l w =>
    have right := twins.right
    rw [List.cons_append] at right
    cases found : Lexeme.only (.symbol "(") l with
    | none =>
      rw [first.other twins.left found, second.other right found]
      exact .fail
    | some u =>
      obtain ⟨c', left', opened⟩ := first.token twins.left found
      obtain ⟨d', right', opened'⟩ := second.token right found
      obtain rfl := Lexeme.only_eq_some.mp found
      rw [opened, opened']
      have short : w.length < n := Nat.lt_of_succ_lt_succ short
      have agree := inner c' d' w short (twins.after left' right')
      generalize read : p c' = r at agree
      generalize read' : q d' = r' at agree
      cases agree with
      | @ok a b c'' d'' u w' same split balanced moved twins' =>
        subst split
        rw [bind_of_ok read, bind_of_ok read', ← List.cons_append]
        rw [List.length_append] at short
        exact closing (by omega) twins twins' balanced (others a b same)
      | fail =>
        rw [bind_of_fail read, bind_of_fail read']
        exact .fail
      | stop ahead =>
        rw [bind_of_stop read, bind_of_stop read']
        exact .stop fun _ => List.cons_ne_nil _ _

end Alike

end MiniLua

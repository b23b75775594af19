import MiniLua.Proofs.Rendering.Precedence

/-!
# Expressions are read back

An expression without operators is told apart by its first token, and a table field by its first
two. So each of them is read back from its tokens if the expressions and blocks inside it are.
-/

namespace MiniLua

open MiniLua.Parser MiniLua.Grammar

/-! ## First tokens -/

/-- The tokens that an expression without operators starts with. -/
def Lexeme.opensOperand : Lexeme → Bool
  | .keyword word => word ∈ ["nil", "true", "false", "function"]
  | .symbol s => s ∈ ["\x7b", "("]
  | .endOfText => false
  | _ => true

/-- The tokens that an expression starts with. -/
def Lexeme.opensExpression (l : Lexeme) : Bool :=
  l.opensOperand || l ∈ [.keyword "not", .symbol "#", .symbol "-"]

/-- What follows starts no expression. -/
def Unopened (rest : List Lexeme) : Prop := ∀ l, rest.head? = some l → l.opensExpression = false

theorem Unopened.cons {l : Lexeme} {rest : List Lexeme} (h : l.opensExpression = false) :
    Unopened (l :: rest) := by
  intro l' head
  cases head
  exact h

namespace Expr

/-- The tokens of `e` are `l` and `w`, and `l` tells what kind of expression `e` may be. -/
structure Leads (e : Expr) (l : Lexeme) (w : List Lexeme) : Prop where
  tokens : e.tokens = l :: w
  opens : l.opensExpression = true
  operand : 8 ≤ e.level → l.opensOperand = true
  head : e.isHead = true → l = .symbol "(" ∨ ∃ n, l = .name n
  named : ∀ n, l = .name n → w.head? ≠ some (.symbol "=")

theorem level_of_isHead {e : Expr} (h : e.isHead = true) : e.level = 9 := by
  cases e with
  | name => rfl
  | paren => rfl
  | index => rfl
  | call => rfl
  | _ => cases h

/-- What starts with an expression starts with the expression's first token. -/
theorem Leads.extend {first e : Expr} {l next : Lexeme} {w rest : List Lexeme}
    (h : Leads first l w) (tokens : e.tokens = first.tokens ++ next :: rest)
    (differs : next ≠ .symbol "=") (operand : 8 ≤ e.level → 8 ≤ first.level)
    (head : e.isHead = true → first.isHead = true) : Leads e l (w ++ next :: rest) where
  tokens := by rw [tokens, h.tokens, List.cons_append]
  opens := h.opens
  operand tight := h.operand (operand tight)
  head heads := h.head (head heads)
  named n same := by
    have later := h.named n same
    cases w with
    | nil => simpa using differs
    | cons l' w => exact later

theorem Leads.of_opensOperand {e : Expr} {l : Lexeme} {w : List Lexeme} (tokens : e.tokens = l :: w)
    (opens : l.opensOperand = true) (head : e.isHead = true → l = .symbol "(" ∨ ∃ n, l = .name n)
    (named : ∀ n, l = .name n → w.head? ≠ some (.symbol "=")) : Leads e l w where
  tokens := tokens
  opens := by rw [Lexeme.opensExpression, opens, Bool.true_or]
  operand _ := opens
  head := head
  named := named

/-- A token that is no name leads an expression that can neither be called nor indexed. -/
theorem Leads.of_plain {e : Expr} {l : Lexeme} {w : List Lexeme} (tokens : e.tokens = l :: w)
    (opens : l.opensOperand = true) (plain : e.isHead = false) (unnamed : ∀ n, l ≠ .name n) :
    Leads e l w :=
  .of_opensOperand tokens opens (fun head => absurd (plain.symm.trans head) (by decide))
    fun n same => absurd same (unnamed n)

theorem Leads.of_unary {op : UnaryOp} {operand : Expr} {line : Nat} {l : Lexeme} {w : List Lexeme}
    (tokens : (Expr.unary op operand line).tokens = l :: w) (opens : l.opensExpression = true)
    (unnamed : ∀ n, l ≠ .name n) : Leads (.unary op operand line) l w where
  tokens := tokens
  opens := opens
  operand tight := absurd tight (by simp [level])
  head heads := by cases heads
  named n same := absurd same (unnamed n)

theorem leads {e : Expr} (wellFormed : e.wellFormed = true) : ∃ l w, Leads e l w := by
  cases e with
  | nil | number | string | function | table =>
    exact ⟨_, _, .of_plain rfl rfl rfl (by simp)⟩
  | bool value => cases value <;> exact ⟨_, _, .of_plain rfl rfl rfl (by simp)⟩
  | name n => exact ⟨_, _, .of_opensOperand rfl rfl (fun _ => .inr ⟨n, rfl⟩) (by simp)⟩
  | paren => exact ⟨_, _, .of_opensOperand rfl rfl (fun _ => .inl rfl) (by simp)⟩
  | index target key =>
    simp only [Expr.wellFormed, Bool.and_eq_true] at wellFormed
    obtain ⟨⟨heads, formed⟩, -⟩ := wellFormed
    obtain ⟨l, w, h⟩ := leads formed
    refine ⟨l, _, h.extend (List.append_assoc ..) (by simp) ?_ fun _ => heads⟩
    exact fun _ => (Nat.le_succ 8).trans (level_of_isHead heads).ge
  | call call =>
    cases call with | mk callee args =>
    simp only [Expr.wellFormed, Call.wellFormed, Bool.and_eq_true] at wellFormed
    obtain ⟨⟨heads, formed⟩, -⟩ := wellFormed
    obtain ⟨l, w, h⟩ := leads formed
    refine ⟨l, _, h.extend (List.append_assoc ..) (by simp) ?_ fun _ => heads⟩
    exact fun _ => (Nat.le_succ 8).trans (level_of_isHead heads).ge
  | logical op left right =>
    simp only [Expr.wellFormed, Bool.and_eq_true] at wellFormed
    obtain ⟨l, w, h⟩ := leads wellFormed.1.2
    refine ⟨l, _, h.extend rfl (by simp) (fun tight => ?_) (by rintro ⟨⟩)⟩
    exact absurd (tight.trans op.level_le) (by decide)
  | binary op left right =>
    simp only [Expr.wellFormed, Bool.and_eq_true] at wellFormed
    obtain ⟨⟨⟨tightLeft, -⟩, formed⟩, -⟩ := wellFormed
    obtain ⟨l, w, h⟩ := leads formed
    refine ⟨l, _, h.extend rfl ?_ (fun tight => ?_) (by rintro ⟨⟩)⟩
    · rcases op with (_ | _ | _ | _ | _ | _ | _) | _ | _ | _ | _ | _ | _ | _ <;>
        simp [BinaryOp.symbol, ArithOp.symbol]
    · obtain rfl := op.eq_pow_of_level (Nat.le_antisymm op.level_le tight)
      exact (Nat.le_succ 8).trans (of_decide_eq_true tightLeft)
  | unary op =>
    cases op with
    | other => simp at wellFormed
    | _ => exact ⟨_, _, .of_unary rfl rfl (by simp [UnaryOp.lexeme])⟩
  | other => simp at wellFormed

end Expr

/-! ## Where no expression starts -/

variable {α γ ι : Type} {p : Parser α} {w rest : List Lexeme}

/-- A parser that needs an expression is not misled by tokens that start none. -/
theorem Rejects.of_refuses (refuses : Refuses p) (closed : Unopened w) : Rejects p w := by
  have other : ∀ l, l.opensExpression = true → w.head? ≠ some l := fun l opens head =>
    absurd opens (by rw [closed l head]; decide)
  intro text c ahead
  refine refuses c ⟨?_, ?_, ?_, ?_⟩ ?_
  · intro word known
    simp only [List.mem_cons, List.not_mem_nil, or_false] at known
    rcases known with rfl | rfl | rfl | rfl | rfl <;>
      exact rejects_keyword (by simp [keywords]) (other _ rfl) text c ahead
  · intro s known
    simp only [List.mem_cons, List.not_mem_nil, or_false] at known
    rcases known with rfl | rfl | rfl | rfl <;>
      exact rejects_symbol (by decide) (other _ rfl) text c ahead
  · exact rejects_name (fun _ => other _ rfl) text c ahead
  · exact rejects_number (fun _ => other _ rfl) text c ahead
  · exact rejects_string (fun _ => other _ rfl) text c ahead

theorem rejects_nameRef (other : ∀ n, w.head? ≠ some (.name n)) : Rejects nameRef w :=
  .mark fun _ => (rejects_name other).bind _

def Lexeme.isLiteral : Lexeme → Bool
  | .keyword word => word ∈ ["nil", "true", "false"]
  | .number _ => true
  | .string _ => true
  | _ => false

theorem rejects_literal {l : Lexeme} (other : l.isLiteral = false) : Rejects literal (l :: w) := by
  have differs : ∀ l' : Lexeme, l'.isLiteral = true → (l :: w).head? ≠ some l' := by
    rintro l' literal same
    cases same
    rw [other] at literal
    cases literal
  refine .exact fun _ => .orElse ?_ (.orElse ?_ (.orElse ?_ (.orElse ?_ ?_)))
  · exact (rejects_keyword (by simp [keywords]) (differs _ rfl)).bind _
  · exact (rejects_keyword (by simp [keywords]) (differs _ rfl)).bind _
  · exact (rejects_keyword (by simp [keywords]) (differs _ rfl)).bind _
  · exact (rejects_number fun _ => differs _ rfl).bind _
  · exact (rejects_string fun _ => differs _ rfl).bind _

theorem rejects_unaryOperator {l : Lexeme} (opens : l.opensOperand = true) :
    Rejects unaryOperator (l :: w) := by
  have differs : ∀ l' : Lexeme, l'.opensOperand = false → (l :: w).head? ≠ some l' := by
    rintro l' closed same
    cases same
    rw [opens] at closed
    cases closed
  refine .orElse ?_ (.orElse ?_ ?_)
  · exact (rejects_keyword (by simp [keywords]) (differs _ rfl)).bind _
  · exact (rejects_symbol (by decide) (differs _ rfl)).bind _
  · exact (rejects_symbol (by decide) (differs _ rfl)).bind _

/-! ## Operators and literals -/

theorem yields_unaryOperator {op : UnaryOp} (known : ∀ s, op ≠ .other s) :
    Yields unaryOperator id op (op.lexeme :: w) w := by
  cases op with
  | not => exact .left ((yields_keyword (by simp [keywords])).bind fun _ _ => .pure rfl)
  | len =>
    refine .right ((rejects_keyword (by simp [keywords]) ?_).bind _) (.left ?_)
    · simp [UnaryOp.lexeme]
    · exact (yields_symbol (by decide)).bind fun _ _ => .pure rfl
  | neg =>
    refine .right ((rejects_keyword (by simp [keywords]) ?_).bind _) (.right ?_ ?_)
    · simp [UnaryOp.lexeme]
    · exact (rejects_symbol (by decide) (by simp [UnaryOp.lexeme, UnaryOp.symbol])).bind _
    · exact (yields_symbol (by decide)).bind fun _ _ => .pure rfl
  | other s => exact absurd rfl (known s)

theorem literal_nil : Yields literal Expr.erase (.nil 0) (.keyword "nil" :: rest) rest :=
  .exact fun _ => .left <| (yields_keyword (by simp [keywords])).bind fun _ _ => .pure rfl

theorem literal_bool {value : Bool} {line : Nat} :
    Yields literal Expr.erase (.bool value 0) ((Expr.bool value line).tokens ++ rest) rest := by
  refine .exact fun _ => .right ?_ ?_
  · refine (rejects_keyword (by simp [keywords]) ?_).bind _
    cases value <;> simp
  cases value with
  | true => exact .left <| (yields_keyword (by simp [keywords])).bind fun _ _ => .pure rfl
  | false =>
    refine .right ((rejects_keyword (by simp [keywords]) (by simp)).bind _) (.left ?_)
    exact (yields_keyword (by simp [keywords])).bind fun _ _ => .pure rfl

theorem literal_number {value : Float} :
    Yields literal Expr.erase (.number value 0) (.number value :: rest) rest := by
  have word : ∀ word ∈ keywords, Rejects (keyword word) (.number value :: rest) :=
    fun _ known => rejects_keyword known (by simp)
  refine .exact fun _ => .right ((word _ (by simp [keywords])).bind _) <|
    .right ((word _ (by simp [keywords])).bind _) <|
    .right ((word _ (by simp [keywords])).bind _) <|
    .left (yields_number.bind fun value' same => .pure ?_)
  rw [Expr.erase, ← show value' = value from same]

theorem literal_string {text : String} :
    Yields literal Expr.erase (.string text 0) (.string text :: rest) rest := by
  have word : ∀ word ∈ keywords, Rejects (keyword word) (.string text :: rest) :=
    fun _ known => rejects_keyword known (by simp)
  refine .exact fun _ => .right ((word _ (by simp [keywords])).bind _) <|
    .right ((word _ (by simp [keywords])).bind _) <|
    .right ((word _ (by simp [keywords])).bind _) <|
    .right ((rejects_number (by simp)).bind _) (yields_string.bind fun text' same => .pure ?_)
  rw [Expr.erase, ← show text' = text from same]

/-! ## Repeated parts -/

/-- A part that is read wherever `good` holds of what follows is read again and again, if it goes
before more of its kind. -/
theorem Repeats.flatMap {view : α → γ} {tokens : ι → List Lexeme} {value : ι → γ} {items : List ι}
    (good : List Lexeme → Prop) (some : ∀ x ∈ items, tokens x ≠ [])
    (before : ∀ x ∈ items, ∀ rest, good (tokens x ++ rest))
    (each : ∀ x ∈ items, ∀ rest, good rest → Yields p view (value x) (tokens x ++ rest) rest)
    (ends : good rest) (last : Rejects p rest) :
    Repeats p view (items.map value) (items.flatMap tokens ++ rest) rest := by
  induction items with
  | nil => exact .nil last
  | cons x items ih =>
    have others := ih (fun y member => some y (List.mem_cons_of_mem x member))
      (fun y member => before y (List.mem_cons_of_mem x member))
      fun y member => each y (List.mem_cons_of_mem x member)
    have next : good (items.flatMap tokens ++ rest) := by
      cases items with
      | nil => exact ends
      | cons y items =>
        rw [List.flatMap_cons, List.append_assoc]
        exact before y (by simp) _
    rw [List.flatMap_cons, List.append_assoc, List.map_cons]
    refine .cons (each x List.mem_cons_self _ next) ?_ others
    have := List.length_pos_iff.mpr (some x List.mem_cons_self)
    simp only [List.length_append] at this ⊢
    omega

/-- Parts with commas between. -/
theorem Yields.commaList {view : α → γ} {tokens : ι → List Lexeme} {value : ι → γ} {first : ι}
    {others : List ι} {k : Nat} (low : 0 < k)
    (each : ∀ x ∈ first :: others, ∀ rest, Looser k rest →
      Yields p view (value x) (tokens x ++ rest) rest)
    (follows : Looser k rest) (last : rest.head? ≠ some (.symbol ",")) :
    Yields (commaList p) (List.map view) ((first :: others).map value)
      (tokens first ++ ((others.flatMap fun x => .symbol "," :: tokens x) ++ rest)) rest := by
  have comma : ∀ w, Looser k (.symbol "," :: w) := fun w => .cons low
  have step : ∀ x ∈ others, ∀ rest, Looser k rest →
      Yields (symbol "," >>= fun _ => p) view (value x) (.symbol "," :: tokens x ++ rest) rest :=
    fun x member rest follows => (yields_symbol (by decide)).bind fun _ _ =>
      each x (List.mem_cons_of_mem first member) rest follows
  have more := Repeats.flatMap (Looser k) (fun _ _ => List.cons_ne_nil _ _) (fun _ _ _ => comma _)
    step follows ((rejects_symbol (by decide) last).bind _)
  have next : Looser k ((others.flatMap fun x => .symbol "," :: tokens x) ++ rest) := by
    cases others with
    | nil => exact follows
    | cons x others => exact comma _
  refine (each first List.mem_cons_self _ next).bind fun a same =>
    (Yields.many more).bind fun as sames => .pure ?_
  rw [List.map_cons, same, sames, List.map_cons]

theorem Yields.commaList_single {view : α → γ} {v : γ} (h : Yields p view v w rest)
    (last : rest.head? ≠ some (.symbol ",")) :
    Yields (Parser.commaList p) (List.map view) [v] w rest := by
  have finished : Repeats (symbol "," >>= fun _ => p) view [] rest rest :=
    .nil ((rejects_symbol (by decide) last).bind _)
  refine h.bind fun a same => (Yields.many finished).bind fun as sames => .pure ?_
  rw [List.map_cons, same, sames]

theorem yields_names {names : List String} (some : names ≠ []) (follows : Looser 1 rest)
    (last : rest.head? ≠ Option.some (.symbol ",")) :
    Yields (commaList name) id names (Lexeme.joined "," names ++ rest) rest := by
  obtain ⟨n, ns, rfl⟩ := List.exists_cons_of_ne_nil some
  have each : ∀ n' ∈ n :: ns, ∀ rest, Looser 1 rest →
      Yields name id (id n') ([.name n'] ++ rest) rest := fun _ _ _ _ => yields_name
  refine (Yields.commaList (by decide) each follows last).see fun names same => ?_
  simpa using same

/-! ## What is inside -/

/-- What follows ends a block. -/
def EndsBlock (rest : List Lexeme) : Prop :=
  ∀ l, rest.head? = some l → l ∈ [Lexeme.keyword "end", .keyword "else", .keyword "elseif"]

theorem EndsBlock.cons {l : Lexeme} {rest : List Lexeme}
    (h : l ∈ [Lexeme.keyword "end", .keyword "else", .keyword "elseif"]) : EndsBlock (l :: rest) := by
  intro l' head
  cases head
  exact h

/-- `p` reads every block of fewer than `size` tokens. -/
def CoversBlocks (size : Nat) (p : Parser Block) : Prop :=
  ∀ b : Block, b.wellFormed = true → b.tokens.length < size →
    ∀ rest, EndsBlock rest → Yields p Block.erase b.erase (b.tokens ++ rest) rest

/-- The parsers for what is inside read all expressions of `size` tokens and all smaller blocks. -/
structure Inner (size : Nat) (expression : Parser Expr) (block : Parser Block) : Prop where
  covers : Covers size 1 expression
  refuses : Refuses expression
  blocks : CoversBlocks size block

variable {size : Nat} {expression : Parser Expr} {block : Parser Block}

theorem Inner.reads (inner : Inner size expression block) {e : Expr}
    (wellFormed : e.wellFormed = true) (short : e.tokens.length ≤ size)
    (follows : Looser 1 rest) : Yields expression Expr.erase e.erase (e.tokens ++ rest) rest :=
  inner.covers e e.one_le_level wellFormed short rest follows

/-- Suffixes end where nothing follows that binds to what is in front. -/
theorem rejects_suffix (refuses : Refuses expression) (follows : Looser 9 rest) :
    Rejects (suffix expression) rest := by
  have other : ∀ l : Lexeme, 9 ≤ l.binding → rest.head? ≠ some l := fun l tight head =>
    absurd (follows l head) (Nat.not_lt.mpr tight)
  refine .orElse ?_ (.orElse ?_ ?_)
  · exact .exact fun _ => .bracket (refuses.bind _) (other _ (by decide))
  · exact .exact fun _ => .point (fun none => bind_of_fail none) (other _ (by decide))
  · refine .here fun _ => (Rejects.orElse ?_ (.orElse ?_ ?_)).bind _
    · exact (rejects_symbol (by decide) (other _ (by decide))).bind _
    · exact Rejects.bind (.exact fun _ =>
        (rejects_symbol (by decide) (other _ (by decide))).bind _) _
    · exact .exact fun _ => (rejects_string fun _ => other _ (Nat.le_refl 9)).bind _

theorem suffix_of_parenArgs (refuses : Refuses expression) {args : List Expr}
    (read : Yields (parenArgs expression) Expr.eraseAll args (.symbol "(" :: w) rest) :
    Yields (suffix expression) Suffix.erase (.call args 0) (.symbol "(" :: w) rest := by
  refine .right ?_ (.right ?_ ?_)
  · exact .exact fun _ => .bracket (refuses.bind _) (by simp)
  · exact .exact fun _ => .point (fun none => bind_of_fail none) (by simp)
  · refine .here fun _ => read.left.bind fun args' same => .pure ?_
    rw [Suffix.erase, same]

theorem prefixExpr_of_name {n : String} {more : List Suffix}
    (others : Repeats (suffix expression) Suffix.erase more w rest) :
    Yields (prefixExpr expression) Expr.erase (more.foldl Suffix.apply (.name n 0)) (.name n :: w)
      rest := by
  have first : Yields (nameRef <|> parenExpr expression) Expr.erase (.name n 0) (.name n :: w) w := by
    refine .left <| .mark fun _ => yields_name.bind fun n' same => .pure ?_
    rw [Expr.erase, ← show n' = n from same]
  refine first.bind fun e' same => (Yields.many others).bind fun more' sames => .pure ?_
  rw [erase_foldl_apply, same, sames]

/-- No part of a list is longer than the list. -/
theorem length_le_of_mem {tokens : ι → List Lexeme} {l : Lexeme} {x first : ι} {others : List ι}
    {size : Nat} (short : (tokens first ++ others.flatMap fun y => l :: tokens y).length ≤ size)
    (member : x ∈ first :: others) : (tokens x).length ≤ size := by
  rw [List.length_append] at short
  rcases List.mem_cons.mp member with rfl | later
  · omega
  · obtain ⟨before, after, rfl⟩ := List.append_of_mem later
    rw [List.flatMap_append, List.flatMap_cons, List.length_append, List.length_append,
      List.length_cons] at short
    omega

namespace Inner

variable (inner : Inner size expression block)

include inner

/-! ### Lists of expressions -/

theorem expressionList {es : List Expr} (some : es ≠ []) (wellFormed : Expr.allWellFormed es = true)
    (short : (Expr.listTokens es).length ≤ size) (follows : Looser 1 rest)
    (last : rest.head? ≠ Option.some (.symbol ",")) :
    Yields (expressionList expression) Expr.eraseAll (Expr.eraseAll es)
      (Expr.listTokens es ++ rest) rest := by
  obtain ⟨e, es, rfl⟩ := List.exists_cons_of_ne_nil some
  rw [Expr.allWellFormed_eq, List.all_eq_true] at wellFormed
  rw [Expr.listTokens, Expr.moreTokens_eq] at short ⊢
  have each : ∀ e' ∈ e :: es, ∀ rest, Looser 1 rest →
      Yields expression Expr.erase e'.erase (e'.tokens ++ rest) rest := fun e' member _ =>
    inner.reads (wellFormed e' member) (length_le_of_mem short member)
  rw [List.append_assoc]
  refine .exact fun _ => (Yields.commaList (by decide) each follows last).see fun es' same => ?_
  rw [Expr.eraseAll_eq, Expr.eraseAll_eq, same]

/-- Expressions, or none where none may follow. -/
theorem values {es : List Expr} (wellFormed : Expr.allWellFormed es = true)
    (short : (Expr.listTokens es).length ≤ size) (follows : Looser 1 rest) (closed : Unopened rest)
    (last : rest.head? ≠ some (.symbol ",")) :
    Yields (opt (Grammar.expressionList expression)) (fun values => Expr.eraseAll (values.getD []))
      (Expr.eraseAll es) (Expr.listTokens es ++ rest) rest := by
  cases es with
  | nil => exact .unlisted (.of_refuses inner.refuses.expressionList closed)
  | cons e es =>
    exact .listed (inner.expressionList (List.cons_ne_nil e es) wellFormed short follows last)

/-! ### Tables -/

theorem field {f : Field} (wellFormed : f.wellFormed = true) (short : f.tokens.length ≤ size)
    (follows : Looser 1 rest) (last : rest.head? ≠ some (.symbol "=")) :
    Yields (Grammar.field expression) Field.erase f.erase (f.tokens ++ rest) rest := by
  cases f with
  | keyed key value line =>
    simp only [Field.wellFormed, Bool.and_eq_true] at wellFormed
    simp only [Field.tokens, List.length_append, List.length_cons] at short
    rw [Field.tokens, List.cons_append, List.cons_append, List.append_assoc, List.cons_append,
      List.cons_append]
    refine .left <| .exact fun _ => .bracket (inner.refuses.bind _) ?_
    refine (inner.reads wellFormed.1 (by omega) (.cons (by decide))).bind fun key' same => ?_
    refine (yields_symbol (by decide)).bind fun _ _ => .equals (inner.refuses.bind _) ?_
    refine (inner.reads wellFormed.2 (by omega) follows).bind fun value' same' => .pure ?_
    rw [Field.erase, Field.erase, same, same']
  | positional value line =>
    obtain ⟨l, w, leads⟩ := Expr.leads wellFormed
    have first : (value.tokens ++ rest) = l :: (w ++ rest) := by rw [leads.tokens, List.cons_append]
    refine .right ?_ (.right ?_ ?_)
    · refine .exact fun _ => .bracket (inner.refuses.bind _) ?_
      rw [Field.tokens, first]
      rintro same
      cases same
      exact absurd leads.opens (by decide)
    · refine .mark fun _ => ?_
      rw [Field.tokens, first]
      by_cases named : ∃ n, l = .name n
      · obtain ⟨n, rfl⟩ := named
        refine yields_name.then_rejects fun _ _ => .equals (inner.refuses.bind _) ?_
        have next := leads.named n rfl
        cases w with
        | nil => exact last
        | cons l w => exact next
      · refine Rejects.bind (rejects_name fun n same => named ⟨n, ?_⟩) _
        exact Option.some.inj same
    · refine .exact fun _ => (inner.reads wellFormed short follows).bind fun value' same => .pure ?_
      rw [Field.erase, Field.erase, same]

theorem fieldList {f : Field} {fs : List Field}
    (wellFormed : Field.allWellFormed (f :: fs) = true)
    (short : (Field.listTokens (f :: fs)).length ≤ size) :
    Yields (Grammar.fieldList expression) Field.eraseAll (Field.eraseAll (f :: fs))
      (Field.listTokens (f :: fs) ++ .symbol "\x7d" :: rest) (.symbol "\x7d" :: rest) := by
  rw [Field.allWellFormed_eq, List.all_eq_true] at wellFormed
  rw [Field.listTokens, Field.moreTokens_eq] at short ⊢
  let good := fun rest : List Lexeme => Looser 1 rest ∧ rest.head? ≠ some (.symbol "=")
  have comma : ∀ w, good (.symbol "," :: w) := fun w => ⟨.cons (by decide), by simp⟩
  have ends : good (.symbol "\x7d" :: rest) := ⟨.cons (by decide), by simp⟩
  have each : ∀ f' ∈ f :: fs, ∀ rest, good rest →
      Yields (Grammar.field expression) Field.erase f'.erase (f'.tokens ++ rest) rest :=
    fun f' member rest next =>
      inner.field (wellFormed f' member) (length_le_of_mem short member) next.1 next.2
  have step : ∀ f' ∈ fs, ∀ rest, good rest →
      Yields (fieldSeparator >>= fun _ => Grammar.field expression) Field.erase f'.erase
        (.symbol "," :: f'.tokens ++ rest) rest :=
    fun f' member rest next => (yields_symbol (by decide)).left.bind fun _ _ =>
      each f' (List.mem_cons_of_mem f member) rest next
  have last : Rejects fieldSeparator (.symbol "\x7d" :: rest) :=
    (rejects_symbol (by decide) (by simp)).orElse (rejects_symbol (by decide) (by simp))
  have more := Repeats.flatMap good (fun _ _ => List.cons_ne_nil _ _) (fun _ _ _ => comma _) step
    ends (last.bind _)
  have next : good ((fs.flatMap fun f => .symbol "," :: f.tokens) ++ .symbol "\x7d" :: rest) := by
    cases fs with
    | nil => exact ends
    | cons f' fs => exact comma _
  have finished : Yields (opt fieldSeparator) (Option.map id) none _ (.symbol "\x7d" :: rest) :=
    .opt_none last
  rw [List.append_assoc]
  refine (each f List.mem_cons_self _ next).bind fun f' same => (Yields.many more).bind
    fun fs' sames => finished.bind fun _ _ => .pure ?_
  rw [Field.eraseAll, Field.eraseAll, Field.eraseAll_eq, Field.eraseAll_eq, same, sames]

theorem tableConstructor {fields : List Field} {line : Nat}
    (wellFormed : Field.allWellFormed fields = true)
    (short : (Field.listTokens fields).length ≤ size) :
    Yields (Grammar.tableConstructor expression) Expr.erase (Expr.table fields line).erase
      ((Expr.table fields line).tokens ++ rest) rest := by
  rw [Expr.tokens, List.cons_append, List.cons_append, List.append_assoc, List.singleton_append]
  have read : Yields (opt (Grammar.fieldList expression))
      (fun fields => Field.eraseAll (fields.getD [])) (Field.eraseAll fields)
      (Field.listTokens fields ++ .symbol "\x7d" :: rest) (.symbol "\x7d" :: rest) := by
    cases fields with
    | nil =>
      refine .unlisted ((Rejects.orElse ?_ (.orElse ?_ ?_)).bind _)
      · exact .exact fun _ => .bracket (inner.refuses.bind _) (by simp)
      · exact .mark fun _ => (rejects_name (by simp)).bind _
      · exact .exact fun _ => (Rejects.of_refuses inner.refuses (.cons rfl)).bind _
    | cons f fs => exact .listed (inner.fieldList wellFormed short)
  refine .exact fun _ => (yields_symbol (by decide)).bind fun _ _ => read.bind fun fields' same =>
    (yields_symbol (by decide)).bind fun _ _ => .pure ?_
  rw [Expr.erase, Expr.erase, same]

/-! ### Names and parentheses with suffixes -/

theorem parenArgs {args : List Expr} (wellFormed : Expr.allWellFormed args = true)
    (short : (Expr.listTokens args).length ≤ size) :
    Yields (Grammar.parenArgs expression) Expr.eraseAll (Expr.eraseAll args)
      (.symbol "(" :: (Expr.listTokens args ++ .symbol ")" :: rest)) rest :=
  (yields_symbol (by decide)).bind fun _ _ =>
    (inner.values wellFormed short (.cons (by decide)) (.cons rfl) (by simp)).bind fun _ same =>
    (yields_symbol (by decide)).bind fun _ _ => .pure same

theorem suffix_index {key : Expr} (wellFormed : key.wellFormed = true)
    (short : key.tokens.length ≤ size) :
    Yields (suffix expression) Suffix.erase (.index key.erase 0)
      (.symbol "[" :: (key.tokens ++ .symbol "]" :: rest)) rest := by
  refine .left <| .exact fun _ => .bracket (inner.refuses.bind _) ?_
  refine (inner.reads wellFormed short (.cons (by decide))).bind fun key' same =>
    (yields_symbol (by decide)).bind fun _ _ => .pure ?_
  rw [Suffix.erase, same]

theorem suffix_call {args : List Expr} (wellFormed : Expr.allWellFormed args = true)
    (short : (Expr.listTokens args).length ≤ size) :
    Yields (suffix expression) Suffix.erase (.call (Expr.eraseAll args) 0)
      (.symbol "(" :: (Expr.listTokens args ++ .symbol ")" :: rest)) rest :=
  suffix_of_parenArgs inner.refuses (inner.parenArgs wellFormed short)

theorem parenExpr {e : Expr} {line : Nat} (wellFormed : e.wellFormed = true)
    (short : e.tokens.length ≤ size) :
    Yields (Grammar.parenExpr expression) Expr.erase (Expr.paren e line).erase
      (.symbol "(" :: (e.tokens ++ .symbol ")" :: rest)) rest := by
  refine .exact fun _ => (yields_symbol (by decide)).bind fun _ _ =>
    (inner.reads wellFormed short (.cons (by decide))).bind fun e' same =>
    (yields_symbol (by decide)).bind fun _ _ => .pure ?_
  rw [Expr.erase, Expr.erase, same]

/-- The suffixes of an expression are read before those that follow it. -/
theorem suffixes {e : Expr} (head : e.isHead = true) (wellFormed : e.wellFormed = true)
    (short : e.tokens.length ≤ size + 1) {more : List Suffix} {mid : List Lexeme}
    (others : Repeats (suffix expression) Suffix.erase more mid rest) :
    Yields (Grammar.prefixExpr expression) Expr.erase (more.foldl Suffix.apply e.erase)
      (e.tokens ++ mid) rest := by
  match e with
  | .name n line => exact prefixExpr_of_name others
  | .paren inside line =>
    rw [Expr.wellFormed] at wellFormed
    simp only [Expr.tokens, List.length_append, List.length_cons, List.length_nil] at short
    have first : Yields (nameRef <|> Grammar.parenExpr expression) Expr.erase
        (Expr.paren inside line).erase _ mid :=
      .right (rejects_nameRef (by simp)) (inner.parenExpr wellFormed (by omega))
    rw [Expr.tokens, List.cons_append, List.cons_append, List.append_assoc, List.singleton_append]
    refine first.bind fun e' same => (Yields.many others).bind fun more' sames => .pure ?_
    rw [erase_foldl_apply, same, sames]
  | .index target key line =>
    simp only [Expr.wellFormed, Bool.and_eq_true] at wellFormed
    simp only [Expr.tokens, List.length_append, List.length_cons, List.length_nil] at short
    have step : Yields (suffix expression) Suffix.erase (.index key.erase 0) _ mid :=
      inner.suffix_index wellFormed.2 (by omega)
    have whole := suffixes wellFormed.1.1 wellFormed.1.2 (by omega)
      (.cons step (by simp only [List.length_cons, List.length_append]; omega) others)
    rw [Expr.tokens, Expr.erase]
    simpa [Suffix.apply] using whole
  | .call (.mk callee args line) =>
    simp only [Expr.wellFormed, Call.wellFormed, Bool.and_eq_true] at wellFormed
    simp only [Expr.tokens, Call.tokens, List.length_append, List.length_cons, List.length_nil]
      at short
    have step : Yields (suffix expression) Suffix.erase (.call (Expr.eraseAll args) 0) _ mid :=
      inner.suffix_call wellFormed.2 (by omega)
    have whole := suffixes wellFormed.1.1 wellFormed.1.2 (by omega)
      (.cons step (by simp only [List.length_cons, List.length_append]; omega) others)
    rw [Expr.tokens, Call.tokens, Expr.erase, Call.erase]
    simpa [Suffix.apply] using whole

theorem prefixExpr {e : Expr} (head : e.isHead = true) (wellFormed : e.wellFormed = true)
    (short : e.tokens.length ≤ size + 1) (follows : Looser 9 rest) :
    Yields (Grammar.prefixExpr expression) Expr.erase e.erase (e.tokens ++ rest) rest :=
  inner.suffixes head wellFormed short (.nil (rejects_suffix inner.refuses follows))

/-! ### Functions -/

theorem functionBody {f : Lambda} (wellFormed : f.wellFormed = true)
    (short : f.tokens.length ≤ size + 1) :
    Yields (Grammar.functionBody block) (Prod.map id Block.erase) (f.params, f.body.erase)
      (f.tokens ++ rest) rest := by
  cases f with
  | mk params body name line =>
    rw [Lambda.wellFormed] at wellFormed
    simp only [Lambda.tokens, List.length_append, List.length_cons, List.length_nil] at short
    have read : Yields (opt (commaList Parser.name)) (fun names => id (names.getD [])) params
        (Lexeme.joined "," params ++ .symbol ")" :: (body.tokens ++ .keyword "end" :: rest))
        (.symbol ")" :: (body.tokens ++ .keyword "end" :: rest)) := by
      cases params with
      | nil => exact .unlisted ((rejects_name (by simp [Lexeme.joined])).bind _)
      | cons n ns =>
        exact .listed (yields_names (List.cons_ne_nil n ns) (.cons (by decide)) (by simp))
    have tokens : (Lambda.mk params body name line).tokens ++ rest = .symbol "(" ::
        (Lexeme.joined "," params ++ .symbol ")" :: (body.tokens ++ .keyword "end" :: rest)) := by
      simp
    rw [tokens]
    refine (yields_symbol (by decide)).bind fun _ _ => read.bind fun names same =>
      (yields_symbol (by decide)).bind fun _ _ =>
      (inner.blocks body wellFormed (by omega) _ (.cons (by decide))).bind fun body' same' =>
      (yields_keyword (by simp [keywords])).bind fun _ _ => .pure ?_
    rw [Prod.map, same']
    exact congrArg (·, body.erase) same

theorem functionExpr {f : Lambda} (unnamed : f.name.isNone = true) (wellFormed : f.wellFormed = true)
    (short : f.tokens.length ≤ size) :
    Yields (Grammar.functionExpr block) Expr.erase (Expr.function f).erase
      (.keyword "function" :: (f.tokens ++ rest)) rest := by
  refine .exact fun _ => (yields_keyword (by simp [keywords])).bind fun _ _ =>
    (inner.functionBody wellFormed (Nat.le_succ_of_le short)).bind fun body same => .pure ?_
  obtain ⟨params, block⟩ := body
  cases f with
  | mk params' block' name line =>
    obtain ⟨rfl, same⟩ := Prod.mk.inj same
    obtain rfl := Option.isNone_iff_eq_none.mp unnamed
    rw [Expr.erase, Expr.erase, Lambda.erase, Lambda.erase, same]
    rfl

/-! ### Operands -/

theorem simpleExpr_of_isHead {e : Expr} (head : e.isHead = true) (wellFormed : e.wellFormed = true)
    (short : e.tokens.length ≤ size + 1) (follows : Looser 9 rest) :
    Yields (Grammar.simpleExpr expression block) Expr.erase e.erase (e.tokens ++ rest) rest := by
  obtain ⟨l, w, leads⟩ := Expr.leads wellFormed
  have read := inner.prefixExpr head wellFormed short follows
  rw [leads.tokens, List.cons_append] at read ⊢
  rcases leads.head head with rfl | ⟨n, rfl⟩
  · refine .right (rejects_literal rfl) (.right ?_ (.right ?_ read))
    · exact .exact fun _ => (rejects_keyword (by simp [keywords]) (by simp)).bind _
    · exact .exact fun _ => (rejects_symbol (by decide) (by simp)).bind _
  · refine .right (rejects_literal rfl) (.right ?_ (.right ?_ read))
    · exact .exact fun _ => (rejects_keyword (by simp [keywords]) (by simp)).bind _
    · exact .exact fun _ => (rejects_symbol (by decide) (by simp)).bind _

theorem simpleExpr : Covers (size + 1) 9 (Grammar.simpleExpr expression block) := by
  intro e tight wellFormed short rest follows
  cases e with
  | name => exact inner.simpleExpr_of_isHead rfl wellFormed short follows
  | index => exact inner.simpleExpr_of_isHead rfl wellFormed short follows
  | call => exact inner.simpleExpr_of_isHead rfl wellFormed short follows
  | paren => exact inner.simpleExpr_of_isHead rfl wellFormed short follows
  | nil => exact literal_nil.left
  | bool => exact literal_bool.left
  | number => exact literal_number.left
  | string => exact literal_string.left
  | function f =>
    simp only [Expr.wellFormed, Bool.and_eq_true] at wellFormed
    simp only [Expr.tokens, List.length_cons] at short
    exact .right (rejects_literal rfl)
      (inner.functionExpr wellFormed.1 wellFormed.2 (Nat.le_of_succ_le_succ short)).left
  | table fields line =>
    simp only [Expr.tokens, List.length_cons, List.length_append, List.length_nil] at short
    refine .right (rejects_literal rfl) (.right ?_ (inner.tableConstructor wellFormed ?_).left)
    · exact .exact fun _ => (rejects_keyword (by simp [keywords]) (by simp)).bind _
    · omega
  | logical op => exact absurd (le_trans tight op.level_le) (by decide)
  | binary op => exact absurd (le_trans tight op.level_le) (by decide)
  | unary op operand line => exact absurd (show 9 ≤ 7 from tight) (by decide)
  | other => simp at wellFormed

variable {nested : Parser Expr} (operand : Covers size 7 nested)

include operand

/-- A power takes a unary expression as its exponent, and so does not end before one does. -/
theorem powerExpr {e : Expr} (tight : 8 ≤ e.level) (wellFormed : e.wellFormed = true)
    (short : e.tokens.length ≤ size + 1) (follows : Looser 7 rest) :
    Yields (Grammar.powerExpr (Grammar.simpleExpr expression block) nested) Expr.erase e.erase
      (e.tokens ++ rest) rest := by
  by_cases outer : e.level = 8
  · obtain ⟨base, exponent, line, rfl⟩ := Expr.power_of_level outer
    simp only [Expr.wellFormed, Bool.and_eq_true, decide_eq_true_eq] at wellFormed
    simp only [Expr.tokens, List.length_append, List.length_cons] at short
    obtain ⟨⟨⟨simple, unary⟩, baseFormed⟩, exponentFormed⟩ := wellFormed
    rw [Expr.tokens, List.append_assoc, List.cons_append]
    have raised : Yields (symbol "^" *> nested) Expr.erase exponent.erase
        (.symbol "^" :: (exponent.tokens ++ rest)) rest :=
      (yields_symbol (by decide)).bind fun _ _ =>
        operand exponent unary exponentFormed (by omega) rest follows
    refine (inner.simpleExpr base simple baseFormed (by omega) _ (.cons (by decide))).bind
      fun base' same => raised.opt_some.bind fun exponent? same' => ?_
    obtain ⟨exponent', rfl, read⟩ := Option.map_eq_some_iff.mp same'
    refine .pure ?_
    rw [erase_binaryAt, same, read, Expr.erase, binaryAt, Expr.line_erase]
  · have last : Rejects (symbol "^") rest :=
      rejects_symbol (by decide) fun head => absurd (follows _ head) (by decide)
    have finished : Yields (opt (symbol "^" *> nested)) (Option.map Expr.erase) none rest rest :=
      .opt_none (last.bind _)
    refine (inner.simpleExpr e (by omega) wellFormed short rest (follows.mono (by decide))).bind
      fun e' same => finished.bind fun exponent? same' => ?_
    rw [Option.map_eq_none_iff.mp same']
    exact .pure same

end Inner

theorem Covers.unaryOf {nested : Parser Expr} (operand : Covers size 7 nested)
    (inner : Inner size (Grammar.expressionOf nested) block) :
    Covers (size + 1) 7 (Grammar.unaryOf nested block) := by
  intro e tight wellFormed short rest follows
  by_cases outer : e.level = 7
  · obtain ⟨op, inside, line, rfl⟩ := Expr.unary_of_level outer
    have known : ∀ s, op ≠ .other s := by
      rintro s rfl
      rw [Expr.wellFormed] at wellFormed
      cases wellFormed
    have formed : 7 ≤ inside.level ∧ inside.wellFormed = true := by
      cases op with
      | other s => exact absurd rfl (known s)
      | _ => simpa using wellFormed
    rw [Expr.tokens, List.cons_append]
    refine .left <| .exact fun _ => (yields_unaryOperator known).bind fun op' same =>
      (operand inside formed.1 formed.2 (Nat.le_of_succ_le_succ short) rest follows).bind
      fun inside' same' => .pure ?_
    rw [Expr.erase, Expr.erase, same', ← show op' = op from same]
  · obtain ⟨l, w, leads⟩ := Expr.leads wellFormed
    have read := inner.powerExpr operand (show 8 ≤ e.level by omega) wellFormed short follows
    have opens := leads.operand (by omega)
    rw [leads.tokens, List.cons_append] at read ⊢
    have refused : Rejects unaryOperator (l :: (w ++ rest)) := rejects_unaryOperator opens
    exact .right (.exact fun _ => refused.bind _) read

end MiniLua

import MiniLua.Grammar.Program
import MiniLua.Proofs.Reading.Statements

/-!
# The tokens and the tree of a program

A program is scanned twice, once for its tokens and once for its tree. Both scans read the same
literals, but for one way to drift apart: where an index or a key in brackets may start, the grammar
takes a single bracket off a long string. Behind it stands a further long string, or nothing is read.
-/

namespace MiniLua

open MiniLua.Text MiniLua.Spelling MiniLua.Parser MiniLua.Lexer

variable {text : List Char}

/-! ## A drift is a difference -/

theorem count_dropFirstNewline (cs : List Char) :
    (dropFirstNewline cs).count ']' = cs.count ']' := by
  unfold dropFirstNewline
  split <;> simp

theorem length_dropFirstNewline (cs : List Char) : (dropFirstNewline cs).length ≤ cs.length := by
  unfold dropFirstNewline
  split
  · simp only [List.length_cons]
    omega
  · exact Nat.le_succ _
  · exact le_rfl

/-- The text of an outer long string begins with what opens the inner one. -/
theorem outer_begins {level : Nat} {outer tail rest : List Char}
    (h : outer ++ ']' :: tail = List.replicate level '=' ++ '[' :: rest) :
    ∃ more, outer = List.replicate level '=' ++ '[' :: more ∧ rest = more ++ ']' :: tail := by
  induction level generalizing outer with
  | zero =>
    cases outer with
    | nil => cases h
    | cons c outer =>
      cases h
      exact ⟨outer, rfl, rfl⟩
  | succ level ih =>
    cases outer with
    | nil => cases h
    | cons c outer =>
      rw [List.replicate_succ, List.cons_append, List.cons_append] at h
      obtain ⟨rfl, tails⟩ := List.cons.inj h
      obtain ⟨more, rfl, same⟩ := ih tails
      exact ⟨more, rfl, same⟩

theorem Overlap.ne {outer inner : String} (h : Overlap text outer inner) : outer ≠ inner := by
  cases h with
  | @mk cs outer inner level m n within opens token reopens operand =>
    obtain ⟨rest, split, -⟩ := longBracket?_prefix opens token
    obtain ⟨rest', split', -⟩ := longBracket?_prefix reopens operand
    have overlap : outer ++ ']' :: (']' :: rest) =
        List.replicate level '=' ++ '[' :: (inner ++ closer level ++ rest') := by
      rw [split] at split'
      simpa [opener, closer] using split'
    obtain ⟨more, rfl, goesOn⟩ := outer_begins overlap
    have whole : dropFirstNewline (List.replicate level '=' ++ '[' :: more) =
        List.replicate level '=' ++ '[' :: more := by
      cases level <;> rfl
    intro same
    have lists := congrArg String.toList same
    rw [String.toList_ofList, String.toList_ofList, whole] at lists
    have counts := congrArg (List.count ']') lists
    have lengths := congrArg List.length lists
    have shorter := length_dropFirstNewline inner
    rw [count_dropFirstNewline, List.count_append, List.count_replicate, List.count_cons] at counts
    rw [List.length_append, List.length_replicate, List.length_cons] at lengths
    rw [List.append_assoc] at goesOn
    rcases List.append_eq_append_iff.mp goesOn with ⟨q, rfl, -⟩ | ⟨q, rfl, rest⟩
    · rw [List.length_append] at lengths
      omega
    · cases q with
      | nil =>
        rw [List.append_nil] at shorter lengths
        omega
      | cons d q =>
        obtain rfl : ']' = d := (List.cons.inj rest).1
        rw [List.count_append, List.count_cons_self] at counts
        simp at counts

theorem Drift.ne {tokens tree : List Literal} (h : Drift text tokens tree) : tree ≠ tokens := by
  obtain ⟨before, outer, inner, rest, after, overlap, rfl, rfl⟩ := h
  intro same
  obtain ⟨texts, -⟩ := List.cons.inj (List.append_cancel_left same)
  exact overlap.ne (Literal.text.inj texts).symm

/-! ## Programs -/

theorem Aligned.literals_of_rest_nil {c : Cursor} {ts : List Token} (h : Aligned text c ts)
    (ended : c.rest = []) : Token.literals ts = [] := by
  obtain ⟨ts', line, cut, rfl⟩ := h.cut
  rw [ended] at cut
  cases cut with
  | refl => rfl
  | pass step others => exact absurd step not_step_nil
  | read step others => exact absurd step not_step_nil

theorem parseAll_eq_ok {α : Type} {p : Parser α} {a : α}
    (h : Grammar.parseAll p text = .ok a) :
    ∃ c, p (Cursor.ofChars text) = .ok a c ∧ (skip c).rest = [] := by
  unfold Grammar.parseAll at h
  split at h
  next => cases h
  next => cases h
  next b c read =>
    dsimp only at h
    split at h
    next ended =>
      cases h
      exact ⟨c, read, List.isEmpty_iff.mp ended⟩
    next => cases h

theorem parseProgram_eq_ok {program : Block} (h : parseProgram text = .ok program) :
    ∃ ts c, tokenize text = .ok ts ∧
      Grammar.block (text.length + 1) (Cursor.ofChars text) = .ok program c ∧
      (skip c).rest = [] := by
  unfold parseProgram at h
  split at h
  next => cases h
  next ts cut =>
    obtain ⟨c, read, ended⟩ := parseAll_eq_ok h
    exact ⟨ts, c, cut, read, ended⟩

theorem literals_eq_or_drift {program : Block} (h : parseProgram text = .ok program) :
    ∃ ts, tokenize text = .ok ts ∧ (program.literals = Token.literals ts ∨
      Drift text (Token.literals ts) program.literals) := by
  obtain ⟨ts, c, cut, read, ended⟩ := parseProgram_eq_ok h
  refine ⟨ts, cut, ?_⟩
  rcases ((Grammar.adds_unary_block _).2 []).tracks read (Aligned.start cut) with
    ⟨rest, aligned, sum⟩ | drift
  · rw [List.nil_append, List.nil_append, aligned.skip.literals_of_rest_nil ended,
      List.append_nil] at sum
    exact .inl sum
  · exact .inr drift

/-- Without a bracket right before a long bracket the two scans read the same literals. -/
theorem literals_eq_of_apart {program : Block} (h : parseProgram text = .ok program)
    (apart : ∀ cs, cs <:+ text → bracketLevel? cs = some 0 → bracketLevel? (cs.drop 1) = none) :
    ∃ ts, tokenize text = .ok ts ∧ program.literals = Token.literals ts := by
  obtain ⟨ts, cut, same | drift⟩ := literals_eq_or_drift h
  · exact ⟨ts, cut, same⟩
  · obtain ⟨before, outer, inner, rest, after, overlap, -, -⟩ := drift
    cases overlap with
    | @mk cs outer inner level m n within opens token reopens operand =>
      rw [apart cs within opens] at reopens
      cases reopens

/-- The literals of a program's tree are those of its tokens, unless the grammar drifts into a long
string; then they differ there. -/
theorem literals_parseProgram {program : Block} (h : parseProgram text = .ok program) :
    ∃ ts, tokenize text = .ok ts ∧
      (program.literals = Token.literals ts ↔
        ¬ Drift text (Token.literals ts) program.literals) := by
  obtain ⟨ts, cut, same | drift⟩ := literals_eq_or_drift h
  · exact ⟨ts, cut, fun _ drift => drift.ne same, fun _ => same⟩
  · exact ⟨ts, cut, fun same => absurd same drift.ne, fun steady => absurd drift steady⟩

/-- The tokens of `f[[=[a]]--[[]=] ]=1--]]` make a call with the string `=[a` and a comment; its tree
assigns `1` to the field `a]]--[[` of `f`. -/
theorem literals_bracketInBracket :
    let text := "f[[=[a]]--[[]=] ]=1--]]".toList
    ∃ program ts, parseProgram text = .ok program ∧ tokenize text = .ok ts ∧
      program.literals = [.text "f", .text "a]]--[[", .number 1] ∧
      Token.literals ts = [.text "f", .text "=[a"] ∧
      Drift text (Token.literals ts) program.literals := by
  intro text
  have tree : (parseProgram text).toOption.map Block.literals =
      some [.text "f", .text "a]]--[[", .number 1] := by decide +kernel
  have tokens : (tokenize text).toOption.map Token.literals =
      some [.text "f", .text "=[a"] := by decide +kernel
  cases parsed : parseProgram text with
  | error fault =>
    rw [parsed] at tree
    cases tree
  | ok program =>
    obtain ⟨ts, cut, agree⟩ := literals_parseProgram parsed
    rw [parsed] at tree
    rw [cut] at tokens
    have tree := Option.some.inj tree
    have tokens := Option.some.inj tokens
    refine ⟨program, ts, rfl, cut, tree, tokens, ?_⟩
    by_contra steady
    have same := agree.mpr steady
    rw [tree, tokens] at same
    exact absurd same (by decide)

end MiniLua

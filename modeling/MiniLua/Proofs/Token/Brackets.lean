import MiniLua.Proofs.Token.Cutting
import MiniLua.Proofs.Token.Scan

/-!
# How far a long bracket goes

A long bracket ends with the first closer of its level, wherever that starts: closers of other
levels, and brackets and equals signs that a closer overlaps, are part of the body. A long comment
is a long bracket behind two dashes, and nothing else once the bracket has opened.
-/

namespace MiniLua

open MiniLua.Text MiniLua.Spelling MiniLua.Lexer

/-- A word stands in a text behind `k` characters, and nowhere before. -/
def FirstAt (word text : List Char) (k : Nat) : Prop :=
  word <+: text.drop k ∧ ∀ j < k, ¬ word <+: text.drop j

section

variable {word text : List Char} {c : Char} {k : Nat}

theorem firstAt_zero : FirstAt word text 0 ↔ word <+: text :=
  ⟨fun first => first.1, fun starts => ⟨starts, nofun⟩⟩

theorem firstAt_cons_succ :
    FirstAt word (c :: text) (k + 1) ↔ ¬ word <+: c :: text ∧ FirstAt word text k := by
  simp only [FirstAt, List.drop_succ_cons, Nat.forall_lt_succ_left, List.drop_zero]
  exact and_left_comm

theorem exists_firstAt (h : ∃ k, word <+: text.drop k) : ∃ k, FirstAt word text k := by
  classical
  exact ⟨Nat.find h, Nat.find_spec h, fun j before => Nat.find_min h before⟩

theorem FirstAt.length_le (h : FirstAt word text k) (nonempty : word ≠ []) :
    k + word.length ≤ text.length := by
  have fits := h.1.length_le
  have some := List.length_pos_iff.mpr nonempty
  rw [List.length_drop] at fits
  omega

end

namespace Spelling

variable {level : Nat} {b body : List Char}

theorem closer_ne_nil (level : Nat) : closer level ≠ [] := List.cons_ne_nil _ _

theorem longBody?_eq_some_iff :
    longBody? level b = some body ↔ ∃ k, FirstAt (closer level) b k ∧ body = b.take k := by
  induction b generalizing body with
  | nil =>
    constructor
    · nofun
    · rintro ⟨k, ⟨starts, -⟩, -⟩
      rw [List.drop_nil, List.prefix_nil] at starts
      exact absurd starts (closer_ne_nil level)
  | cons c b ih =>
    rw [longBody?]
    split
    next closes =>
      have closes := List.isPrefixOf_iff_prefix.mp closes
      constructor
      · intro same
        cases same
        exact ⟨0, firstAt_zero.mpr closes, rfl⟩
      · rintro ⟨k, first, rfl⟩
        cases k with
        | zero => rfl
        | succ k => exact absurd closes (firstAt_cons_succ.mp first).1
    next later =>
      rw [List.isPrefixOf_iff_prefix] at later
      rw [Option.map_eq_some_iff]
      constructor
      · rintro ⟨inner, found, rfl⟩
        obtain ⟨k, first, rfl⟩ := ih.mp found
        exact ⟨k + 1, firstAt_cons_succ.mpr ⟨later, first⟩, rfl⟩
      · rintro ⟨k, first, rfl⟩
        cases k with
        | zero => exact absurd (firstAt_zero.mp first) later
        | succ k => exact ⟨b.take k, ih.mpr ⟨k, (firstAt_cons_succ.mp first).2, rfl⟩, rfl⟩

theorem longBody?_eq_none_iff :
    longBody? level b = none ↔ ∀ k, ¬ closer level <+: b.drop k := by
  constructor
  · intro none k closes
    obtain ⟨first, found⟩ := exists_firstAt ⟨k, closes⟩
    rw [longBody?_eq_some_iff.mpr ⟨first, found, rfl⟩] at none
    cases none
  · intro unclosed
    by_contra some
    obtain ⟨body, found⟩ := Option.ne_none_iff_exists'.mp some
    obtain ⟨k, first, -⟩ := longBody?_eq_some_iff.mp found
    exact unclosed k first.1

theorem longBracket?_opener (level : Nat) (b : List Char) : longBracket? level (opener level ++ b) =
    (longBody? level b).map fun body => (body, body.length + 2 * (level + 2)) := by
  rw [longBracket?, ← length_opener, List.drop_left]

theorem longBracket?_opener_eq_some_iff {n : Nat} :
    longBracket? level (opener level ++ b) = some (body, n) ↔
      ∃ k, FirstAt (closer level) b k ∧ body = b.take k ∧ n = k + 2 * (level + 2) := by
  rw [longBracket?_opener, Option.map_eq_some_iff]
  have length : ∀ {k}, FirstAt (closer level) b k → (b.take k).length = k := by
    intro k first
    have := first.length_le (closer_ne_nil level)
    rw [List.length_take]
    omega
  constructor
  · rintro ⟨body', found, same⟩
    obtain ⟨rfl, rfl⟩ := Prod.mk.inj same
    obtain ⟨k, first, rfl⟩ := longBody?_eq_some_iff.mp found
    exact ⟨k, first, rfl, by rw [length first]⟩
  · rintro ⟨k, first, rfl, rfl⟩
    exact ⟨b.take k, longBody?_eq_some_iff.mpr ⟨k, first, rfl⟩, by rw [length first]⟩

theorem longBracket?_opener_eq_none_iff :
    longBracket? level (opener level ++ b) = none ↔ ∀ k, ¬ closer level <+: b.drop k := by
  rw [longBracket?_opener, Option.map_eq_none_iff, longBody?_eq_none_iff]

theorem count_newline_opener (level : Nat) : (opener level).count '\n' = 0 := by
  simp [opener, List.count_append, List.count_replicate]

theorem count_newline_closer (level : Nat) : (closer level).count '\n' = 0 := by
  simp [closer, List.count_append, List.count_replicate]

end Spelling

/-- A text whose first closer stands behind `k` characters, cut at the closer. -/
theorem FirstAt.split {level k : Nat} {b : List Char} (h : FirstAt (closer level) b k) :
    b = b.take k ++ (closer level ++ b.drop (k + (level + 2))) ∧ (b.take k).length = k := by
  obtain ⟨rest, same⟩ := h.1
  have fits := h.length_le (closer_ne_nil level)
  refine ⟨?_, by rw [List.length_take]; omega⟩
  rw [← List.drop_drop, ← same, ← length_closer level, List.drop_left, same,
    List.take_append_drop]

/-- What the tokenizer does that has come, with the tokens `ts`, to a bracket of a level behind
`lead`: it reads a closed bracket in one step, whose body tells the token, and refuses one that is
not closed with the error `e`. -/
structure ReadsBracket (text : List Char) (ts : List Token) (line : Nat) (lead : List Char)
    (level : Nat) (b : List Char) (lexeme : List Char → Option Lexeme) (e : LexError) : Prop where
  /-- The one step is over the bracket to the end of the first closer of its level. -/
  step : ∀ lexeme? n, Step isBlank (lead ++ (opener level ++ b)) lexeme? n ↔
    ∃ k, FirstAt (closer level) b k ∧ lexeme? = lexeme (b.take k) ∧
      n = lead.length + (k + 2 * (level + 2))
  /-- The tokenizer goes on right behind that closer. -/
  onward : ∀ k, FirstAt (closer level) b k →
    Scans isBlank 1 text (ts ++ ((lexeme (b.take k)).map (⟨·, line⟩)).toList)
      (line + (b.take k).count '\n') (b.drop (k + (level + 2)))
  /-- The bracket is refused if and only if there is no closer of its level. -/
  refusal : ∀ why, Refused (lead ++ (opener level ++ b)) why ↔
    (∀ k, ¬ closer level <+: b.drop k) ∧ why = .error e
  /-- What is refused here is the error of the whole text. -/
  error : (∀ k, ¬ closer level <+: b.drop k) → tokenize text = .error (.error e line)

section

variable {text : List Char} {ts : List Token} {line level : Nat} {b : List Char}

/-- Of a bracket behind `lead` only the step and the refusal have to be known. -/
theorem ReadsBracket.of_step {lead : List Char} {lexeme : List Char → Option Lexeme} {e : LexError}
    (here : Scans isBlank 1 text ts line (lead ++ (opener level ++ b)))
    (unbroken : lead.count '\n' = 0)
    (step : ∀ lexeme? n, Step isBlank (lead ++ (opener level ++ b)) lexeme? n ↔
      ∃ k, FirstAt (closer level) b k ∧ lexeme? = lexeme (b.take k) ∧
        n = lead.length + (k + 2 * (level + 2)))
    (refusal : ∀ why, Refused (lead ++ (opener level ++ b)) why ↔
      (∀ k, ¬ closer level <+: b.drop k) ∧ why = .error e) :
    ReadsBracket text ts line lead level b lexeme e where
  step := step
  onward := by
    intro k first
    have next := (step _ _).mpr ⟨k, first, rfl, rfl⟩
    obtain ⟨split, length⟩ := first.split
    have whole : lead ++ (opener level ++ b) =
        (lead ++ (opener level ++ (b.take k ++ closer level))) ++ b.drop (k + (level + 2)) := by
      simp only [List.append_assoc, ← split]
    have width : lead.length + (k + 2 * (level + 2)) =
        (lead ++ (opener level ++ (b.take k ++ closer level))).length := by
      simp only [List.length_append, length_opener, length_closer, length]
      omega
    have lines : (lead ++ (opener level ++ (b.take k ++ closer level))).count '\n' =
        (b.take k).count '\n' := by
      simp only [List.count_append, unbroken, count_newline_opener, count_newline_closer,
        Nat.zero_add, Nat.add_zero]
    cases found : lexeme (b.take k) with
    | none =>
      rw [found] at next
      have onward := here.concat_pass next
      rw [whole, width, List.take_left, List.drop_left, lines] at onward
      rwa [Option.map_none, Option.toList_none, List.append_nil]
    | some lexeme =>
      rw [found] at next
      have onward := here.concat_read next
      rwa [whole, width, List.take_left, List.drop_left, lines] at onward
  refusal := refusal
  error := fun unclosed => here.tokenize_of_refused ((refusal _).mpr ⟨unclosed, rfl⟩)

theorem readToken_opener :
    readToken '[' (opener level ++ b) = readLongString level (opener level ++ b) := by
  rw [readToken, if_neg (by decide), bracketLevel?_eq_some_iff.mpr ⟨b, rfl⟩]

theorem readsBracket_string (here : Scans isBlank 1 text ts line (opener level ++ b)) :
    ReadsBracket text ts line [] level b
      (fun body => some (.string (String.ofList (dropFirstNewline body))))
      .unfinishedLongString := by
  have solid : isBlank '[' = false := by decide
  refine .of_step here rfl (fun lexeme? n => ?_) fun why => ?_
  · refine (step_solid_iff solid rfl).trans ?_
    change (∃ lexeme, _ ∧ readToken '[' (opener level ++ b) = _) ↔ _
    rw [readToken_opener, readLongString]
    simp only [List.length_nil, Nat.zero_add]
    constructor
    · rintro ⟨lexeme, rfl, read⟩
      split at read
      next => cases read
      next body n inside =>
        cases read
        obtain ⟨k, first, rfl, rfl⟩ := longBracket?_opener_eq_some_iff.mp inside
        exact ⟨k, first, rfl, rfl⟩
    · rintro ⟨k, first, rfl, rfl⟩
      rw [longBracket?_opener_eq_some_iff.mpr ⟨k, first, rfl, rfl⟩]
      exact ⟨_, rfl, rfl⟩
  · refine (refused_solid_iff solid rfl).trans ?_
    change readToken '[' (opener level ++ b) = _ ↔ _
    rw [readToken_opener, readLongString, ← longBracket?_opener_eq_none_iff]
    cases longBracket? level (opener level ++ b) with
    | none =>
      constructor
      · intro read
        cases read
        exact ⟨rfl, rfl⟩
      · rintro ⟨-, rfl⟩
        rfl
    | some closed =>
      constructor
      · intro read
        cases read
      · rintro ⟨none, -⟩
        cases none

theorem readsBracket_comment
    (here : Scans isBlank 1 text ts line ('-' :: '-' :: (opener level ++ b))) :
    ReadsBracket text ts line ['-', '-'] level b (fun _ => none) .unfinishedLongComment := by
  have opens : opensComment (['-', '-'] ++ (opener level ++ b)) = true := rfl
  have bracket : bracketLevel? ((['-', '-'] ++ (opener level ++ b)).drop 2) = some level :=
    bracketLevel?_eq_some_iff.mpr ⟨b, rfl⟩
  have behind : (['-', '-'] ++ (opener level ++ b)).drop 2 = opener level ++ b := rfl
  refine .of_step here rfl (fun lexeme? n => ?_) fun why => ?_
  · rw [step_comment_iff opens, commentLength_eq_ok_iff bracket, behind]
    constructor
    · rintro ⟨rfl, body, m, inside, rfl⟩
      obtain ⟨k, first, rfl, rfl⟩ := longBracket?_opener_eq_some_iff.mp inside
      exact ⟨k, first, rfl, Nat.add_comm _ _⟩
    · rintro ⟨k, first, rfl, rfl⟩
      exact ⟨rfl, b.take k, _, longBracket?_opener_eq_some_iff.mpr ⟨k, first, rfl, rfl⟩,
        Nat.add_comm _ _⟩
  · rw [refused_comment_iff opens, commentLength, bracket, behind,
      ← longBracket?_opener_eq_none_iff]
    dsimp only
    cases longBracket? level (opener level ++ b) with
    | none =>
      constructor
      · rintro ⟨e, rfl, same⟩
        cases same
        exact ⟨rfl, rfl⟩
      · rintro ⟨-, rfl⟩
        exact ⟨_, rfl, rfl⟩
    | some closed =>
      constructor
      · rintro ⟨e, -, same⟩
        cases same
      · rintro ⟨none, -⟩
        cases none

/-- Cutting the body out of a literal finds the text that scanning has found. -/
theorem longBracketBody_of_firstAt {k : Nat} (first : FirstAt (closer level) b k) :
    longBracketBody ((opener level ++ b).take (k + 2 * (level + 2))) =
      dropFirstNewline (b.take k) := by
  obtain ⟨split, length⟩ := first.split
  have whole : opener level ++ b =
      (opener level ++ (b.take k ++ closer level)) ++ b.drop (k + (level + 2)) := by
    simp only [List.append_assoc, ← split]
  have width : (opener level ++ (b.take k ++ closer level)).length = k + 2 * (level + 2) := by
    simp only [List.length_append, length_opener, length_closer, length]
    omega
  have literal : (opener level ++ b).take (k + 2 * (level + 2)) =
      opener level ++ (b.take k ++ closer level) := by
    rw [whole, ← width, List.take_left]
  rw [literal, longBracketBody, bracketLevel?_eq_some_iff.mpr ⟨_, rfl⟩, Option.getD_some]
  have inner : k + 2 * (level + 2) - 2 * (level + 2) = (b.take k).length := by omega
  rw [width, ← length_opener level, List.drop_left, length_opener, inner, List.take_left]

/-- Long brackets close at the first closer of their level. At a token start the bracket is one
string, its body without a line end at its front; behind two dashes it is skipped; in both places it
is an error if it is not closed. Cutting the body out of the literal gives the same text. -/
theorem longBrackets_exact (text : List Char) (ts : List Token) (line level : Nat) (b : List Char) :
    (Scans isBlank 1 text ts line (opener level ++ b) →
      ReadsBracket text ts line [] level b
        (fun body => some (.string (String.ofList (dropFirstNewline body))))
        .unfinishedLongString) ∧
    (Scans isBlank 1 text ts line ('-' :: '-' :: (opener level ++ b)) →
      ReadsBracket text ts line ['-', '-'] level b (fun _ => none) .unfinishedLongComment) ∧
    ∀ k, FirstAt (closer level) b k →
      longBracketBody ((opener level ++ b).take (k + 2 * (level + 2))) =
        dropFirstNewline (b.take k) :=
  ⟨readsBracket_string, readsBracket_comment, fun _ => longBracketBody_of_firstAt⟩

/-- On the second line, a string whose body has a closer of another level and brackets that touch
its own, and a comment right behind it; a comment of level two that never ends. -/
theorem longBrackets_exact_overlap :
    let text := "\n[=[\n]==]]=]--[[x\n]=]]]--[==[]=]".toList
    let string := "\n]==]]=]--[[x\n]=]]]--[==[]=]".toList
    let comment := "x\n]=]]]--[==[]=]".toList
    FirstAt (closer 1) string 5 ∧ FirstAt (closer 0) comment 4 ∧
      Scans isBlank 1 text [⟨.string "]==]", 2⟩] 3 ("--[[".toList ++ comment) ∧
      Scans isBlank 1 text [⟨.string "]==]", 2⟩] 4 "]--[==[]=]".toList ∧
      tokenize text = .error (.error .unfinishedLongComment 4) ∧
      longBracketBody "[=[\n]==]]=]".toList = "]==]".toList := by
  intro text string comment
  have exact := longBrackets_exact text
  have first : FirstAt (closer 1) string 5 := ⟨by decide, by decide⟩
  have second : FirstAt (closer 0) comment 4 := ⟨by decide, by decide⟩
  have start : Scans isBlank 1 text [] 2 (opener 1 ++ string) := .pass (.blank (by decide)) .refl
  have behind := ((exact [] 2 1 string).1 start).onward 5 first
  have further := ((exact _ 3 0 comment).2.1 behind).onward 4 second
  have last : Scans isBlank 1 text _ 4 ('-' :: '-' :: (opener 2 ++ "]=]".toList)) :=
    further.concat_read (.token (by decide) (by decide) rfl)
  have unclosed : ∀ k, ¬ closer 2 <+: "]=]".toList.drop k :=
    longBracket?_opener_eq_none_iff.mp rfl
  exact ⟨first, second, behind, further, ((exact _ 4 2 _).2.1 last).error unclosed,
    (exact [] 2 1 string).2.2 5 first⟩

end

end MiniLua

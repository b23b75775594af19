import MiniLua.Proofs.Token.Exclusion

/-!
# Tokens before a gap

A blank or a closing parenthesis ends every token before it: what is read in front of one does not
depend on what follows. Tokens in front of a gap are those of the text that ends there.
-/

namespace MiniLua

open MiniLua.Text MiniLua.Spelling MiniLua.Parser MiniLua.Lexer

/-- Nothing in `tail` goes on a token before it. -/
def Separates (tail : List Char) : Prop := ∀ c, tail.head? = some c → isBlank c = true ∨ c = ')'

namespace Separates

variable {tail : List Char}

theorem nil : Separates [] := by
  intro c head
  cases head

theorem of_isBlank {c : Char} (blank : isBlank c = true) : Separates (c :: tail) := by
  rintro d ⟨⟩
  exact .inl blank

theorem any_eq_false (h : Separates tail) {p : Char → Bool}
    (solid : ∀ c, p c = true → isBlank c = false) (other : p ')' = false) :
    tail.head?.any p = false := by
  cases head : tail.head? with
  | none => rfl
  | some c =>
    rw [Option.any_some]
    by_contra member
    have member := Bool.not_eq_false _ ▸ member
    rcases h c head with blank | rfl
    · rw [solid c member] at blank
      cases blank
    · rw [other] at member
      cases member

/-- A character that is neither a blank nor the parenthesis is not in front. -/
theorem head?_ne (h : Separates tail) {c : Char} (solid : isBlank c = false) (other : c ≠ ')') :
    tail.head? ≠ some c := by
  intro head
  rcases h c head with blank | same
  · rw [solid] at blank
    cases blank
  · exact other same

end Separates

/-! ## Numerals -/

theorem isBlank_of_isDigit {c : Char} (h : isDigit c = true) : isBlank c = false := by
  by_contra blank
  rw [isDigit_of_isBlank (Bool.not_eq_false _ ▸ blank)] at h
  cases h

theorem isBlank_of_isDecimal {c : Char} (h : isDecimal c = true) : isBlank c = false :=
  isBlank_of_isDigit (by rw [isDigit, h, Bool.true_or])

theorem isBlank_of_isHex {c : Char} (h : isHex c = true) : isBlank c = false := by
  rw [isHex, hexValue?] at h
  have range : ∀ a b : Char, (a ≤ c && c ≤ b) = true → a.toNat ≤ c.toNat ∧ c.toNat ≤ b.toNat := by
    intro a b between
    simpa [Char.le_def, UInt32.le_iff_toNat_le] using between
  split at h
  next digit => exact has_eq_false (range _ _ digit).1 (range _ _ digit).2 (by decide)
  next =>
    split at h
    next lower => exact has_eq_false (range _ _ lower).1 (range _ _ lower).2 (by decide)
    next =>
      split at h
      next upper => exact has_eq_false (range _ _ upper).1 (range _ _ upper).2 (by decide)
      next => cases h

namespace Number

theorem splitSign_of_unsigned {cs : List Char} (h : cs.head? ≠ some '-' ∧ cs.head? ≠ some '+') :
    splitSign cs = (false, cs) := by
  unfold splitSign
  split
  next => exact absurd rfl h.1
  next => exact absurd rfl h.2
  next => rfl

theorem splitSign_append {tail : List Char} (h : Separates tail) (cs : List Char) :
    splitSign (cs ++ tail) = ((splitSign cs).1, (splitSign cs).2 ++ tail) := by
  cases cs with
  | nil =>
    exact splitSign_of_unsigned
      ⟨h.head?_ne (by decide) (by decide), h.head?_ne (by decide) (by decide)⟩
  | cons c cs =>
    unfold splitSign
    split
    next same =>
      cases same
      rfl
    next same =>
      cases same
      rfl
    next minus plus =>
      split
      next same =>
        cases same
        exact absurd rfl (minus _)
      next same =>
        cases same
        exact absurd rfl (plus _)
      next => rfl

namespace Numeral

theorem scanExponent_cons (e : Char) (rest : List Char) : scanExponent (e :: rest) =
    if e = 'e' || e = 'E' then
      if (splitSign rest).2.takeWhile isDecimal = [] then (0, e :: rest)
      else
        let value := ofDigits 10 (decimalsOf ((splitSign rest).2.takeWhile isDecimal))
        (if (splitSign rest).1 then -(value : Int) else value,
          (splitSign rest).2.dropWhile isDecimal)
    else (0, e :: rest) := by
  unfold scanExponent splitSign
  refine if_congr Iff.rfl ?_ rfl
  dsimp only
  split
  next none => rw [if_pos none]
  next some => rw [if_neg some]

variable {tail : List Char} (h : Separates tail)

include h

theorem takeWhile_isDecimal_append (cs : List Char) :
    (cs ++ tail).takeWhile isDecimal = cs.takeWhile isDecimal :=
  takeWhile_append_of_head (h.any_eq_false (fun _ => isBlank_of_isDecimal) (by decide)) cs

theorem dropWhile_isDecimal_append (cs : List Char) :
    (cs ++ tail).dropWhile isDecimal = cs.dropWhile isDecimal ++ tail :=
  dropWhile_append_of_head (h.any_eq_false (fun _ => isBlank_of_isDecimal) (by decide)) cs

theorem scanHex_append (cs : List Char) :
    scanHex (cs ++ tail) = (scanHex cs).map fun (n, rest) => (n, rest ++ tail) := by
  have hexless := h.any_eq_false (p := isHex) (fun _ => isBlank_of_isHex) (by decide)
  by_cases zero : cs.head? = some '0'
  · obtain ⟨rest, rfl⟩ := List.head?_eq_some_iff.mp zero
    cases rest with
    | nil =>
      cases tail with
      | nil => rfl
      | cons d tail =>
        have other : ¬ (d = 'x' || d = 'X') = true := by
          rw [Bool.or_eq_true, decide_eq_true_eq, decide_eq_true_eq]
          rintro (rfl | rfl)
          · exact h.head?_ne (c := 'x') (by decide) (by decide) rfl
          · exact h.head?_ne (c := 'X') (by decide) (by decide) rfl
        rw [List.singleton_append, scanHex_cons, if_neg other]
        rfl
    | cons x rest =>
      rw [List.cons_append, List.cons_append, scanHex_cons, scanHex_cons,
        takeWhile_append_of_head hexless, dropWhile_append_of_head hexless]
      split
      · split <;> rfl
      · rfl
  · have zero' : (cs ++ tail).head? ≠ some '0' := by
      cases cs with
      | nil => exact h.head?_ne (by decide) (by decide)
      | cons c cs => exact zero
    rw [scanHex_of_head zero, scanHex_of_head zero']
    rfl

theorem scanExponent_append (cs : List Char) :
    scanExponent (cs ++ tail) = ((scanExponent cs).1, (scanExponent cs).2 ++ tail) := by
  cases cs with
  | nil =>
    rw [List.nil_append]
    cases tail with
    | nil => rfl
    | cons d tail =>
      rw [scanExponent_cons, if_neg]
      · rfl
      · rw [Bool.or_eq_true, decide_eq_true_eq, decide_eq_true_eq]
        rintro (rfl | rfl)
        · exact h.head?_ne (c := 'e') (by decide) (by decide) rfl
        · exact h.head?_ne (c := 'E') (by decide) (by decide) rfl
  | cons e rest =>
    rw [List.cons_append, scanExponent_cons, scanExponent_cons, splitSign_append h, takeWhile_isDecimal_append h,
      dropWhile_isDecimal_append h]
    split
    next => split <;> rfl
    next => rfl

theorem scanMantissa_append (cs : List Char) : scanMantissa (cs ++ tail) =
    (scanMantissa cs).map fun (whole, part, rest) => (whole, part, rest ++ tail) := by
  by_cases point : (cs.dropWhile isDecimal).head? = some '.'
  · obtain ⟨rest, same⟩ := List.head?_eq_some_iff.mp point
    have same' : (cs ++ tail).dropWhile isDecimal = '.' :: (rest ++ tail) := by
      rw [dropWhile_isDecimal_append h, same, List.cons_append]
    rw [scanMantissa_of_point same, scanMantissa_of_point same', takeWhile_isDecimal_append h,
      takeWhile_isDecimal_append h, dropWhile_isDecimal_append h]
    split <;> rfl
  · have point' : ((cs ++ tail).dropWhile isDecimal).head? ≠ some '.' := by
      rw [dropWhile_isDecimal_append h]
      cases same : cs.dropWhile isDecimal with
      | nil => exact h.head?_ne (by decide) (by decide)
      | cons c rest =>
        rw [same] at point
        exact point
    rw [scanMantissa_of_other point, scanMantissa_of_other point', takeWhile_isDecimal_append h,
      dropWhile_isDecimal_append h]
    split <;> rfl

/-- A numeral is read in front of a gap as it is read at the end of the text. -/
theorem scan_append (cs : List Char) :
    scan (cs ++ tail) = (scan cs).map fun (n, rest) => (n, rest ++ tail) := by
  have decimal : scanDecimal (cs ++ tail) =
      (scanDecimal cs).map fun (n, rest) => (n, rest ++ tail) := by
    rw [scanDecimal, scanDecimal, scanMantissa_append h, Option.map_map, Option.map_map]
    refine congrArg (Option.map · _) (funext fun ⟨whole, part, rest⟩ => ?_)
    simp only [Function.comp_apply, scanExponent_append h]
  rw [scan, scan, scanHex_append h, decimal]
  cases scanHex cs <;> rfl

end Numeral

end Number

/-! ## Strings and long brackets -/

namespace Spelling

/-- A short string ends at its quote, whatever follows. -/
theorem shortBody?_congr {quote : Char} {body rest : List Char}
    (h : shortBody? quote (body ++ quote :: rest) = some body) (rest' : List Char) :
    shortBody? quote (body ++ quote :: rest') = some body := by
  have cons : ∀ c cs, cs ≠ [] → shortBody? quote (c :: cs) =
      if c = quote then some []
      else if c = '\n' then none
      else if c = '\\' then
        if cs.head? = some '\n' then none
        else (shortBody? quote cs.tail).map fun body => c :: cs.head?.toList ++ body
      else (shortBody? quote cs).map (c :: ·) := by
    intro c cs nonempty
    obtain ⟨d, cs, rfl⟩ := List.exists_cons_of_ne_nil nonempty
    simp [shortBody?]
  match body with
  | [] => cases rest' <;> simp [shortBody?]
  | c :: body =>
    rw [List.cons_append, cons _ _ (by simp)] at h ⊢
    split at h
    next => cases h
    next differs =>
      rw [if_neg differs]
      split at h
      next => cases h
      next printed =>
        rw [if_neg printed]
        split at h
        next slash =>
          rw [if_pos slash]
          cases body with
          | nil =>
            split at h
            next => cases h
            next =>
              obtain ⟨inner, -, same⟩ := Option.map_eq_some_iff.mp h
              cases same
          | cons d body =>
            split at h
            next => cases h
            next plain =>
              rw [if_neg (by simpa using plain)]
              obtain ⟨inner, found, same⟩ := Option.map_eq_some_iff.mp h
              cases same
              have found : shortBody? quote (inner ++ quote :: rest) = some inner := found
              have again := shortBody?_congr found rest'
              simpa using again
        next plain =>
          rw [if_neg plain]
          obtain ⟨inner, found, same⟩ := Option.map_eq_some_iff.mp h
          cases same
          rw [shortBody?_congr found rest']
          rfl
  termination_by body.length

theorem isPrefixOf_append_of_le {p cs tail : List Char} (h : p.length ≤ cs.length) :
    p.isPrefixOf (cs ++ tail) = p.isPrefixOf cs := by
  rw [Bool.eq_iff_iff, List.isPrefixOf_iff_prefix, List.isPrefixOf_iff_prefix]
  refine ⟨fun starts => ?_, fun starts => starts.trans (List.prefix_append _ _)⟩
  exact List.prefix_of_prefix_length_le starts (List.prefix_append _ _) h

/-- A long bracket ends at its first closer, whatever follows. -/
theorem longBody?_congr {level : Nat} {body rest : List Char}
    (h : longBody? level (body ++ closer level ++ rest) = some body) (rest' : List Char) :
    longBody? level (body ++ closer level ++ rest') = some body := by
  have starts : ∀ (body rest : List Char), (closer level).isPrefixOf (body ++ closer level ++ rest)
      = (closer level).isPrefixOf (body ++ closer level) := by
    intro body rest
    exact isPrefixOf_append_of_le (by simp)
  induction body with
  | nil =>
    rw [List.nil_append]
    obtain ⟨c, cs, same⟩ : ∃ c cs, closer level ++ rest' = c :: cs := ⟨_, _, rfl⟩
    rw [same, longBody?, ← same, if_pos]
    rw [List.isPrefixOf_iff_prefix]
    exact List.prefix_append _ _
  | cons c body ih =>
    have first := starts (c :: body)
    simp only [List.cons_append] at h first ⊢
    rw [longBody?, first] at h ⊢
    split at h
    next => cases h
    next later =>
      obtain ⟨inner, found, same⟩ := Option.map_eq_some_iff.mp h
      cases same
      rw [if_neg later, ih found]
      rfl

theorem bracketLevel?_eq_some_iff {level : Nat} {cs : List Char} :
    bracketLevel? cs = some level ↔ ∃ rest, cs = opener level ++ rest := by
  constructor
  · exact bracketLevel?_prefix
  rintro ⟨rest, rfl⟩
  have whole : opener level ++ rest = '[' :: (List.replicate level '=' ++ '[' :: rest) := by
    simp [opener]
  have all : ∀ c ∈ List.replicate level '=', decide (c = '=') = true := by simp
  have ends : ('[' :: rest).head?.any (· = '=') = false := rfl
  rw [whole, bracketLevel?]
  simp only [takeWhile_run all ends, dropWhile_run all ends, List.length_replicate]

theorem bracketLevel?_of_head {cs : List Char} (h : cs.head? ≠ some '[') :
    bracketLevel? cs = none := by
  unfold bracketLevel?
  split
  next => exact absurd rfl h
  next => rfl

theorem bracketLevel?_cons (cs : List Char) : bracketLevel? ('[' :: cs) =
    if (cs.dropWhile (· = '=')).head? = some '[' then some (cs.takeWhile (· = '=')).length
    else none := by
  rw [bracketLevel?]
  split
  next same => rw [same, if_pos List.head?_cons]
  next other =>
    rw [if_neg]
    intro head
    obtain ⟨rest, same⟩ := List.head?_eq_some_iff.mp head
    exact other rest same

theorem bracketLevel?_append {tail : List Char} (h : Separates tail) (cs : List Char) :
    bracketLevel? (cs ++ tail) = bracketLevel? cs := by
  have equals : tail.head?.any (· = '=') = false := by
    refine h.any_eq_false (fun c same => ?_) (by decide)
    rw [decide_eq_true_eq.mp same]
    decide
  have unopened : tail.head? ≠ some '[' := h.head?_ne (by decide) (by decide)
  cases cs with
  | nil => rw [List.nil_append, bracketLevel?_of_head unopened]; rfl
  | cons c cs =>
    by_cases opens : c = '['
    · subst opens
      rw [List.cons_append, bracketLevel?_cons, bracketLevel?_cons,
        takeWhile_append_of_head equals, dropWhile_append_of_head equals]
      cases cs.dropWhile (· = '=') with
      | nil => rw [List.nil_append, if_neg unopened, if_neg (by simp)]
      | cons d rest => rfl
    · rw [bracketLevel?_of_head (by simpa using opens), bracketLevel?_of_head (by simpa using opens)]

/-- A long bracket that opens and closes in front of a gap. -/
theorem longBracket?_append_iff {level n : Nat} {cs body : List Char}
    (opens : bracketLevel? cs = some level) (tail : List Char) :
    longBracket? level cs = some (body, n) ↔
      longBracket? level (cs ++ tail) = some (body, n) ∧ n ≤ cs.length := by
  obtain ⟨inside, rfl⟩ := bracketLevel?_prefix opens
  have drop : ∀ rest, (opener level ++ rest).drop (level + 2) = rest := by
    intro rest
    rw [← length_opener, List.drop_left]
  have closed : ∀ rest, longBody? level rest = some body →
      ∃ after, rest = body ++ closer level ++ after := fun rest => longBody?_prefix
  rw [List.append_assoc, longBracket?, longBracket?, drop, drop, Option.map_eq_some_iff,
    Option.map_eq_some_iff]
  constructor
  · rintro ⟨body, found, ⟨⟩⟩
    obtain ⟨after, rfl⟩ := longBody?_prefix found
    refine ⟨⟨body, ?_, rfl⟩, ?_⟩
    · rw [List.append_assoc]
      exact longBody?_congr found _
    · simp only [List.length_append, length_opener, length_closer]
      omega
  · rintro ⟨⟨body, found, ⟨⟩⟩, short⟩
    obtain ⟨after, same⟩ := longBody?_prefix found
    obtain ⟨after', rfl⟩ : ∃ after', inside = body ++ closer level ++ after' := by
      have whole : body ++ closer level <+: inside := by
        refine List.prefix_of_prefix_length_le (⟨after, same.symm⟩ : _ <+: inside ++ tail)
          (List.prefix_append _ _) ?_
        simp only [List.length_append, length_opener, length_closer] at short ⊢
        omega
      obtain ⟨after', same⟩ := whole
      exact ⟨after', same.symm⟩
    refine ⟨body, ?_, rfl⟩
    rw [List.append_assoc] at found
    exact longBody?_congr found _

/-! ## Symbols and words -/

theorem startsWith_append {tail : List Char} (h : Separates tail) {s : String} (known : s ∈ symbols)
    {cs : List Char} (nonempty : cs ≠ []) : startsWith s (cs ++ tail) = startsWith s cs := by
  rw [startsWith, startsWith, Bool.eq_iff_iff, List.isPrefixOf_iff_prefix,
    List.isPrefixOf_iff_prefix]
  refine ⟨fun starts => ?_, fun starts => starts.trans (List.prefix_append _ _)⟩
  rcases List.prefix_or_prefix_of_prefix starts (List.prefix_append cs tail) with
    within | ⟨more, same⟩
  · exact within
  -- a symbol that goes on in the gap would hold a blank or a parenthesis after its first character
  have inner := List.all_eq_true.mp (forall_symbols
    (fun w => w.tail.all (fun c => !isBlank c && c != ')') = true) (by decide) s known)
  cases more with
  | nil =>
    rw [List.append_nil] at same
    exact same ▸ List.prefix_refl _
  | cons d more =>
    exfalso
    rw [← same] at starts inner
    obtain ⟨c, cs, rfl⟩ := List.exists_cons_of_ne_nil nonempty
    have member : d ∈ (c :: cs ++ d :: more).tail := by simp
    obtain ⟨rest, split⟩ := (List.prefix_append_right_inj _).mp starts
    obtain ⟨solid, other⟩ : isBlank d = false ∧ d ≠ ')' := by simpa using inner d member
    refine h.head?_ne solid other ?_
    rw [← split]
    rfl

theorem symbol?_append {tail : List Char} (h : Separates tail) {cs : List Char}
    (nonempty : cs ≠ []) : symbol? (cs ++ tail) = symbol? cs := by
  have agree : ∀ known : List String, known ⊆ symbols →
      known.find? (startsWith · (cs ++ tail)) = known.find? (startsWith · cs) := by
    intro known within
    induction known with
    | nil => rfl
    | cons s known ih =>
      rw [List.cons_subset] at within
      rw [List.find?_cons, List.find?_cons, startsWith_append h within.1 nonempty, ih within.2]
  exact agree symbols (List.Subset.refl _)

theorem nameChars_of_separates {tail : List Char} (h : Separates tail) (cs : List Char) :
    nameChars (cs ++ tail) = nameChars cs := by
  have nameless := h.any_eq_false (p := isNameChar) (fun _ => isBlank_of_isNameChar) (by decide)
  cases cs with
  | nil =>
    cases tail with
    | nil => rfl
    | cons c tail =>
      rw [List.nil_append, nameChars_eq_nil_iff.mpr]
      · rfl
      · by_contra start
        rw [List.head?_cons, Option.any_some,
          isNameChar_of_isNameStart (Bool.not_eq_false _ ▸ start)] at nameless
        cases nameless
  | cons c cs => rw [List.cons_append, nameChars, nameChars, takeWhile_append_of_head nameless]

theorem opensComment_eq (cs : List Char) : opensComment cs = ['-', '-'].isPrefixOf cs := by
  unfold opensComment
  split
  next => rfl
  next other =>
    symm
    rw [Bool.eq_false_iff]
    intro starts
    obtain ⟨rest, same⟩ := List.isPrefixOf_iff_prefix.mp starts
    exact other rest same.symm

theorem opensComment_append {tail : List Char} (h : Separates tail) (cs : List Char) :
    opensComment (cs ++ tail) = opensComment cs := by
  have dashless : tail.head? ≠ some '-' := h.head?_ne (by decide) (by decide)
  rw [opensComment_eq, opensComment_eq]
  match cs with
  | [] =>
    cases tail with
    | nil => rfl
    | cons d tail => simp [List.isPrefixOf, Ne.symm (by simpa using dashless : d ≠ '-')]
  | [c] =>
    cases tail with
    | nil => rfl
    | cons d tail => simp [List.isPrefixOf, Ne.symm (by simpa using dashless : d ≠ '-')]
  | c :: d :: cs => simp [List.isPrefixOf]

end Spelling

/-! ## Tokens -/

namespace Lexer

variable {cs tail : List Char} {lexeme : Lexeme} {n : Nat}

theorem isWord_of_isBlank {c : Char} (h : isBlank c = true) : isWord c = false := by
  obtain ⟨span, known, low, high⟩ := (Spans.has_iff _ _).mp h
  have all : ∀ s ∈ blankSpans, ∀ n ∈ List.range' s.1 (s.2 + 1 - s.1),
      isWord (Char.ofNat n) = false := by decide +kernel
  have wordless := all span known c.toNat (List.mem_range'_1.mpr (by omega))
  rwa [Char.ofNat_toNat] at wordless

theorem endsNumber_append (h : Separates tail) (rest : List Char) :
    endsNumber (rest ++ tail) = endsNumber rest := by
  cases rest with
  | cons c rest => rfl
  | nil =>
    cases tail with
    | nil => rfl
    | cons c tail =>
      have ends : (isWord c || decide (c = '.')) = false := by
        rcases h c rfl with blank | rfl
        · rw [isWord_of_isBlank blank, Bool.false_or, decide_eq_false_iff_not]
          rintro rfl
          exact absurd blank (by decide)
        · decide
      change (!(isWord c || decide (c = '.'))) = true
      rw [ends]
      rfl

theorem startsNumber_append (h : Separates tail) (nonempty : cs ≠ []) :
    startsNumber (cs ++ tail) = startsNumber cs := by
  have digitless := h.any_eq_false (p := isDigit) (fun _ => isBlank_of_isDigit) (by decide)
  match cs with
  | c :: cs =>
    by_cases point : c = '.'
    · subst point
      cases cs with
      | nil =>
        cases tail with
        | nil => rfl
        | cons d tail => exact digitless
      | cons d cs => rfl
    · rw [List.cons_append, startsNumber_of_ne point, startsNumber_of_ne point]

/-- A token at the end of a text is read as well where a gap follows. -/
theorem Rule.append (h : Separates tail) (nonempty : cs ≠ []) (rule : Rule cs lexeme n) :
    Rule (cs ++ tail) lexeme n := by
  cases rule with
  | @short quote tail' body text here quoted inside decoded =>
    subst here
    obtain ⟨rest, rfl⟩ := shortBody?_prefix inside
    refine .short rfl quoted ?_ decoded
    change shortBody? quote (body ++ quote :: rest ++ tail) = some body
    rw [List.append_assoc]
    exact shortBody?_congr inside _
  | long opens inside =>
    exact .long ((bracketLevel?_append h cs).trans opens)
      ((longBracket?_append_iff opens tail).mp inside).1
  | @number numeral rest value scanned ends nearest =>
    have length : cs.length - rest.length = (cs ++ tail).length - (rest ++ tail).length := by
      rw [List.length_append, List.length_append, Nat.add_sub_add_right]
    rw [length]
    refine .number ?_ ((endsNumber_append h rest).trans ends) nearest
    rw [Number.Numeral.scan_append h, scanned]
    rfl
  | symbol unopened digitless longest =>
    exact .symbol ((bracketLevel?_append h cs).trans unopened)
      ((startsNumber_append h nonempty).trans digitless)
      ((symbol?_append h nonempty).trans longest)
  | keyword starts known =>
    rw [← nameChars_of_separates h cs] at starts known ⊢
    exact .keyword starts known
  | name starts unknown =>
    rw [← nameChars_of_separates h cs] at starts unknown ⊢
    exact .name starts unknown

/-! ## Comments -/

theorem drop_two_append (opens : opensComment cs = true) (tail : List Char) :
    (cs ++ tail).drop 2 = cs.drop 2 ++ tail := by
  obtain ⟨rest, rfl⟩ := opensComment_prefix opens
  rfl

theorem commentLength_of_bracketless (h : bracketLevel? (cs.drop 2) = none) :
    commentLength cs = .ok (firstLine cs).length := by
  rw [commentLength, h]

theorem commentLength_eq_ok_iff {level : Nat} (h : bracketLevel? (cs.drop 2) = some level) :
    commentLength cs = .ok n ↔
      ∃ body m, longBracket? level (cs.drop 2) = some (body, m) ∧ n = m + 2 := by
  rw [commentLength, h]
  dsimp only
  cases longBracket? level (cs.drop 2) with
  | none => simp
  | some closed =>
    obtain ⟨body, m⟩ := closed
    constructor
    · intro same
      cases same
      exact ⟨body, m, rfl, rfl⟩
    · rintro ⟨body, m, ⟨⟩, rfl⟩
      rfl

/-- A comment in long brackets in front of a gap is the comment at the end of the text. -/
theorem commentLength_append_iff {level : Nat} (h : Separates tail)
    (opens : opensComment cs = true) (bracket : bracketLevel? (cs.drop 2) = some level) :
    commentLength cs = .ok n ↔ commentLength (cs ++ tail) = .ok n ∧ n ≤ cs.length := by
  have drop := drop_two_append opens tail
  have whole : bracketLevel? ((cs ++ tail).drop 2) = some level := by
    rw [drop, bracketLevel?_append h, bracket]
  have length : cs.length = (cs.drop 2).length + 2 := by
    obtain ⟨rest, rfl⟩ := opensComment_prefix opens
    rfl
  rw [commentLength_eq_ok_iff bracket, commentLength_eq_ok_iff whole, drop, length]
  constructor
  · rintro ⟨body, m, closed, rfl⟩
    obtain ⟨closed, short⟩ := (longBracket?_append_iff bracket tail).mp closed
    exact ⟨⟨body, m, closed, rfl⟩, by omega⟩
  · rintro ⟨⟨body, m, closed, rfl⟩, short⟩
    exact ⟨body, m, (longBracket?_append_iff bracket tail).mpr ⟨closed, by omega⟩, rfl⟩

theorem firstLine_append_of_mem {read : List Char} (h : '\n' ∈ read) (tail : List Char) :
    firstLine (read ++ tail) = firstLine read := by
  rw [firstLine, firstLine, List.takeWhile_append]
  rw [if_neg]
  intro all
  have := List.takeWhile_eq_self_iff.mp (List.takeWhile_prefix _ |>.eq_of_length all) '\n' h
  simp at this

theorem firstLine_append_of_not_mem {read : List Char} (h : '\n' ∉ read) (tail : List Char) :
    firstLine (read ++ tail) = read ++ firstLine tail := by
  refine List.takeWhile_append_of_pos fun c member => ?_
  rw [decide_eq_true_eq]
  rintro rfl
  exact h member

end Lexer

end MiniLua

import Mathlib.Data.List.Forall2
import MiniLua.Proofs.Listing.Items
import MiniLua.Proofs.Locating.Lines
import MiniLua.Proofs.Text.Rows

/-!
# The listing of a program that was read

Items and their outlines have the same places, so the visits of the outline are the items of the
program, and each has a row of its own. No row is broken: a kind is a word of the grammar, since the
parser builds no other nodes, and everything else is quoted, a number or a word.
-/

namespace MiniLua

open MiniLua.Text

namespace Item

variable {n c : Item} {place : List Nat}

/-- The kinds of the grammar. -/
def kinds : List String :=
  ["NIL", "BOOLEAN", "NUMBER", "STRING", "NAME", "INDEX", "CALL", "FUNCTION", "TABLE", "PAREN",
    "LOGICAL", "BINARY", "UNARY", "POSITIONAL_FIELD", "KEYED_FIELD", "LOCAL", "ASSIGN", "CALL_STMT",
    "DO", "WHILE", "IF", "NUMERIC_FOR", "GENERIC_FOR", "FUNCTION_DECL", "LOCAL_FUNCTION", "RETURN",
    "BREAK", "BLOCK"]

/-! ## The items in an item -/

theorem at?_outline (n : Item) (place : List Nat) :
    n.outline.at? place = (n.at? place).map Item.outline := by
  induction place generalizing n with
  | nil => rfl
  | cons i place ih =>
    rw [Outline.at?, outline_eq, Outline.children, List.getElem?_map, Item.at?]
    cases n.children[i]? with
    | none => rfl
    | some c => exact ih c

def sites : Item → List Site
  | expr e => e.sites
  | field f => f.sites
  | stmt s => s.sites
  | block b => b.sites

/-- No node in the item stands for what no text spells. -/
def Spelled (n : Item) : Prop := ∀ s ∈ n.sites, s.spelled = true

theorem spelled_pair {m n : Item} (h : ∀ s ∈ m.sites ++ n.sites, s.spelled = true) :
    ∀ c ∈ [m, n], c.Spelled := by
  obtain ⟨first, second⟩ := List.forall_mem_append.mp h
  exact List.forall_mem_cons.mpr ⟨first, List.forall_mem_singleton.mpr second⟩

theorem spelled_map {α : Type} {f : α → Item} {g : α → List Site} {as : List α}
    (same : ∀ a, (f a).sites = g a) (h : ∀ s ∈ as.flatMap g, s.spelled = true) :
    ∀ n ∈ as.map f, n.Spelled := by
  refine List.forall_mem_map.mpr fun a member => ?_
  rw [Spelled, same]
  exact List.forall_mem_flatMap.mp h a member

theorem spelled_exprs {es : List Expr} (h : ∀ s ∈ Expr.allSites es, s.spelled = true) :
    ∀ n ∈ es.map expr, n.Spelled := by
  rw [Expr.allSites_eq] at h
  exact spelled_map (fun _ => rfl) h

theorem spelled_fields {fs : List Field} (h : ∀ s ∈ Field.allSites fs, s.spelled = true) :
    ∀ n ∈ fs.map field, n.Spelled := by
  rw [Field.allSites_eq] at h
  exact spelled_map (fun _ => rfl) h

theorem spelled_stmts {ss : List Stmt} (h : ∀ s ∈ Stmt.allSites ss, s.spelled = true) :
    ∀ n ∈ ss.map stmt, n.Spelled := by
  rw [Stmt.allSites_eq] at h
  exact spelled_map (fun _ => rfl) h

theorem spelled_targets {ts : List Target} (h : ∀ s ∈ Target.allSites ts, s.spelled = true) :
    ∀ n ∈ ts.map fun t => expr t.toExpr, n.Spelled := by
  rw [Target.allSites_eq] at h
  exact spelled_map Target.sites_toExpr h

theorem spelled_clauses {cs : List Clause} (h : ∀ s ∈ Clause.allSites cs, s.spelled = true) :
    ∀ n ∈ cs.flatMap fun c => [expr c.condition, block c.body], n.Spelled := by
  rw [Clause.allSites_eq, List.forall_mem_flatMap] at h
  refine List.forall_mem_flatMap.mpr fun c member => ?_
  have inside := h c member
  cases c
  exact spelled_pair inside

theorem spelled_function {f : Lambda} (h : ∀ s ∈ f.sites, s.spelled = true) :
    (expr (.function f)).Spelled := List.forall_mem_cons.mpr ⟨rfl, h⟩

theorem spelled_children_expr {e : Expr} (h : (expr e).Spelled) :
    ∀ c ∈ (expr e).children, c.Spelled := by
  cases e with
  | index target key line => exact spelled_pair (List.forall_mem_of_forall_mem_cons h)
  | call c =>
    cases c
    obtain ⟨first, second⟩ := List.forall_mem_append.mp (List.forall_mem_of_forall_mem_cons h)
    exact List.forall_mem_cons.mpr ⟨first, spelled_exprs second⟩
  | function f =>
    cases f
    exact List.forall_mem_singleton.mpr (List.forall_mem_of_forall_mem_cons h)
  | table fields line => exact spelled_fields (List.forall_mem_of_forall_mem_cons h)
  | paren inner line =>
    exact List.forall_mem_singleton.mpr (List.forall_mem_of_forall_mem_cons h)
  | logical op left right line => exact spelled_pair (List.forall_mem_of_forall_mem_cons h)
  | binary op left right line => exact spelled_pair (List.forall_mem_of_forall_mem_cons h)
  | unary op operand line =>
    exact List.forall_mem_singleton.mpr (List.forall_mem_of_forall_mem_cons h)
  | _ => exact nofun

theorem spelled_children_stmt {s : Stmt} (h : (stmt s).Spelled) :
    ∀ c ∈ (stmt s).children, c.Spelled := by
  cases s with
  | localVars names values line => exact spelled_exprs (List.forall_mem_of_forall_mem_cons h)
  | assign targets values line =>
    obtain ⟨first, second⟩ := List.forall_mem_append.mp (List.forall_mem_of_forall_mem_cons h)
    exact List.forall_mem_append.mpr ⟨spelled_targets first, spelled_exprs second⟩
  | call c line => exact List.forall_mem_singleton.mpr (List.forall_mem_of_forall_mem_cons h)
  | doBlock body line => exact List.forall_mem_singleton.mpr (List.forall_mem_of_forall_mem_cons h)
  | whileLoop condition body line => exact spelled_pair (List.forall_mem_of_forall_mem_cons h)
  | branch clauses otherwise line =>
    cases otherwise with
    | none =>
      have arms := spelled_clauses (List.forall_mem_of_forall_mem_cons h)
      exact List.forall_mem_append.mpr ⟨arms, nofun⟩
    | some body =>
      obtain ⟨first, second⟩ := List.forall_mem_append.mp (List.forall_mem_of_forall_mem_cons h)
      have last : ∀ c ∈ [block body], c.Spelled := List.forall_mem_singleton.mpr second
      exact List.forall_mem_append.mpr ⟨spelled_clauses first, last⟩
  | numericFor name start stop step body line =>
    cases step with
    | none =>
      obtain ⟨first, rest⟩ := List.forall_mem_append.mp (List.forall_mem_of_forall_mem_cons h)
      exact List.forall_mem_cons.mpr ⟨first, spelled_pair rest⟩
    | some step =>
      obtain ⟨first, rest⟩ := List.forall_mem_append.mp (List.forall_mem_of_forall_mem_cons h)
      obtain ⟨second, rest⟩ := List.forall_mem_append.mp rest
      exact List.forall_mem_cons.mpr ⟨first, List.forall_mem_cons.mpr ⟨second, spelled_pair rest⟩⟩
  | genericFor names values body line =>
    obtain ⟨first, second⟩ := List.forall_mem_append.mp (List.forall_mem_of_forall_mem_cons h)
    exact List.forall_mem_append.mpr ⟨spelled_exprs first, List.forall_mem_singleton.mpr second⟩
  | functionDecl target f line =>
    obtain ⟨first, second⟩ := List.forall_mem_append.mp (List.forall_mem_of_forall_mem_cons h)
    rw [← Target.sites_toExpr] at first
    have last := spelled_function second
    exact List.forall_mem_cons.mpr ⟨first, List.forall_mem_singleton.mpr last⟩
  | localFunction name f line =>
    have only := spelled_function (List.forall_mem_of_forall_mem_cons h)
    exact List.forall_mem_singleton.mpr only
  | returnValues values line => exact spelled_exprs (List.forall_mem_of_forall_mem_cons h)
  | breakLoop line => exact nofun
  | other kind line => exact nofun

namespace Spelled

theorem children (h : n.Spelled) : ∀ c ∈ n.children, c.Spelled := by
  cases n with
  | expr e => exact spelled_children_expr h
  | field f =>
    cases f with
    | positional value line =>
      exact List.forall_mem_singleton.mpr (List.forall_mem_of_forall_mem_cons h)
    | keyed key value line => exact spelled_pair (List.forall_mem_of_forall_mem_cons h)
  | stmt s => exact spelled_children_stmt h
  | block b =>
    cases b
    exact spelled_stmts h

theorem at? (h : n.Spelled) (there : n.at? place = some c) : c.Spelled := by
  induction place generalizing n with
  | nil =>
    cases there
    exact h
  | cons i place ih =>
    obtain ⟨d, child, below⟩ := Option.bind_eq_some_iff.mp there
    exact ih (h.children d (List.mem_of_getElem? child)) below

theorem kind_mem (h : n.Spelled) : n.kind ∈ kinds := by
  cases n with
  | expr e =>
    cases e with
    | other kind line => cases h _ List.mem_cons_self
    | _ => simp [kind, Expr.kind, kinds]
  | field f => cases f <;> simp [kind, Field.kind, kinds]
  | stmt s =>
    cases s with
    | other kind line => cases h _ List.mem_cons_self
    | _ => simp [kind, Stmt.kind, kinds]
  | block b => simp [kind, kinds]

theorem printable_kind (h : n.Spelled) : Printable n.kind.toList := by
  have each : ∀ kind ∈ kinds, Printable kind.toList := by decide
  exact each _ h.kind_mem

end Spelled

/-! ## Rows -/

/-- The row is the item's own at a depth: two blanks for each step down to it, the kind, what else is
shown of it in parentheses, and its line. All of it prints. -/
structure Row (n : Item) (depth : Nat) (row : List Char) : Prop where
  prints : Printable row
  spelled : ∃ shown, (shown = [] ∨ ∃ inner, shown = '(' :: inner ++ [')']) ∧
    row = List.replicate (2 * depth) ' ' ++ n.kind.toList ++ shown ++
      ' ' :: ' ' :: '@' :: Nat.toDigits 10 n.line

theorem toList_heading (kind : String) {details : List Detail} (line : Nat)
    (h : ∀ d ∈ details, Printable d.spelled.toList) :
    ∃ shown, Printable shown ∧ (shown = [] ∨ ∃ inner, shown = '(' :: inner ++ [')']) ∧
      (Outline.heading kind details line).toList =
        kind.toList ++ shown ++ ' ' :: ' ' :: '@' :: Nat.toDigits 10 line := by
  cases details with
  | nil => exact ⟨[], nofun, .inl rfl, by simp [Outline.heading, toString, Nat.repr]⟩
  | cons d ds =>
    let inner := (", ".intercalate ((d :: ds).map Detail.spelled)).toList
    have prints : Printable inner := by
      simp only [inner, String.toList_intercalate, List.map_map]
      exact .intercalate (by decide) (List.forall_mem_map.mpr h)
    refine ⟨'(' :: inner ++ [')'], ?_, .inr ⟨inner, rfl⟩, ?_⟩
    · exact Printable.append (.cons (by decide) prints) (by decide)
    · simp [Outline.heading, toString, Nat.repr, inner]

theorem row_outline (h : n.Spelled) (place : List Nat) :
    n.Row place.length (Outline.row (place, n.outline)) := by
  obtain ⟨shown, prints, bracketed, same⟩ := toList_heading n.kind n.line n.printable_details
  have own : n.outline.own.toList =
      n.kind.toList ++ shown ++ ' ' :: ' ' :: '@' :: Nat.toDigits 10 n.line := by
    rw [outline_eq]
    exact same
  have line : Printable (Nat.toDigits 10 n.line) := printable_of_figures (.toDigits n.line)
  have last : Printable (' ' :: ' ' :: '@' :: Nat.toDigits 10 n.line) :=
    .cons (by decide) (.cons (by decide) (.cons (by decide) line))
  rw [Outline.row, own]
  constructor
  · exact (Printable.spaces _).append ((h.printable_kind.append prints).append last)
  · exact ⟨shown, bracketed, by simp only [List.append_assoc]⟩

/-- The rows list the items in a root, one row for each place there is. The places stand in the order of
a dictionary: an item comes before what is in it, and what is in one child before what is in the next. -/
structure Lists (root : Item) (places : List (List Nat)) (rows : List (List Char)) : Prop where
  ordered : places.Pairwise (· < ·)
  complete : ∀ place, place ∈ places ↔ (root.at? place).isSome
  shown : List.Forall₂ (fun place row => ∃ n, root.at? place = some n ∧ n.Row place.length row)
    places rows

theorem Lists.prints {places : List (List Nat)} {rows : List (List Char)}
    (h : n.Lists places rows) : ∀ row ∈ rows, Printable row := by
  obtain ⟨-, -, shown⟩ := h
  induction shown with
  | nil => exact nofun
  | cons first _ ih =>
    obtain ⟨c, -, own⟩ := first
    exact List.forall_mem_cons.mpr ⟨own.prints, ih⟩

theorem lists_visits (h : n.Spelled) :
    n.Lists (n.outline.visits.map Prod.fst) (n.outline.visits.map Outline.row) := by
  have found : ∀ v ∈ n.outline.visits, ∃ c, n.at? v.1 = some c ∧ c.outline = v.2 := by
    intro v member
    have there := Outline.mem_visits.mp member
    rw [at?_outline] at there
    exact Option.map_eq_some_iff.mp there
  constructor
  · exact Outline.pairwise_visits _
  · intro place
    constructor
    · intro member
      obtain ⟨v, visited, rfl⟩ := List.mem_map.mp member
      obtain ⟨c, there, -⟩ := found v visited
      exact Option.isSome_of_eq_some there
    · intro there
      obtain ⟨c, there⟩ := Option.isSome_iff_exists.mp there
      refine List.mem_map.mpr ⟨(place, c.outline), Outline.mem_visits.mpr ?_, rfl⟩
      rw [at?_outline, there, Option.map_some]
  · rw [List.forall₂_map_left_iff, List.forall₂_map_right_iff, List.forall₂_same]
    intro v member
    obtain ⟨c, there, same⟩ := found v member
    obtain ⟨place, o⟩ := v
    obtain rfl : c.outline = o := same
    exact ⟨c, there, row_outline (h.at? there) place⟩

end Item

/-- The lines of a program's listing are the rows of the items in it, the program itself being the
first, and every line is ended. -/
theorem listing_lists {text : List Char} {program : Block}
    (read : parseProgram text = .ok program) :
    ∃ places rows, lines program.listing.toList = rows ++ [[]] ∧
      (Item.block program).Lists places rows := by
  have spelled : (Item.block program).Spelled := fun s member =>
    (genuine_parseProgram read s member).2
  have lists := Item.lists_visits spelled
  have unbroken := lines_ended fun row member => (lists.prints row member).single
  rw [← Outline.toList_text] at unbroken
  exact ⟨_, _, unbroken, lists⟩

/-- The line feed in the string is written with an escape. -/
theorem listing_lists_lineFeed :
    let text := "if a then\n  f(\"x\\ny\")\nend".toList
    let shown := ["BLOCK  @1", "  IF  @1", "    NAME(name='a')  @1", "    BLOCK  @1",
      "      CALL_STMT  @1", "        CALL  @2", "          NAME(name='f')  @1",
      "          STRING(literal='x\\ny')  @2", ""]
    ∃ program, parseProgram text = .ok program ∧
      lines program.listing.toList = shown.map String.toList ∧
      ∃ places rows, lines program.listing.toList = rows ++ [[]] ∧
        (Item.block program).Lists places rows := by
  intro text shown
  have listed : (parseProgram text).toOption.map (fun program => lines program.listing.toList) =
      some (shown.map String.toList) := by decide +kernel
  cases read : parseProgram text with
  | error fault =>
    rw [read] at listed
    cases listed
  | ok program =>
    rw [read] at listed
    exact ⟨program, rfl, Option.some.inj listed, listing_lists read⟩

end MiniLua

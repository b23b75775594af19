import Mathlib.Data.List.Basic
import MiniLua.Ast.Outline

/-!
# The visits of a listing

The listing visits the nodes of an outline in order. A place tells which child is taken at each step
from the root, and the places of the visits are all the places there are, in the order of a dictionary:
a node comes before what is in it, and what is in one child before what is in the next.
-/

namespace MiniLua.Outline

def children : Outline → List Outline
  | node _ _ _ children => children

/-- What the line of a node shows of the node itself. -/
def own : Outline → String
  | node kind details line _ => heading kind details line

/-- The node at a place. -/
def at? (o : Outline) : List Nat → Option Outline
  | [] => some o
  | i :: place => o.children[i]?.bind (at? · place)

mutual

/-- The nodes in the order of the listing, each with its place. -/
def visits : Outline → List (List Nat × Outline)
  | o@(node _ _ _ children) => ([], o) :: visitsOfAll 0 children

/-- The children are numbered from `first` on. -/
def visitsOfAll (first : Nat) : List Outline → List (List Nat × Outline)
  | [] => []
  | o :: os => (visits o).map (fun v => (first :: v.1, v.2)) ++ visitsOfAll (first + 1) os

end

/-- A tree is dealt with node by node, the children of a node first. -/
theorem induction {motive : Outline → Prop}
    (node : ∀ kind details line children, (∀ c ∈ children, motive c) →
      motive (.node kind details line children)) : ∀ o, motive o
  | .node kind details line children => node kind details line children fun c _ => induction node c
termination_by o => sizeOf o
decreasing_by
  have smaller := List.sizeOf_lt_of_mem ‹c ∈ children›
  simp only [Outline.node.sizeOf_spec]
  omega

/-! ## Siblings -/

theorem visitsOfAll_eq (os : List Outline) (first : Nat) :
    visitsOfAll first os =
      (os.zipIdx first).flatMap fun x => x.1.visits.map fun v => (x.2 :: v.1, v.2) := by
  induction os generalizing first with
  | nil => rfl
  | cons o os ih => rw [visitsOfAll, List.zipIdx_cons, List.flatMap_cons, ih]

theorem entriesOfAll_eq (os : List Outline) (depth : Nat) :
    entriesOfAll depth os = os.flatMap (entries depth) := by
  induction os with
  | nil => rfl
  | cons o os ih => rw [entriesOfAll, List.flatMap_cons, ih]

/-! ## The visits -/

/-- The listing has a line for each visit, as deep as its place is long. -/
theorem entries_eq_visits (o : Outline) (depth : Nat) :
    entries depth o = o.visits.map fun v => (depth + v.1.length, v.2.own) := by
  induction o using induction generalizing depth with
  | node kind details line children ih =>
    have siblings (first : Nat) : children.flatMap (entries (depth + 1)) =
        (visitsOfAll first children).map fun v => (depth + v.1.length, v.2.own) := by
      induction children generalizing first with
      | nil => rfl
      | cons c cs others =>
        obtain ⟨here, rest⟩ := List.forall_mem_cons.mp ih
        rw [List.flatMap_cons, others rest (first + 1), here, visitsOfAll, List.map_append]
        simp [Function.comp_def, Nat.add_assoc, Nat.add_comm 1]
    rw [entries, entriesOfAll_eq, siblings 0, visits]
    rfl

/-- What is visited at a place is what stands there. -/
theorem mem_visits {o c : Outline} {place : List Nat} :
    (place, c) ∈ o.visits ↔ o.at? place = some c := by
  induction o using induction generalizing place with
  | node kind details line children ih =>
    rw [visits, visitsOfAll_eq]
    cases place with
    | nil => simp [at?, eq_comm]
    | cons i place =>
      rw [at?, Option.bind_eq_some_iff, Outline.children]
      constructor
      · intro member
        have below := (List.mem_cons.mp member).resolve_left (by simp)
        obtain ⟨⟨d, j⟩, numbered, inside⟩ := List.mem_flatMap.mp below
        obtain ⟨⟨rest, e⟩, visited, same⟩ := List.mem_map.mp inside
        cases same
        have child := List.mem_zipIdx_iff_getElem?.mp numbered
        exact ⟨d, child, (ih d (List.mem_of_getElem? child)).mp visited⟩
      · rintro ⟨d, child, there⟩
        refine List.mem_cons_of_mem _ (List.mem_flatMap.mpr ⟨(d, i), ?_, ?_⟩)
        · exact List.mem_zipIdx_iff_getElem?.mpr child
        · exact List.mem_map.mpr ⟨(place, c), (ih d (List.mem_of_getElem? child)).mpr there, rfl⟩

/-- No place is visited twice, and each after all that stand before it. -/
theorem pairwise_visits (o : Outline) : (o.visits.map Prod.fst).Pairwise (· < ·) := by
  induction o using induction with
  | node kind details line children ih =>
    have numbered : children.zipIdx.Pairwise (fun x y => x.2 < y.2) := by
      have numbers : (List.range' 0 children.length).Pairwise (· < ·) := List.pairwise_lt_range' ..
      rwa [← List.zipIdx_map_snd 0 children, List.pairwise_map] at numbers
    rw [visits, visitsOfAll_eq, List.map_cons, List.pairwise_cons, List.map_flatMap]
    simp only [List.map_map, Function.comp_def]
    constructor
    · intro place member
      obtain ⟨⟨c, i⟩, -, inside⟩ := List.mem_flatMap.mp member
      obtain ⟨v, -, rfl⟩ := List.mem_map.mp inside
      exact List.nil_lt_cons i v.1
    · refine List.pairwise_flatMap.mpr ⟨fun x member => ?_, numbered.imp fun {x y} before => ?_⟩
      · have inside := List.pairwise_map.mp (ih x.1 (List.fst_mem_of_mem_zipIdx member))
        exact List.pairwise_map.mpr (inside.imp fun before => List.cons_lt_cons_self.mpr before)
      · intro p first q second
        obtain ⟨v, -, rfl⟩ := List.mem_map.mp first
        obtain ⟨w, -, rfl⟩ := List.mem_map.mp second
        exact List.cons_lt_cons_iff.mpr (.inl before)

/-! ## The text -/

/-- The line of a visit. -/
def row (visit : List Nat × Outline) : List Char :=
  List.replicate (2 * visit.1.length) ' ' ++ visit.2.own.toList

theorem toList_text (o : Outline) :
    o.text.toList = (o.visits.map row).flatMap (· ++ ['\n']) := by
  rw [text, entries_eq_visits, String.toList_join, List.map_map, List.flatMap_map,
    List.flatMap_map]
  refine List.flatMap_congr fun v _ => ?_
  simp [row, indent]

end MiniLua.Outline

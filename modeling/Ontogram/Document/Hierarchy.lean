/-
Trees of diamonds.

A tree names a root and a list of edges. It is sound when its root and all its elements are diamonds, every
parent belongs to it, no element is its own parent, every element is reached from the root, and no path
leads in a circle. The last two are found by a walk down from the root, depth first:

* `Search` — the path that is being walked, and what has been visited so far;
* `Search.step` — the next child is visited, passed over or found to close a circle;
* `Search.run` — all that the walk visits, if it closes no circle;
* `Hierarchy.isSound` — the check.
-/
import Ontogram.Document.Element
namespace Ontogram.Hierarchy

/-- The elements below a parent, in the order of the edges. -/
def children (items : List TreeItem) (parent : Text) : List Text :=
  (items.filter fun i => i.parent == parent).map (·.element)

/-- The root and the elements of all edges. -/
def members (root : Text) (items : List TreeItem) : List Text := root :: items.map (·.element)

/-- A node of the path, with those of its children that are still to be looked at. -/
structure Frame where
  node : Text
  pending : List Text

/-- A walk down the edges. Only elements of edges are looked at, so it comes to an end. -/
structure Search (items : List TreeItem) where
  /-- The path from the present node up to the root. -/
  stack : List Frame
  visited : List Text
  /-- The nodes of the path. -/
  onPath : List Text
  pending_subset : ∀ f ∈ stack, f.pending ⊆ items.map (·.element)

/-- What comes of one step. -/
inductive Outcome (items : List TreeItem) where
  /-- There is nothing left to look at. -/
  | finished
  /-- A child is on the path that leads to it. -/
  | circle
  | onward (next : Search items)

namespace Search

variable {items : List TreeItem}

theorem children_subset (parent : Text) : children items parent ⊆ items.map (·.element) := by
  intro c hc
  obtain ⟨i, hi, rfl⟩ := List.mem_map.mp hc
  exact List.mem_map.mpr ⟨i, (List.mem_filter.mp hi).1, rfl⟩

/-- The walk before its first step. -/
def start (items : List TreeItem) (root : Text) : Search items where
  stack := [⟨root, children items root⟩]
  visited := [root]
  onPath := [root]
  pending_subset := by
    intro f hf
    rw [List.mem_singleton.mp hf]
    exact children_subset root

/-- Look at the next child of the present node; a node without one is left. -/
def step (s : Search items) : Outcome items :=
  match h : s.stack with
  | [] => .finished
  | ⟨node, []⟩ :: below =>
    .onward
      { s with
        stack := below
        onPath := s.onPath.erase node
        pending_subset := fun f hf => s.pending_subset f (h ▸ List.mem_cons_of_mem _ hf) }
  | ⟨node, child :: pending⟩ :: below =>
    have hrest : ∀ f ∈ ⟨node, pending⟩ :: below, f.pending ⊆ items.map (·.element) := by
      intro f hf
      rcases List.mem_cons.mp hf with rfl | hf
      · exact fun c hc => s.pending_subset _ (h ▸ List.mem_cons_self) (List.mem_cons_of_mem _ hc)
      · exact s.pending_subset f (h ▸ List.mem_cons_of_mem _ hf)
    if child ∈ s.onPath then .circle
    else if child ∈ s.visited then
      .onward { s with stack := ⟨node, pending⟩ :: below, pending_subset := hrest }
    else
      .onward
        { stack := ⟨child, children items child⟩ :: ⟨node, pending⟩ :: below
          visited := child :: s.visited
          onPath := child :: s.onPath
          pending_subset := by
            intro f hf
            rcases List.mem_cons.mp hf with rfl | hf
            · exact children_subset child
            · exact hrest f hf }

/-- The elements that were not visited yet. -/
def unvisited (s : Search items) : List Text := (items.map (·.element)).filter (· ∉ s.visited)

/-- The children that are still to be looked at, and the nodes that are still to be left. -/
def work (s : Search items) : Nat := s.stack.foldr (fun f n => f.pending.length + 1 + n) 0

/-- A step visits a new element, or there is less work left. -/
theorem step_decreases {s t : Search items} (h : s.step = .onward t) :
    t.unvisited.length < s.unvisited.length ∨ t.unvisited = s.unvisited ∧ t.work < s.work := by
  unfold step at h
  split at h
  · cases h
  · rename_i node below heq
    cases h
    right
    simp [unvisited, work, heq]
  · rename_i node child pending below heq
    split at h
    · cases h
    · split at h
      · cases h
        right
        simp [unvisited, work, heq]
      · rename_i hnew
        cases h
        left
        have hchild : child ∈ items.map (·.element) :=
          s.pending_subset ⟨node, child :: pending⟩ (heq ▸ List.mem_cons_self) List.mem_cons_self
        have hfilter : (items.map (·.element)).filter (· ∉ child :: s.visited) =
            s.unvisited.filter (· ≠ child) := by
          simp [unvisited, List.filter_filter]
        show ((items.map (·.element)).filter (· ∉ child :: s.visited)).length < _
        rw [hfilter]
        exact List.length_filter_lt_length_iff_exists.mpr
          ⟨child, List.mem_filter.mpr ⟨hchild, decide_eq_true hnew⟩, by simp⟩

/-- Everything that the walk visits from here on, together with what it has visited; nothing, if it closes
a circle. -/
def run (s : Search items) : Option (List Text) :=
  match _h : s.step with
  | .finished => some s.visited
  | .circle => none
  | .onward t => run t
termination_by (s.unvisited.length, s.work)
decreasing_by
  rcases step_decreases _h with hlt | ⟨heq, hlt⟩
  · exact Prod.Lex.left _ _ hlt
  · rw [heq]
    exact Prod.Lex.right _ hlt

end Search

/-- Do the edges form a hierarchy of diamonds below the root? -/
def isSound (isDiamond : Text → Bool) (root : Text) (items : List TreeItem) : Bool :=
  let members := members root items
  isDiamond root &&
    (items.all fun i => isDiamond i.element && i.parent ∈ members && i.parent != i.element) &&
    match (Search.start items root).run with
    | some visited => visited.all (· ∈ members) && members.all (· ∈ visited)
    | none => false

end Ontogram.Hierarchy

namespace Ontogram

/-- Is the tree a hierarchy of the diamonds of an element map? -/
def Tree.isSound (elements : Elements) (t : Tree) : Bool :=
  Hierarchy.isSound (fun id => (elements.lookup id).any Element.isDiamond) t.root t.items

end Ontogram

/-
Trees that are hierarchies.

A tree is checked by a walk down its edges, depth first. What the walk has to find out is said of the edges
alone, without an order in which to look at them:

* `Hierarchy.IsHierarchy` — diamonds below a root, all of them reached and no path a circle;
* `Search.Step` — what one step of the walk does to the path and to the visited nodes;
* `Search.Invariant`, `Search.invariant_of_step` — what is true of the walk between two steps: nodes that were
  left again lead to such nodes only, and to no circle;
* `Search.exists_circle_of_run`, `Search.of_run` — what the end of a walk shows;
* `Tree.isSound_iff_isHierarchy` — the check finds exactly the hierarchies.
-/
import Mathlib.Logic.Relation
import Ontogram.Document.Hierarchy
namespace Ontogram

open Relation

namespace Hierarchy

variable {items : List TreeItem} {root : Text}

/-- An edge leads from a parent to an element. -/
def IsEdge (items : List TreeItem) (x y : Text) : Prop := ⟨x, y⟩ ∈ items

theorem mem_children_iff {x y : Text} : y ∈ children items x ↔ IsEdge items x y := by
  unfold children IsEdge
  simp only [List.mem_map, List.mem_filter, beq_iff_eq]
  constructor
  · rintro ⟨i, ⟨hi, rfl⟩, rfl⟩
    exact hi
  · intro h
    exact ⟨_, ⟨h, rfl⟩, rfl⟩

/-- The edges order diamonds below the root. -/
structure IsHierarchy (IsDiamond : Text → Prop) (root : Text) (items : List TreeItem) : Prop where
  root_isDiamond : IsDiamond root
  element_isDiamond : ∀ i ∈ items, IsDiamond i.element
  parent_belongs : ∀ i ∈ items, i.parent = root ∨ ∃ j ∈ items, i.parent = j.element
  parent_ne : ∀ i ∈ items, i.parent ≠ i.element
  reached : ∀ i ∈ items, ReflTransGen (IsEdge items) root i.element
  no_circle : ∀ x, ¬ TransGen (IsEdge items) x x

namespace Search

/-! ### One step -/

/-- What a step does: it leaves a node, passes over a child that was visited before, or visits one. -/
inductive Step (s t : Search items) : Prop
  | leave {node : Text} {below : List Frame} (hstack : s.stack = ⟨node, []⟩ :: below)
      (hstack' : t.stack = below) (hvisited : t.visited = s.visited)
      (honPath : t.onPath = s.onPath.erase node)
  | passOver {node child : Text} {pending : List Text} {below : List Frame}
      (hstack : s.stack = ⟨node, child :: pending⟩ :: below) (hold : child ∈ s.visited)
      (hoff : child ∉ s.onPath) (hstack' : t.stack = ⟨node, pending⟩ :: below)
      (hvisited : t.visited = s.visited) (honPath : t.onPath = s.onPath)
  | visit {node child : Text} {pending : List Text} {below : List Frame}
      (hstack : s.stack = ⟨node, child :: pending⟩ :: below) (hnew : child ∉ s.visited)
      (hstack' : t.stack = ⟨child, children items child⟩ :: ⟨node, pending⟩ :: below)
      (hvisited : t.visited = child :: s.visited) (honPath : t.onPath = child :: s.onPath)

variable {s t : Search items}

theorem step_eq_onward (h : s.step = .onward t) : Step s t := by
  unfold step at h
  split at h
  · cases h
  · rename_i hstack
    cases h
    exact .leave hstack rfl rfl rfl
  · rename_i hstack
    split at h
    · cases h
    · rename_i hoff
      split at h
      · rename_i hold
        cases h
        exact .passOver hstack hold hoff rfl rfl rfl
      · rename_i hnew
        cases h
        exact .visit hstack hnew rfl rfl rfl

theorem step_eq_circle (h : s.step = .circle) :
    ∃ node child pending below, s.stack = ⟨node, child :: pending⟩ :: below ∧ child ∈ s.onPath := by
  unfold step at h
  split at h
  · cases h
  · cases h
  · rename_i hstack
    split at h
    · rename_i hon
      exact ⟨_, _, _, _, hstack, hon⟩
    · split at h
      · cases h
      · cases h

theorem step_eq_finished (h : s.step = .finished) : s.stack = [] := by
  unfold step at h
  split at h
  · assumption
  · cases h
  · split at h
    · cases h
    · split at h
      · cases h
      · cases h

/-! ### What is true between two steps -/

/-- The node was visited and left again. -/
def IsLeft (s : Search items) (x : Text) : Prop := x ∈ s.visited ∧ x ∉ s.onPath

/-- Every child of a node on the path is still to be looked at or done with. For the nodes further up, those
that stand before them on the path count as done with. -/
def Accounted (items : List TreeItem) (IsDone : Text → Prop) : List Frame → Prop
  | [] => True
  | f :: below =>
    (∀ c, IsEdge items f.node c → c ∈ f.pending ∨ IsDone c) ∧
      Accounted items (fun x => IsDone x ∨ x = f.node) below

theorem Accounted.mono {P Q : Text → Prop} (hPQ : ∀ x, P x → Q x) {stack : List Frame}
    (h : Accounted items P stack) : Accounted items Q stack := by
  induction stack generalizing P Q with
  | nil => trivial
  | cons f below ih =>
    obtain ⟨hchildren, hbelow⟩ := h
    exact ⟨fun c hc => (hchildren c hc).imp_right (hPQ c), ih (fun x => Or.imp_left (hPQ x)) hbelow⟩

structure Invariant (root : Text) (s : Search items) : Prop where
  onPath_eq : s.onPath = s.stack.map (·.node)
  onPath_nodup : s.onPath.Nodup
  onPath_visited : s.onPath ⊆ s.visited
  root_visited : root ∈ s.visited
  visited_reached : ∀ x ∈ s.visited, ReflTransGen (IsEdge items) root x
  pending_isEdge : ∀ f ∈ s.stack, ∀ c ∈ f.pending, IsEdge items f.node c
  path : s.stack.Pairwise fun f g => TransGen (IsEdge items) g.node f.node
  accounted : Accounted items s.IsLeft s.stack
  left_closed : ∀ x, s.IsLeft x → ∀ c, IsEdge items x c → s.IsLeft c
  left_no_circle : ∀ x, s.IsLeft x → ¬ TransGen (IsEdge items) x x

theorem not_isLeft_start (x : Text) : ¬ (start items root).IsLeft x := fun h => h.2 h.1

theorem invariant_start : (start items root).Invariant root where
  onPath_eq := rfl
  onPath_nodup := List.pairwise_singleton _ root
  onPath_visited := List.Subset.refl _
  root_visited := List.mem_singleton_self root
  visited_reached := by
    intro x hx
    rw [List.mem_singleton.mp hx]
  pending_isEdge := by
    intro f hf c hc
    rw [List.mem_singleton.mp hf] at hc ⊢
    exact mem_children_iff.mp hc
  path := List.pairwise_singleton _ _
  accounted := ⟨fun c hc => .inl (mem_children_iff.mpr hc), trivial⟩
  left_closed := fun x hx => absurd hx (not_isLeft_start x)
  left_no_circle := fun x hx => absurd hx (not_isLeft_start x)

namespace Invariant

variable {node child : Text} {pending : List Text} {below : List Frame}

/-- Nodes that were left lead to such nodes only. -/
theorem isLeft_of_reached (h : s.Invariant root) {x y : Text} (hx : s.IsLeft x)
    (hxy : ReflTransGen (IsEdge items) x y) : s.IsLeft y := by
  induction hxy with
  | refl => exact hx
  | tail _ hedge ih => exact h.left_closed _ ih _ hedge

/-- A node can be left when all its children have been left: a circle through it would come back to it from
one of them. -/
theorem leave (h : s.Invariant root) (hstack : s.stack = ⟨node, []⟩ :: below)
    (hstack' : t.stack = below) (hvisited : t.visited = s.visited)
    (honPath : t.onPath = s.onPath.erase node) : t.Invariant root := by
  have hon : s.onPath = node :: below.map (·.node) := by rw [h.onPath_eq, hstack, List.map_cons]
  have hnodup := h.onPath_nodup
  rw [hon, List.nodup_cons] at hnodup
  obtain ⟨hnode, hbelow⟩ := hnodup
  have hon' : t.onPath = below.map (·.node) := by rw [honPath, hon, List.erase_cons_head]
  have hnode_visited : node ∈ s.visited := h.onPath_visited (hon ▸ List.mem_cons_self)
  -- What has been left now is what had been left, and the node.
  have hleft : ∀ x, t.IsLeft x ↔ s.IsLeft x ∨ x = node := by
    intro x
    unfold IsLeft
    rw [hvisited, hon', hon, List.mem_cons]
    constructor
    · rintro ⟨hx, hoff⟩
      by_cases hxn : x = node
      · exact .inr hxn
      · exact .inl ⟨hx, not_or.mpr ⟨hxn, hoff⟩⟩
    · rintro (⟨hx, hoff⟩ | rfl)
      · exact ⟨hx, (not_or.mp hoff).2⟩
      · exact ⟨hnode_visited, hnode⟩
  have haccounted := h.accounted
  rw [hstack] at haccounted
  obtain ⟨hchildren, hrest⟩ := haccounted
  have hchildren_left : ∀ c, IsEdge items node c → s.IsLeft c := fun c hc =>
    (hchildren c hc).resolve_left List.not_mem_nil
  refine ⟨hon'.trans (hstack' ▸ rfl), hon' ▸ hbelow, ?_, hvisited ▸ h.root_visited,
    hvisited ▸ h.visited_reached, ?_, ?_, ?_, ?_, ?_⟩
  · intro x hx
    rw [hvisited]
    exact h.onPath_visited (hon ▸ List.mem_cons_of_mem _ (hon' ▸ hx))
  · intro f hf
    exact h.pending_isEdge f (hstack ▸ List.mem_cons_of_mem _ (hstack' ▸ hf))
  · have hpath := h.path
    rw [hstack] at hpath
    rw [hstack']
    exact (List.pairwise_cons.mp hpath).2
  · rw [hstack']
    exact hrest.mono fun x => (hleft x).mpr
  · intro x hx c hc
    rcases (hleft x).mp hx with hx | rfl
    · exact (hleft c).mpr (.inl (h.left_closed x hx c hc))
    · exact (hleft c).mpr (.inl (hchildren_left c hc))
  · intro x hx hcircle
    rcases (hleft x).mp hx with hx | rfl
    · exact h.left_no_circle x hx hcircle
    · obtain ⟨c, hc, hback⟩ := TransGen.head'_iff.mp hcircle
      exact (h.isLeft_of_reached (hchildren_left c hc) hback).2 (hon ▸ List.mem_cons_self)

/-! The first child that is still to be looked at is taken off the frame on top, whether it is passed over or
visited. -/

section TakeChild

variable (h : s.Invariant root) (hstack : s.stack = ⟨node, child :: pending⟩ :: below)

include h hstack

theorem isEdge_child : IsEdge items node child :=
  h.pending_isEdge _ (hstack ▸ List.mem_cons_self) child List.mem_cons_self

theorem pending_isEdge_tail :
    ∀ f ∈ (⟨node, pending⟩ :: below : List Frame), ∀ c ∈ f.pending, IsEdge items f.node c := by
  have hedges := h.pending_isEdge
  rw [hstack, List.forall_mem_cons] at hedges
  exact List.forall_mem_cons.mpr ⟨fun c hc => hedges.1 c (List.mem_cons_of_mem _ hc), hedges.2⟩

theorem path_tail :
    (⟨node, pending⟩ :: below : List Frame).Pairwise fun f g => TransGen (IsEdge items) g.node f.node := by
  have hpath := h.path
  rw [hstack] at hpath
  obtain ⟨hnode, hbelow⟩ := List.pairwise_cons.mp hpath
  exact List.pairwise_cons.mpr ⟨hnode, hbelow⟩

theorem accounted_tail {IsDone : Text → Prop} (hleft : ∀ x, s.IsLeft x → IsDone x) (hchild : IsDone child) :
    Accounted items IsDone (⟨node, pending⟩ :: below) := by
  have haccounted := h.accounted
  rw [hstack] at haccounted
  obtain ⟨hchildren, hrest⟩ := haccounted
  refine ⟨fun c hc => ?_, hrest.mono fun x => Or.imp_left (hleft x)⟩
  rcases hchildren c hc with hpending | hdone
  · rcases List.mem_cons.mp hpending with rfl | hpending
    · exact .inr hchild
    · exact .inl hpending
  · exact .inr (hleft c hdone)

end TakeChild

/-- A child that was visited before and is off the path has been left. -/
theorem passOver (h : s.Invariant root) (hstack : s.stack = ⟨node, child :: pending⟩ :: below)
    (hold : child ∈ s.visited) (hoff : child ∉ s.onPath)
    (hstack' : t.stack = ⟨node, pending⟩ :: below) (hvisited : t.visited = s.visited)
    (honPath : t.onPath = s.onPath) : t.Invariant root := by
  have hleft : t.IsLeft = s.IsLeft := by
    funext x
    unfold IsLeft
    rw [hvisited, honPath]
  refine ⟨?_, honPath ▸ h.onPath_nodup, by rw [honPath, hvisited]; exact h.onPath_visited,
    hvisited ▸ h.root_visited, hvisited ▸ h.visited_reached, hstack' ▸ h.pending_isEdge_tail hstack,
    hstack' ▸ h.path_tail hstack, ?_, hleft ▸ h.left_closed, hleft ▸ h.left_no_circle⟩
  · rw [honPath, h.onPath_eq, hstack, hstack', List.map_cons, List.map_cons]
  · rw [hstack', hleft]
    exact h.accounted_tail hstack (fun _ => id) ⟨hold, hoff⟩

/-- A child that is new is put on the path. -/
theorem visit (h : s.Invariant root) (hstack : s.stack = ⟨node, child :: pending⟩ :: below)
    (hnew : child ∉ s.visited)
    (hstack' : t.stack = ⟨child, children items child⟩ :: ⟨node, pending⟩ :: below)
    (hvisited : t.visited = child :: s.visited) (honPath : t.onPath = child :: s.onPath) :
    t.Invariant root := by
  have hoff : child ∉ s.onPath := fun hon => hnew (h.onPath_visited hon)
  have hleft : t.IsLeft = s.IsLeft := by
    funext x
    unfold IsLeft
    rw [hvisited, honPath]
    by_cases hx : x = child
    · subst hx
      simp [hnew]
    · simp [hx]
  have hedge := h.isEdge_child hstack
  have hpath := h.path_tail hstack
  have hnode_visited : node ∈ s.visited := by
    refine h.onPath_visited ?_
    rw [h.onPath_eq, hstack]
    exact List.mem_cons_self
  refine ⟨?_, ?_, ?_, ?_, ?_, ?_, ?_, ?_, hleft ▸ h.left_closed, hleft ▸ h.left_no_circle⟩
  · rw [honPath, h.onPath_eq, hstack, hstack', List.map_cons, List.map_cons, List.map_cons]
  · rw [honPath]
    exact List.nodup_cons.mpr ⟨hoff, h.onPath_nodup⟩
  · rw [honPath, hvisited]
    exact List.cons_subset_cons child h.onPath_visited
  · rw [hvisited]
    exact List.mem_cons_of_mem _ h.root_visited
  · intro x hx
    rw [hvisited] at hx
    rcases List.mem_cons.mp hx with rfl | hx
    · exact (h.visited_reached node hnode_visited).tail hedge
    · exact h.visited_reached x hx
  · rw [hstack']
    exact List.forall_mem_cons.mpr ⟨fun c hc => mem_children_iff.mp hc, h.pending_isEdge_tail hstack⟩
  · rw [hstack']
    refine List.pairwise_cons.mpr ⟨fun g hg => ?_, hpath⟩
    rcases List.mem_cons.mp hg with rfl | hg
    · exact .single hedge
    · exact ((List.pairwise_cons.mp hpath).1 g hg).tail hedge
  · rw [hstack', hleft]
    exact ⟨fun c hc => .inl (mem_children_iff.mpr hc), h.accounted_tail hstack (fun _ => .inl) (.inr rfl)⟩

end Invariant

theorem invariant_of_step (h : s.Invariant root) (hstep : Step s t) : t.Invariant root := by
  cases hstep with
  | leave hstack hstack' hvisited honPath => exact h.leave hstack hstack' hvisited honPath
  | passOver hstack hold hoff hstack' hvisited honPath =>
    exact h.passOver hstack hold hoff hstack' hvisited honPath
  | visit hstack hnew hstack' hvisited honPath => exact h.visit hstack hnew hstack' hvisited honPath

/-! ### The whole walk -/

/-- A child on the path leads back to itself. -/
theorem exists_circle_of_step (h : s.Invariant root) (hstep : s.step = .circle) :
    ∃ x, TransGen (IsEdge items) x x := by
  obtain ⟨node, child, pending, below, hstack, hon⟩ := step_eq_circle hstep
  have hedge := h.isEdge_child hstack
  rw [h.onPath_eq, hstack] at hon
  obtain ⟨f, hf, hchild⟩ := List.mem_map.mp hon
  rcases List.mem_cons.mp hf with heq | hf
  · rw [heq] at hchild
    exact ⟨child, .single (hchild ▸ hedge)⟩
  · have hback := (List.pairwise_cons.mp (h.path_tail hstack)).1 f hf
    exact ⟨child, (hchild ▸ hback).tail hedge⟩

/-- A walk that stops without an answer has found a circle. -/
theorem exists_circle_of_run (h : s.Invariant root) (hrun : s.run = none) :
    ∃ x, TransGen (IsEdge items) x x := by
  induction s using run.induct with
  | case1 s hstep =>
    rw [run, hstep] at hrun
    cases hrun
  | case2 s hstep => exact exists_circle_of_step h hstep
  | case3 s t hstep ih =>
    rw [run, hstep] at hrun
    exact ih (invariant_of_step h (step_eq_onward hstep)) hrun

/-- A walk to the end visits the nodes that the root reaches, and none of them lies on a circle. -/
theorem of_run (h : s.Invariant root) {visited : List Text} (hrun : s.run = some visited) :
    (∀ x, x ∈ visited ↔ ReflTransGen (IsEdge items) root x) ∧
      ∀ x ∈ visited, ¬ TransGen (IsEdge items) x x := by
  induction s using run.induct with
  | case1 s hstep =>
    rw [run, hstep] at hrun
    cases hrun
    have hempty : s.onPath = [] := by rw [h.onPath_eq, step_eq_finished hstep, List.map_nil]
    have hleft : ∀ x ∈ s.visited, s.IsLeft x := fun x hx => ⟨hx, hempty ▸ List.not_mem_nil⟩
    refine ⟨fun x => ⟨h.visited_reached x, fun hx => ?_⟩, fun x hx => h.left_no_circle x (hleft x hx)⟩
    exact (h.isLeft_of_reached (hleft root h.root_visited) hx).1
  | case2 s hstep =>
    rw [run, hstep] at hrun
    cases hrun
  | case3 s t hstep ih =>
    rw [run, hstep] at hrun
    exact ih (invariant_of_step h (step_eq_onward hstep)) hrun

end Search

/-! ### The check -/

theorem mem_members_iff {x : Text} :
    x ∈ members root items ↔ x = root ∨ ∃ j ∈ items, x = j.element := by
  simp only [members, List.mem_cons, List.mem_map, eq_comm]

theorem mem_members_of_reached {x : Text} (h : ReflTransGen (IsEdge items) root x) :
    x ∈ members root items := by
  rcases ReflTransGen.cases_tail h with rfl | ⟨y, -, hedge⟩
  · exact mem_members_iff.mpr (.inl rfl)
  · exact mem_members_iff.mpr (.inr ⟨_, hedge, rfl⟩)

theorem isSound_iff {isDiamond : Text → Bool} :
    isSound isDiamond root items = true ↔
      IsHierarchy (fun id => isDiamond id = true) root items := by
  unfold isSound
  simp only [Bool.and_eq_true, List.all_eq_true, decide_eq_true_eq, bne_iff_ne, mem_members_iff]
  constructor
  · rintro ⟨⟨hroot, hitems⟩, hwalk⟩
    cases hrun : (Search.start items root).run with
    | none =>
      rw [hrun] at hwalk
      cases hwalk
    | some visited =>
      obtain ⟨hreached, hcircle⟩ := Search.of_run Search.invariant_start hrun
      simp only [hrun, Bool.and_eq_true, List.all_eq_true, decide_eq_true_eq] at hwalk
      refine ⟨hroot, fun i hi => (hitems i hi).1.1, fun i hi => (hitems i hi).1.2,
        fun i hi => (hitems i hi).2, fun i hi => ?_, fun x hx => ?_⟩
      · exact (hreached _).mp (hwalk.2 _ (mem_members_iff.mpr (.inr ⟨i, hi, rfl⟩)))
      · -- A circle leaves its node by an edge, so the node is the parent of something.
        obtain ⟨y, hedge, -⟩ := TransGen.head'_iff.mp hx
        have hmember : x ∈ members root items := mem_members_iff.mpr (hitems _ hedge).1.2
        exact hcircle x (hwalk.2 x hmember) hx
  · intro h
    refine ⟨⟨h.root_isDiamond, fun i hi =>
      ⟨⟨h.element_isDiamond i hi, h.parent_belongs i hi⟩, h.parent_ne i hi⟩⟩, ?_⟩
    cases hrun : (Search.start items root).run with
    | none =>
      obtain ⟨x, hx⟩ := Search.exists_circle_of_run Search.invariant_start hrun
      exact absurd hx (h.no_circle x)
    | some visited =>
      obtain ⟨hreached, -⟩ := Search.of_run Search.invariant_start hrun
      simp only [Bool.and_eq_true, List.all_eq_true, decide_eq_true_eq]
      refine ⟨fun x hx => mem_members_iff.mp (mem_members_of_reached ((hreached x).mp hx)),
        fun x hx => ?_⟩
      rcases mem_members_iff.mp hx with rfl | ⟨j, hj, rfl⟩
      · exact (hreached _).mpr .refl
      · exact (hreached _).mpr (h.reached j hj)

end Hierarchy

/-- Is there a diamond under the id? -/
def Elements.HasDiamond (elements : Elements) (id : Text) : Prop :=
  ∃ s, elements.lookup id = some (.diamond s)

theorem Elements.any_isDiamond_iff {elements : Elements} {id : Text} :
    (elements.lookup id).any Element.isDiamond = true ↔ elements.HasDiamond id := by
  unfold HasDiamond
  cases elements.lookup id with
  | none => simp
  | some e => cases e <;> simp [Element.isDiamond]

/-- **The check of trees.** It passes a tree iff the tree is a hierarchy of diamonds of the element map. -/
theorem Tree.isSound_iff_isHierarchy (elements : Elements) (t : Tree) :
    t.isSound elements = true ↔ Hierarchy.IsHierarchy elements.HasDiamond t.root t.items := by
  have hdiamond : (fun id => (elements.lookup id).any Element.isDiamond = true) = elements.HasDiamond := by
    funext id
    exact propext Elements.any_isDiamond_iff
  rw [Tree.isSound, Hierarchy.isSound_iff, hdiamond]

end Ontogram

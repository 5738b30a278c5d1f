/-
Which elements take part in the statements of a diagram.

An arrow that declares something makes use of itself and of its two ends; a diamond and a tree make use of
themselves alone. Against the lists that the passes keep:

* `Diagram.Links` — an arrow between two elements declares something;
* `Diagram.Uses` — an element takes part in a statement, one constructor for each way;
* `mem_usedIds_iff` — the ids that are kept as used are those of such elements;
* `serves_of_uses` — an element that takes part reads as its part asks;
* `mem_invalidIds_iff` — the ids that are kept as invalid, whatever the order of the elements.
-/
import Ontogram.Proofs.Derivation
namespace Ontogram

/-- Under one id stands one element. -/
theorem Elements.IsKeyed.unique {elements : Elements} (h : elements.IsKeyed) {id : Text}
    {e e' : Element} (he : (id, e) ∈ elements) (he' : (id, e') ∈ elements) : e = e' :=
  Option.some_inj.mp <|
    (Assoc.lookup_of_mem h.nodup he).symm.trans (Assoc.lookup_of_mem h.nodup he')

namespace Diagram

variable {d : Diagram}

/-! ### Taking part -/

/-- The arrow declares something about the elements under the two ids. -/
inductive Links (d : Diagram) (a : Arrow) (i j : Text) : Prop
  | attributeOf {subject name datatype : Text} {c : Cardinality}
      (h : d.IsAttribute a i j subject name datatype c)
  | relationshipOf {subject name object : Text} {c : Cardinality}
      (h : d.IsRelationship a i j subject name object c)
  | annotationOf {subject value : Text} {label : NoteLabel}
      (h : d.IsAnnotation a i j subject value label)
  | spelledOut {subject predicate : Text} {object : Term}
      (h : d.SpellsOut a i j subject predicate object)

/-- The element under the id takes part in a statement. -/
inductive Uses (d : Diagram) : Text → Prop
  | diamond {id : Text} {c : ClassName} (h : d.Resolves id c) : Uses d id
  | tree {t : Tree} {root : Text} {values : List Text} (h : d.Enumerates t root values) : Uses d t.id
  | arrow {a : Arrow} {i j id : Text} (h : d.Links a i j) (hid : id ∈ ends a i j) : Uses d id

theorem Links.connects {a : Arrow} {i j : Text} (h : d.Links a i j) : d.Connects a i j := by
  cases h with
  | attributeOf h => exact h.toConnects
  | relationshipOf h => exact h.toConnects
  | annotationOf h => exact h.toConnects
  | spelledOut h => exact h.toConnects

/-! ### What is kept as used -/

/-- What holds of all that an arrow can contribute holds of what it does. -/
theorem arrowPart_cases (hid : ∀ id e, (id, e) ∈ d.elements → e.id = id) {classes : Assoc ClassName}
    {a : Arrow} {P : Contribution → Prop} (nothing : P {})
    (spelled : ∀ s t : Note, (s.id, .note s) ∈ d.elements → (t.id, .note t) ∈ d.elements →
      P (d.spelledPart a s t))
    (attributes : ∀ i subject, ∀ t : Shape, (t.id, .rectangle t) ∈ d.elements →
      P (d.attributePart a i subject t))
    (relationships : ∀ i subject j object, P (d.relationshipPart a i subject j object))
    (annotations : ∀ i subject t, P (annotationPart a i subject t)) :
    P (d.arrowPart classes a) := by
  unfold arrowPart
  split
  · rename_i source target hsource htarget
    obtain ⟨i, -, hsource⟩ := Option.bind_eq_some_iff.mp hsource
    obtain ⟨j, -, htarget⟩ := Option.bind_eq_some_iff.mp htarget
    have hs := Assoc.mem_of_lookup hsource
    have ht := Assoc.mem_of_lookup htarget
    obtain rfl := hid _ _ hs
    obtain rfl := hid _ _ ht
    unfold betweenPart
    split
    · exact spelled _ _ hs ht
    · split
      · exact nothing
      · split
        · exact attributes _ _ _ ht
        · split
          · exact nothing
          · exact relationships _ _ _ _
        · exact annotations _ _ _
        · exact nothing
    · exact nothing
  · exact nothing

theorem mem_diamondPart_used_iff {sh : Shape} {id : Text} :
    id ∈ (d.diamondPart sh).used ↔ id = sh.id ∧ ∃ c, d.readDiamond sh.text = .declares c := by
  unfold diamondPart
  cases d.readDiamond sh.text <;> simp

theorem mem_treePart_used_iff {classes : Assoc ClassName} {t : Tree} {id : Text} :
    id ∈ (treePart classes t).used ↔ id = t.id ∧ ∃ s, s ∈ (treePart classes t).statements := by
  unfold treePart
  split
  · simp
  · split
    · simp
    · split <;> simp
    · simp

section Keyed

variable (hd : d.elements.IsKeyed)

include hd

theorem treePart_used_iff {t : Tree} (ht : (t.id, .tree t) ∈ d.elements) {id : Text} :
    id ∈ (treePart d.classNames t).used ↔ id = t.id ∧ ∃ root values, d.Enumerates t root values := by
  rw [mem_treePart_used_iff]
  refine and_congr_right fun _ => ?_
  constructor
  · rintro ⟨s, hs⟩
    obtain ⟨root, values, hroot, hvalues, hne, -⟩ := mem_treePart_iff.mp hs
    have hitems := (enumValues_eq_some_iff.mp hvalues).imp fun item value h =>
      And.intro h.1 (resolves_of_lookup hd.id_eq h.2)
    exact ⟨root, values, ht, resolves_of_lookup hd.id_eq hroot, hitems, hne⟩
  · rintro ⟨root, values, h⟩
    have hvalues := enumValues_eq_some_iff.mpr (h.items.imp fun item value hitem =>
      And.intro hitem.1 (lookup_of_resolves hd hitem.2))
    exact ⟨_, mem_treePart_iff.mpr
      ⟨root, values, lookup_of_resolves hd h.resolved, hvalues, h.nonempty, rfl⟩⟩

theorem arrowPart_used_of_links {a : Arrow} {i j : Text} (h : d.Links a i j) :
    (d.arrowPart d.classNames a).used = ends a i j := by
  cases h with
  | attributeOf h =>
    obtain ⟨kind, hres⟩ := h.resolved
    obtain ⟨t, ht, htype⟩ := h.typed
    obtain ⟨s, hs, hi, hlookup⟩ := diamond_of_resolves hd hres
    have hj : t.id = j := hd.id_eq _ _ ht
    have hname := property_eq_some_iff.mpr h.named
    have hdatatype := datatype_eq_some_iff.mpr htype
    rw [arrowPart_eq hd h.toConnects hs ht, betweenPart_rectangle hlookup]
    unfold attributePart
    simp only [hname, hdatatype, hi, hj]
  | @relationshipOf _ name _ c h =>
    obtain ⟨kind, hres⟩ := h.resolved
    obtain ⟨kind', hobject⟩ := h.targeted
    obtain ⟨s, hs, hi, hlookup⟩ := diamond_of_resolves hd hres
    obtain ⟨t, ht, hj, hlookup'⟩ := diamond_of_resolves hd hobject
    have hname : (d.property a.text).filter (fun p => p.2.key.isNone) = some (name, c) :=
      Option.filter_eq_some_iff.mpr ⟨property_eq_some_iff.mpr h.named, by simp [h.keyless]⟩
    rw [arrowPart_eq hd h.toConnects hs ht, betweenPart_diamond hlookup hlookup']
    unfold relationshipPart
    simp only [hname, hi, hj]
  | annotationOf h =>
    obtain ⟨kind, hres⟩ := h.resolved
    obtain ⟨t, ht, rfl⟩ := h.note
    obtain ⟨s, hs, hi, hlookup⟩ := diamond_of_resolves hd hres
    have hj : t.id = j := hd.id_eq _ _ ht
    rw [arrowPart_eq hd h.toConnects hs ht, betweenPart_note hlookup]
    unfold annotationPart
    simp [h.labelled, h.nonempty, hi, hj]
  | spelledOut h =>
    obtain ⟨s, hs, hsubject⟩ := h.subject
    obtain ⟨t, ht, hobject⟩ := h.object
    have hi : s.id = i := hd.id_eq _ _ hs
    have hj : t.id = j := hd.id_eq _ _ ht
    rw [arrowPart_eq hd h.toConnects hs ht, betweenPart_notes]
    unfold spelledPart
    simp only [hsubject, h.predicate, noteObject_eq_some_iff.mpr hobject, hi, hj]

/-- An arrow that declares nothing uses nothing. -/
theorem arrowPart_used_cases {a : Arrow} (ha : (a.id, .arrow a) ∈ d.elements) :
    (d.arrowPart d.classNames a).used = [] ∨ ∃ i j, d.Links a i j := by
  have hnothing : (d.arrowPart d.classNames a).statements = [] →
      (d.arrowPart d.classNames a).used = [] := by
    refine arrowPart_cases (P := fun C => C.statements = [] → C.used = []) hd.id_eq (fun _ => rfl) ?_ ?_ ?_ ?_
    · intro s t _ _
      unfold spelledPart
      split <;> simp
    · intro i subject t _
      unfold attributePart
      split <;> simp
    · intro i subject j object
      unfold relationshipPart
      split <;> simp
    · intro i subject t
      unfold annotationPart
      split
      · simp
      · split <;> simp
  rcases arrowPart_yields hd.id_eq ha with ⟨h, -, -⟩ | ⟨h, -, -⟩ | ⟨h, -, -⟩ | ⟨h, -, -⟩ | ⟨h, -⟩
  · exact .inr ⟨_, _, .attributeOf h⟩
  · exact .inr ⟨_, _, .relationshipOf h⟩
  · exact .inr ⟨_, _, .annotationOf h⟩
  · exact .inr ⟨_, _, .spelledOut h⟩
  · exact .inl (hnothing h)

/-- The ids that are kept as used are those of the elements that take part in a statement. -/
theorem mem_usedIds_iff {id : Text} : id ∈ d.usedIds ↔ d.Uses id := by
  rw [usedIds, List.mem_flatMap]
  constructor
  · rintro ⟨C, hC, hused⟩
    rcases mem_parts_iff.mp hC with ⟨key, s, he, rfl⟩ | ⟨key, t, he, rfl⟩ | ⟨key, a, he, rfl⟩
    · obtain rfl : s.id = key := hd.id_eq _ _ he
      obtain ⟨rfl, c, hread⟩ := mem_diamondPart_used_iff.mp hused
      obtain ⟨label, hlabel⟩ := readDiamond_eq_declares_iff.mp hread
      exact .diamond ⟨s, label, he, hlabel⟩
    · obtain rfl : t.id = key := hd.id_eq _ _ he
      obtain ⟨rfl, root, values, h⟩ := (treePart_used_iff hd he).mp hused
      exact .tree h
    · obtain rfl : a.id = key := hd.id_eq _ _ he
      rcases arrowPart_used_cases hd he with hnone | ⟨i, j, h⟩
      · rw [hnone] at hused
        cases hused
      · rw [arrowPart_used_of_links hd h] at hused
        exact .arrow h hused
  · intro h
    cases h with
    | diamond h =>
      obtain ⟨s, label, hs, hlabel⟩ := h
      have hread := readDiamond_eq_declares_iff.mpr ⟨label, hlabel⟩
      have hC := mem_parts_iff.mpr (.inl ⟨_, s, hs, rfl⟩)
      exact ⟨_, hC, mem_diamondPart_used_iff.mpr ⟨(hd.id_eq _ _ hs).symm, _, hread⟩⟩
    | tree h =>
      have hC := mem_parts_iff.mpr (.inr (.inl ⟨_, _, h.tree, rfl⟩))
      exact ⟨_, hC, (treePart_used_iff hd h.tree).mpr ⟨rfl, _, _, h⟩⟩
    | arrow h hid =>
      have hC := mem_parts_iff.mpr (.inr (.inr ⟨_, _, h.connects.arrow, rfl⟩))
      exact ⟨_, hC, (arrowPart_used_of_links hd h).symm ▸ hid⟩

end Keyed

/-- The element reads as what takes part in a statement has to. -/
def Serves (d : Diagram) : Element → Prop
  | .diamond s => ∃ c, d.readDiamond s.text = .declares c
  | .rectangle t => ∃ name, d.datatype t.text = some name
  | .arrow a => ∃ i j, d.Links a i j
  | .tree t => ∃ root values, d.Enumerates t root values
  | .note _ => True

section Keyed

variable (hd : d.elements.IsKeyed)

include hd

theorem serves_of_resolves {id : Text} {e : Element} (he : (id, e) ∈ d.elements) {c : ClassName}
    (h : d.Resolves id c) : d.Serves e := by
  obtain ⟨s, label, hs, hlabel⟩ := h
  obtain rfl := hd.unique he hs
  exact ⟨c, readDiamond_eq_declares_iff.mpr ⟨label, hlabel⟩⟩

/-- An element that takes part in a statement reads accordingly. -/
theorem serves_of_uses {id : Text} {e : Element} (he : (id, e) ∈ d.elements) (h : d.Uses id) :
    d.Serves e := by
  cases h with
  | diamond h => exact serves_of_resolves hd he h
  | tree h =>
    obtain rfl := hd.unique he h.tree
    exact ⟨_, _, h⟩
  | @arrow a i j _ h hid =>
    have hnote : ∀ {n : Note}, (id, .note n) ∈ d.elements → d.Serves e := by
      intro n hn
      obtain rfl := hd.unique he hn
      trivial
    simp only [ends, List.mem_cons, List.not_mem_nil, or_false] at hid
    rcases hid with rfl | hid
    · obtain rfl := hd.unique he h.connects.arrow
      exact ⟨i, j, h⟩
    · -- one of the two ends
      cases h with
      | attributeOf h =>
        obtain ⟨kind, hres⟩ := h.resolved
        obtain ⟨t, ht, htype⟩ := h.typed
        rcases hid with rfl | rfl
        · exact serves_of_resolves hd he hres
        · obtain rfl := hd.unique he ht
          exact ⟨_, datatype_eq_some_iff.mpr htype⟩
      | relationshipOf h =>
        obtain ⟨kind, hres⟩ := h.resolved
        obtain ⟨kind', hobject⟩ := h.targeted
        rcases hid with rfl | rfl
        · exact serves_of_resolves hd he hres
        · exact serves_of_resolves hd he hobject
      | annotationOf h =>
        obtain ⟨kind, hres⟩ := h.resolved
        obtain ⟨t, ht, -⟩ := h.note
        rcases hid with rfl | rfl
        · exact serves_of_resolves hd he hres
        · exact hnote ht
      | spelledOut h =>
        obtain ⟨s, hs, -⟩ := h.subject
        obtain ⟨t, ht, -⟩ := h.object
        rcases hid with rfl | rfl
        · exact hnote hs
        · exact hnote ht

end Keyed

/-! ### What is kept as invalid -/

theorem diamondPart_untyped (sh : Shape) : (d.diamondPart sh).untyped = none := by
  unfold diamondPart
  cases d.readDiamond sh.text <;> rfl

theorem treePart_untyped (classes : Assoc ClassName) (t : Tree) : (treePart classes t).untyped = none := by
  unfold treePart
  split
  · rfl
  · split
    · rfl
    · split <;> rfl
    · rfl

theorem attributePart_untyped {a : Arrow} {i subject id : Text} {t : Shape}
    (h : (d.attributePart a i subject t).untyped = some id) : id = t.id ∧ d.datatype t.text = none := by
  revert h
  unfold attributePart
  cases d.property a.text <;> cases d.datatype t.text <;> simp [eq_comm]

/-- What is read as a datatype and names none is a rectangle that never names one. -/
theorem untyped_of_mem_parts (hid : ∀ id e, (id, e) ∈ d.elements → e.id = id) {C : Contribution}
    (hC : C ∈ d.parts) {id : Text} (h : C.untyped = some id) :
    ∃ t, (id, .rectangle t) ∈ d.elements ∧ d.datatype t.text = none := by
  rcases mem_parts_iff.mp hC with ⟨_, s, -, rfl⟩ | ⟨_, t, -, rfl⟩ | ⟨_, a, -, rfl⟩
  · cases (diamondPart_untyped s).symm.trans h
  · cases (treePart_untyped _ t).symm.trans h
  · revert h
    refine arrowPart_cases (P := fun C => C.untyped = some id →
      ∃ t, (id, .rectangle t) ∈ d.elements ∧ d.datatype t.text = none) hid ?_ ?_ ?_ ?_ ?_
    · intro h
      cases h
    · intro s t _ _
      unfold spelledPart
      split <;> simp
    · intro i subject t ht h
      obtain ⟨rfl, hnone⟩ := attributePart_untyped h
      exact ⟨t, ht, hnone⟩
    · intro i subject j object
      unfold relationshipPart
      split <;> simp
    · intro i subject t
      unfold annotationPart
      split
      · simp
      · split <;> simp

/-- Which rectangles are kept as untyped may depend on what was used before, but does not if none of
them is ever used. -/
theorem mem_untypedIds_iff {parts : List Contribution} {used : List Text} {id : Text}
    (h : ∀ C ∈ parts, ∀ i, C.untyped = some i → i ∉ used ∧ ∀ B ∈ parts, i ∉ B.used) :
    id ∈ untypedIds used parts ↔ ∃ C ∈ parts, C.untyped = some id := by
  induction parts generalizing used with
  | nil => simp [untypedIds]
  | cons C rest ih =>
    have hrest : ∀ D ∈ rest, ∀ i, D.untyped = some i → i ∉ C.used ++ used ∧ ∀ B ∈ rest, i ∉ B.used := by
      intro D hD i hi
      obtain ⟨hused, hparts⟩ := h D (List.mem_cons_of_mem _ hD) i hi
      exact ⟨List.not_mem_append (hparts C List.mem_cons_self) hused,
        fun B hB => hparts B (List.mem_cons_of_mem _ hB)⟩
    have hhere := h C List.mem_cons_self
    rw [untypedIds, List.mem_append, ih hrest, List.exists_mem_cons_iff]
    refine or_congr_left ?_
    cases hC : C.untyped with
    | none => simp
    | some i => simp [(hhere i hC).1, eq_comm]

theorem mem_invalid_diamondPart {sh : Shape} {id : Text} (h : id ∈ (d.diamondPart sh).invalid) :
    id = sh.id ∧ (d.diamondPart sh).used = [] := by
  revert h
  unfold diamondPart
  cases d.readDiamond sh.text <;> simp

theorem mem_invalid_treePart {classes : Assoc ClassName} {t : Tree} {id : Text}
    (h : id ∈ (treePart classes t).invalid) : id = t.id ∧ (treePart classes t).used = [] := by
  revert h
  unfold treePart
  split
  · simp
  · split
    · simp
    · split <;> simp
    · simp

theorem mem_invalid_arrowPart (hid : ∀ id e, (id, e) ∈ d.elements → e.id = id)
    {classes : Assoc ClassName} {a : Arrow} {id : Text} (h : id ∈ (d.arrowPart classes a).invalid) :
    (∃ n, (id, .note n) ∈ d.elements) ∨ id = a.id ∧ (d.arrowPart classes a).used = [] := by
  revert h
  refine arrowPart_cases (P := fun C => id ∈ C.invalid →
    (∃ n, (id, .note n) ∈ d.elements) ∨ id = a.id ∧ C.used = []) hid ?_ ?_ ?_ ?_ ?_
  · intro h
    cases h
  · -- either note and the arrow between them may be at fault
    intro s t hs ht h
    unfold spelledPart at h ⊢
    split at h
    · cases h
    · simp only [List.mem_append] at h
      rcases h with (h | h) | h
      · split at h
        · exact .inl ⟨s, (List.mem_singleton.mp h) ▸ hs⟩
        · cases h
      · split at h
        · exact .inr ⟨List.mem_singleton.mp h, rfl⟩
        · cases h
      · split at h
        · exact .inl ⟨t, (List.mem_singleton.mp h) ▸ ht⟩
        · cases h
  · intro i subject t _
    unfold attributePart
    cases d.property a.text <;> cases d.datatype t.text <;> simp <;> exact .inr
  · intro i subject j object
    unfold relationshipPart
    split
    · simp
    · simpa using Or.inr
  · intro i subject t
    unfold annotationPart
    split
    · simpa using Or.inr
    · split <;> simp

section Keyed

variable (hd : d.elements.IsKeyed)

include hd

/-- What an element that takes part keeps as invalid are notes alone. -/
theorem note_of_mem_invalid {C : Contribution} (hC : C ∈ d.parts) {id : Text} (h : id ∈ C.invalid)
    (hu : d.Uses id) : ∃ n, (id, .note n) ∈ d.elements := by
  rcases mem_parts_iff.mp hC with ⟨key, s, he, rfl⟩ | ⟨key, t, he, rfl⟩ | ⟨key, a, he, rfl⟩
  · obtain ⟨rfl, hused⟩ := mem_invalid_diamondPart h
    obtain rfl : s.id = key := hd.id_eq _ _ he
    have hmem := mem_diamondPart_used_iff.mpr ⟨rfl, serves_of_uses hd he hu⟩
    exact absurd hused (List.ne_nil_of_mem hmem)
  · obtain ⟨rfl, hused⟩ := mem_invalid_treePart h
    obtain rfl : t.id = key := hd.id_eq _ _ he
    have hmem := (treePart_used_iff hd he).mpr ⟨rfl, serves_of_uses hd he hu⟩
    exact absurd hused (List.ne_nil_of_mem hmem)
  · rcases mem_invalid_arrowPart hd.id_eq h with hnote | ⟨rfl, hused⟩
    · exact hnote
    · obtain rfl : a.id = key := hd.id_eq _ _ he
      obtain ⟨i, j, hlinks⟩ := serves_of_uses hd he hu
      rw [arrowPart_used_of_links hd hlinks] at hused
      cases hused

/-- What names no datatype takes part in nothing, so the order of the elements does not decide about it. -/
theorem not_uses_of_untyped {C : Contribution} (hC : C ∈ d.parts) {id : Text}
    (h : C.untyped = some id) : ¬ d.Uses id := by
  intro hu
  obtain ⟨t, ht, hnone⟩ := untyped_of_mem_parts hd.id_eq hC h
  obtain ⟨name, hname⟩ := serves_of_uses hd ht hu
  cases hnone.symm.trans hname

/-- An id is kept as invalid if some element finds it so, if it is read as a datatype and names none, or
if it breaks the sequence of a key. -/
theorem mem_invalidIds_iff {id : Text} :
    id ∈ d.invalidIds ↔ (∃ C ∈ d.parts, id ∈ C.invalid) ∨ (∃ C ∈ d.parts, C.untyped = some id) ∨
      id ∈ misplacedKeys d.keyParts := by
  have hunused : ∀ C ∈ d.parts, ∀ i, C.untyped = some i → i ∉ [] ∧ ∀ B ∈ d.parts, i ∉ B.used := by
    intro C hC i hi
    refine ⟨List.not_mem_nil, fun B hB hused => not_uses_of_untyped hd hC hi ?_⟩
    exact (mem_usedIds_iff hd).mp (List.mem_flatMap.mpr ⟨B, hB, hused⟩)
  rw [invalidIds, List.mem_append, List.mem_append, List.mem_flatMap, mem_untypedIds_iff hunused, or_assoc]

end Keyed

end Diagram

end Ontogram

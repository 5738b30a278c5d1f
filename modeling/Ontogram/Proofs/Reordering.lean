/-
The order of a diagram's elements leaves no trace.

Each element contributes by itself, looking others up by their ids. What is gathered from all of them, the
keys and the untyped rectangles, is either sorted without ties or does not depend on what came before:

* `perm_parts` — the contributions of a diagram are the same in any order;
* `keyOf_of_perm` — so is the key of a class, whose parts share no place;
* `mem_invalidIds_withElements_iff` — and so are the elements that are kept as invalid;
* `generate_perm` — statements and classification are the same in any order.
-/
import Ontogram.Proofs.Deletion
namespace Ontogram

theorem Elements.IsKeyed.of_perm {elements es : Elements} (h : elements.IsKeyed)
    (hperm : es.Perm elements) : es.IsKeyed where
  nodup := (hperm.map _).nodup_iff.mpr h.nodup
  id_eq id e he := h.id_eq id e (hperm.mem_iff.mp he)

namespace Diagram

variable {d : Diagram} {es : Elements}

/-! ### Tables that answer alike -/

theorem enumValues_congr {classes classes' : Assoc ClassName}
    (h : ∀ id, classes'.lookup id = classes.lookup id) (t : Tree) :
    enumValues classes' t = enumValues classes t := by
  simp only [enumValues, h]

theorem treePart_congr {classes classes' : Assoc ClassName}
    (h : ∀ id, classes'.lookup id = classes.lookup id) (t : Tree) :
    treePart classes' t = treePart classes t := by
  simp only [treePart, h, enumValues_congr h]

theorem betweenPart_congr {classes classes' : Assoc ClassName}
    (h : ∀ id, classes'.lookup id = classes.lookup id) (a : Arrow) (source target : Element) :
    d.betweenPart classes' a source target = d.betweenPart classes a source target := by
  simp only [betweenPart, h]

theorem resolve_withElements : (d.withElements es).resolve = d.resolve := by
  funext written
  unfold resolve
  simp only [withElements]

theorem diamondPart_withElements : (d.withElements es).diamondPart = d.diamondPart := by
  funext s
  unfold diamondPart readDiamond
  simp only [resolve_withElements]

/-- What an arrow contributes between two elements hangs on nothing but their texts and classes. -/
theorem betweenPart_withElements : (d.withElements es).betweenPart = d.betweenPart := by
  have hattribute : (d.withElements es).attributePart = d.attributePart := by
    funext a i subject t
    unfold attributePart property datatype
    simp only [resolve_withElements]
  have hrelationship : (d.withElements es).relationshipPart = d.relationshipPart := by
    funext a i subject j object
    unfold relationshipPart property
    simp only [resolve_withElements]
  have hspelled : (d.withElements es).spelledPart = d.spelledPart := by
    funext a s t
    unfold spelledPart spelledName noteObject
    simp only [resolve_withElements]
  funext classes a source target
  unfold betweenPart
  simp only [hattribute, hrelationship, hspelled]

/-! ### Contributions -/

section Permuted

variable (hd : d.elements.IsKeyed) (h : es.Perm d.elements)

include hd h

theorem lookup_classNames_withElements (id : Text) :
    (d.withElements es).classNames.lookup id = d.classNames.lookup id := by
  have hes := hd.of_perm h
  -- either table holds the classes that the labels declare
  ext c
  constructor
  · intro hc
    obtain ⟨s, label, hs, hlabel⟩ := resolves_of_lookup (d := d.withElements es) hes.id_eq hc
    exact lookup_of_resolves hd ⟨s, label, h.mem_iff.mp hs, hlabel⟩
  · intro hc
    obtain ⟨s, label, hs, hlabel⟩ := resolves_of_lookup hd.id_eq hc
    exact lookup_of_resolves (d := d.withElements es) hes ⟨s, label, h.mem_iff.mpr hs, hlabel⟩

theorem arrowPart_withElements (a : Arrow) :
    (d.withElements es).arrowPart (d.withElements es).classNames a = d.arrowPart d.classNames a := by
  have hlookup : ∀ id, List.lookup id (d.withElements es).elements = List.lookup id d.elements :=
    Assoc.lookup_of_perm hd.nodup h
  have hbetween := betweenPart_congr (d := d) (lookup_classNames_withElements hd h) a
  unfold arrowPart
  simp only [hlookup, betweenPart_withElements, hbetween]

/-- The contributions of a diagram are the same in any order of its elements. -/
theorem perm_parts : (d.withElements es).parts.Perm d.parts := by
  have hdiamonds : (d.withElements es).diamondParts.Perm d.diamondParts := by
    unfold diamondParts
    simp only [diamondPart_withElements]
    exact h.filterMap _
  have htrees : ((d.withElements es).treeParts (d.withElements es).classNames).Perm
      (d.treeParts d.classNames) := by
    unfold treeParts
    simp only [treePart_congr (lookup_classNames_withElements hd h)]
    exact h.filterMap _
  have harrows : ((d.withElements es).arrowParts (d.withElements es).classNames).Perm
      (d.arrowParts d.classNames) := by
    unfold arrowParts
    simp only [arrowPart_withElements hd h]
    exact h.filterMap _
  exact (hdiamonds.append htrees).append harrows

end Permuted

/-! ### Keys -/

/-- The parts of one class's key have different ranks, so sorting them leaves nothing open. -/
theorem keyOf_of_perm {keys keys' : List KeyPart} (h : keys'.Perm keys) (subject : Text) :
    keyOf subject keys' = keyOf subject keys := by
  refine Traversal.mergeSort_eq_of_perm (fun a b => KeyPart.keyBefore_iff (a := a) (b := b)) ?_ (h.filter _)
  intro k hk l hl hrank
  have hk := beq_iff_eq.mp (List.mem_filter.mp hk).2
  have hl := beq_iff_eq.mp (List.mem_filter.mp hl).2
  obtain ⟨_, position, attributeName, arrow⟩ := k
  obtain ⟨_, position', attributeName', arrow'⟩ := l
  simp only [KeyPart.rank, EmbeddingLike.apply_eq_iff_eq, Prod.mk.injEq] at hrank
  obtain ⟨rfl, rfl, rfl⟩ := hrank
  exact congrArg (KeyPart.mk · _ _ _) (hk.trans hl.symm)

theorem mem_keyedSubjects_of_perm {keys keys' : List KeyPart} (h : keys'.Perm keys) {subject : Text} :
    subject ∈ keyedSubjects keys' ↔ subject ∈ keyedSubjects keys := by
  simp only [keyedSubjects, List.mem_eraseDups, (h.map _).mem_iff]

theorem mem_misplacedKeys_of_perm {keys keys' : List KeyPart} (h : keys'.Perm keys) {id : Text} :
    id ∈ misplacedKeys keys' ↔ id ∈ misplacedKeys keys := by
  simp only [misplacedKeys, List.mem_flatMap, keyOf_of_perm h, mem_keyedSubjects_of_perm h]

/-! ### Statements and classification -/

theorem nodup_statements (d : Diagram) : d.statements.Nodup := by
  unfold statements
  cases d.declared with
  | none => exact Traversal.nodup_eraseDups _
  | some declared => exact (Traversal.nodup_eraseDups _).filter _

theorem classify_congr {invalid invalid' raw raw' used used' keyed keyed' : List Text}
    {classes classes' : Assoc ClassName} {id : Text} (hinvalid : id ∈ invalid' ↔ id ∈ invalid)
    (hraw : id ∈ raw' ↔ id ∈ raw) (hused : id ∈ used' ↔ id ∈ used)
    (hkeyed : ∀ subject, subject ∈ keyed' ↔ subject ∈ keyed)
    (hclasses : classes'.lookup id = classes.lookup id) (e : Element) :
    classify invalid' raw' used' keyed' classes' id e = classify invalid raw used keyed classes id e := by
  simp only [classify, List.contains_iff_mem, hinvalid, hraw, hused, hkeyed, hclasses, Bool.and_eq_true]

section Permuted

variable (hd : d.elements.IsKeyed) (h : es.Perm d.elements)

include hd h

theorem mem_invalidIds_withElements_iff {id : Text} :
    id ∈ (d.withElements es).invalidIds ↔ id ∈ d.invalidIds := by
  have hparts := perm_parts hd h
  have hkeys : (d.withElements es).keyParts.Perm d.keyParts := hparts.flatMap_right _
  rw [mem_invalidIds_iff (d := d.withElements es) (hd.of_perm h), mem_invalidIds_iff hd]
  simp only [hparts.mem_iff, mem_misplacedKeys_of_perm hkeys]

/-- Each entry of the map is classified as before. -/
theorem perm_classification :
    (d.withElements es).classification.Perm d.classification := by
  have hparts := perm_parts hd h
  have hkeys : (d.withElements es).keyParts.Perm d.keyParts := hparts.flatMap_right _
  have hraw : (d.withElements es).rawIds.Perm d.rawIds := hparts.flatMap_right _
  have hused : (d.withElements es).usedIds.Perm d.usedIds := hparts.flatMap_right _
  have hclassify : ∀ id e, classify (d.withElements es).invalidIds (d.withElements es).rawIds
      (d.withElements es).usedIds (keyedSubjects (d.withElements es).keyParts)
      (d.withElements es).classNames id e =
      classify d.invalidIds d.rawIds d.usedIds (keyedSubjects d.keyParts) d.classNames id e := fun id e =>
    classify_congr (mem_invalidIds_withElements_iff hd h) hraw.mem_iff hused.mem_iff
      (fun _ => mem_keyedSubjects_of_perm hkeys) (lookup_classNames_withElements hd h id) e
  unfold classification
  simp only [hclassify]
  exact h.map _

/-- **The order of the elements leaves no trace.** If each element of a diagram stands under its own id, then
in whatever order they come, the diagram generates the same statements, each once, and every id is
classified the same. -/
theorem generate_perm :
    (generate (d.withElements es)).statements.Perm (generate d).statements ∧
      ∀ id, (generate (d.withElements es)).classification.lookup id =
        (generate d).classification.lookup id := by
  have hes := hd.of_perm h
  constructor
  · refine (List.perm_ext_iff_of_nodup (nodup_statements _) (nodup_statements d)).mpr fun s => ?_
    rw [mem_statements_iff, mem_statements_iff, mem_allStatements_iff hd,
      mem_allStatements_iff (d := d.withElements es) hes,
      declares_withElements_iff (fun _ _ he _ => h.mem_iff.mpr he) fun _ _ he _ => h.mem_iff.mp he]
    rfl
  · have hkeys : (Assoc.keys d.classification).Nodup := by
      have hids : Assoc.keys d.classification = Assoc.keys d.elements := by
        simp [Assoc.keys, classification]
      exact hids ▸ hd.nodup
    exact Assoc.lookup_of_perm hkeys (perm_classification hd h)

end Permuted

/-- With the arrow before its ends the key is declared and flagged as it was. -/
theorem generate_perm_gappedKey :
    gappedKey.elements.IsKeyed ∧ gappedKey.elements.reverse.Perm gappedKey.elements ∧
      (generate (gappedKey.withElements gappedKey.elements.reverse)).statements.Perm
        (generate gappedKey).statements ∧
      (generate (gappedKey.withElements gappedKey.elements.reverse)).classification.lookup ("a" : Text) =
        some .invalid := by
  have hperm : gappedKey.elements.reverse.Perm gappedKey.elements := List.reverse_perm _
  obtain ⟨hstatements, hclassification⟩ := generate_perm isKeyed_gappedKey hperm
  have ha : (generate gappedKey).classification.lookup ("a" : Text) = some .invalid := by decide +kernel
  exact ⟨isKeyed_gappedKey, hperm, hstatements, (hclassification "a").trans ha⟩

end Diagram

end Ontogram

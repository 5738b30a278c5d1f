/-
Ignored elements.

An element is ignored if it is neither in error nor used. Arrows may be attached to it and trees may name it,
and none of them declares anything, so it makes no difference whether it is there:

* `not_uses_of_ignored` — an ignored element takes part in no statement;
* `perm_statements_withElements` — of the elements of a diagram only those that take part are needed;
* `statements_without_ignored` — an ignored element can be deleted.
-/
import Ontogram.Proofs.Reordering
namespace Ontogram

theorem Elements.IsKeyed.sublist {elements es : Elements} (h : elements.IsKeyed) (hes : es.Sublist elements) :
    es.IsKeyed where
  nodup := h.nodup.sublist (hes.map _)
  id_eq id e he := h.id_eq id e (hes.mem he)

namespace Diagram

variable {d : Diagram}

theorem notMem_of_classify_ignored {invalid raw used keyed : List Text} {classes : Assoc ClassName}
    {id : Text} {e : Element} (h : classify invalid raw used keyed classes id e = .ignored) :
    id ∉ used := by
  intro hmem
  rw [classify, if_pos (List.contains_iff_mem.mpr hmem)] at h
  split at h
  · cases h
  · split at h
    · cases h
    · split at h <;> cases h

section Keyed

variable (hd : d.elements.IsKeyed)

include hd

theorem not_uses_of_ignored {id : Text}
    (h : (generate d).classification.lookup id = some .ignored) : ¬ d.Uses id := by
  obtain ⟨e, -, hclass⟩ := mem_of_lookup_classification h
  exact fun hused => notMem_of_classify_ignored hclass ((mem_usedIds_iff hd).mpr hused)

/-- Of the elements of a diagram only those that take part in statements are needed for these. -/
theorem perm_statements_withElements {es : Elements} (hes : es.Sublist d.elements)
    (kept : ∀ id e, (id, e) ∈ d.elements → d.Uses id → (id, e) ∈ es) :
    (generate (d.withElements es)).statements.Perm (generate d).statements := by
  refine (List.perm_ext_iff_of_nodup (nodup_statements _) (nodup_statements d)).mpr fun s => ?_
  rw [mem_statements_iff, mem_statements_iff, mem_allStatements_iff hd,
    mem_allStatements_iff (d := d.withElements es) (hd.sublist hes),
    declares_withElements_iff kept fun _ _ he _ => hes.mem he]
  rfl

/-- **Ignored elements can be deleted.** If each element of a diagram stands under its own id, and one of them
is ignored, then the diagram without it generates the same statements, whatever arrows and trees still name
its id. -/
theorem statements_without_ignored {id : Text}
    (hignored : (generate d).classification.lookup id = some .ignored) :
    (generate (d.without id)).statements.Perm (generate d).statements := by
  have hunused := not_uses_of_ignored hd hignored
  refine perm_statements_withElements hd List.filter_sublist fun key e he hused => ?_
  exact mem_without_elements_iff.mpr ⟨he, fun heq => hunused (heq ▸ hused)⟩

end Keyed

/-- A class with an attribute and, beside it, a diamond without a marker. An arrow leads from the class to that
diamond, another back, a tree has it for its root, and a tree below an enumeration has it for an item. -/
def bareDiamond : Diagram where
  elements :=
    [("b", .diamond ⟨"b", .int 90, .int 90, .int 30, .int 30, "Thing"⟩),
     ("c", .diamond ⟨"c", .int 0, .int 0, .int 30, .int 30, "Person (DC)"⟩),
     ("g", .diamond ⟨"g", .int 0, .int 90, .int 30, .int 30, "Genre (E)"⟩),
     ("r", .rectangle ⟨"r", .int 90, .int 0, .int 30, .int 30, "xsd:string"⟩),
     ("n", .arrow ⟨"n", .int 30, .int 0, .int 90, .int 0, "name (1..1)", some "c", some "r"⟩),
     ("k", .arrow ⟨"k", .int 30, .int 0, .int 90, .int 90, "knows (0..n)", some "c", some "b"⟩),
     ("m", .arrow ⟨"m", .int 90, .int 90, .int 30, .int 0, "made (0..n)", some "b", some "c"⟩),
     ("t", .tree ⟨"t", "b", [⟨"b", "g"⟩]⟩), ("u", .tree ⟨"u", "g", [⟨"g", "b"⟩]⟩)]
  domain := "p"
  declared := some [("p", "http://p/"), ("rdf", "http://rdf/"), ("xsd", "http://xsd/"), ("upper", "http://upper/")]

/-- The diamond can be deleted, and so can either arrow. -/
theorem statements_without_ignored_bareDiamond :
    bareDiamond.elements.IsKeyed ∧
      (generate bareDiamond).classification.lookup ("b" : Text) = some .ignored ∧
      (generate (bareDiamond.without "b")).statements.Perm (generate bareDiamond).statements ∧
      (generate bareDiamond).classification.lookup ("k" : Text) = some .ignored ∧
      (generate (bareDiamond.without "k")).statements.Perm (generate bareDiamond).statements := by
  have hid : ∀ p ∈ bareDiamond.elements, p.2.id = p.1 := by decide
  have hd : bareDiamond.elements.IsKeyed := ⟨by decide, fun id e he => hid (id, e) he⟩
  have hb : (generate bareDiamond).classification.lookup ("b" : Text) = some .ignored := by decide +kernel
  have hk : (generate bareDiamond).classification.lookup ("k" : Text) = some .ignored := by decide +kernel
  exact ⟨hd, hb, statements_without_ignored hd hb, hk, statements_without_ignored hd hk⟩

end Diagram

end Ontogram

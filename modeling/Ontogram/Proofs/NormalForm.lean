/-
Canonical text as a normal form.

The canonical text of a value holds the value with sorted keys and nothing else. So it tells two values apart
unless they differ only in the order of keys, and it is its own canonical text:

* `Document.canonicalize_eq_ok_iff` — what is a document has the canonical text of its value;
* `canonicalize_eq_ok_iff_of_reorders` — and that does not depend on the order of keys;
* `parse_of_canonicalize`, `canonicalizeText_canonical` — the canonical text of a document holds the document
  with sorted keys, and passes as it stands;
* `canonical_is_normal_form` — reading, equality and repetition together;
* `long_number_has_no_canonical_text` — a value without a canonical text;
* `canonical_is_normal_form_nested` — for a value with objects inside and numbers that have no digits.
-/
import Ontogram.Proofs.FieldOrder
namespace Ontogram

open Json (HasDistinctKeys HasSortedKeys Reorders reorders_sortKeys canonical_sortKeys canonical_eq_iff
  canonical?_eq_some_iff parse_canonical hasDistinctKeys_of_parse)
open Traversal (bind_eq_ok_iff mapError_eq_ok_iff)

namespace Document

theorem decode_eq_ok_iff {text : Text} {v : Json} :
    decode text = .ok v ↔ Json.parse text = .ok v := by
  unfold decode
  split <;> simp_all

theorem canonicalize_eq_ok_iff {v : Json} {c : Text} :
    canonicalize v = .ok c ↔ (∃ d, ofJson v = .ok d) ∧ v.hasShortNumbers = true ∧ v.canonical = c := by
  unfold canonicalize
  rw [← canonical?_eq_some_iff, bind_eq_ok_iff]
  constructor
  · rintro ⟨d, hd, hc⟩
    refine ⟨⟨d, mapError_eq_ok_iff.mp hd⟩, ?_⟩
    split at hc <;> cases hc
    assumption
  · rintro ⟨⟨d, hd⟩, hc⟩
    refine ⟨d, mapError_eq_ok_iff.mpr hd, ?_⟩
    rw [hc]
    rfl

theorem canonicalizeText_eq_ok_iff {text c : Text} :
    canonicalizeText text = .ok c ↔ ∃ v, Json.parse text = .ok v ∧ canonicalize v = .ok c := by
  unfold canonicalizeText
  simp only [bind_eq_ok_iff, decode_eq_ok_iff]

variable {v w : Json}

/-- The order of keys decides neither whether a value is a document nor its canonical text. -/
theorem canonicalize_eq_ok_iff_of_reorders (hv : v.HasDistinctKeys) (h : v.Reorders w) {c : Text} :
    canonicalize v = .ok c ↔ canonicalize w = .ok c := by
  have hdocument : (∃ d, ofJson v = .ok d) ↔ ∃ d, ofJson w = .ok d :=
    Schema.document_isOk_iff_of_reorders hv h
  have hshort : v.hasShortNumbers = w.hasShortNumbers := h.all_eq hv _ _
  rw [canonicalize_eq_ok_iff, canonicalize_eq_ok_iff, hdocument, hshort, h.canonical_eq hv]

theorem canonicalize_sortKeys (hv : v.HasDistinctKeys) {c : Text} (h : canonicalize v = .ok c) :
    canonicalize v.sortKeys = .ok c :=
  (canonicalize_eq_ok_iff_of_reorders hv (reorders_sortKeys v)).mp h

theorem parse_of_canonicalize (hv : v.HasDistinctKeys) {c : Text} (h : canonicalize v = .ok c) :
    Json.parse c = .ok v.sortKeys := by
  obtain ⟨-, hshort, rfl⟩ := canonicalize_eq_ok_iff.mp h
  exact parse_canonical ⟨hv, hshort⟩

/-- The canonical text of a document passes as it stands. -/
theorem canonicalizeText_canonical (hv : v.HasDistinctKeys) {c : Text} (h : canonicalize v = .ok c) :
    canonicalizeText c = .ok c :=
  canonicalizeText_eq_ok_iff.mpr ⟨v.sortKeys, parse_of_canonicalize hv h, canonicalize_sortKeys hv h⟩

theorem isCanonical_of_canonicalizeText {c : Text} (h : canonicalizeText c = .ok c) :
    isCanonical c = .ok true := by
  rw [isCanonical, h]
  exact congrArg Except.ok (beq_self_eq_true c)

end Document

/-- **A normal form.** A value has a canonical text iff no whole number inside is too long to be written. The text is
read as the value with its keys sorted, and it is the canonical text of that value too. Another value has the same
canonical text iff it differs at most in the order of keys. The text that a document is brought into is the one text of
the document that is canonical. -/
theorem canonical_is_normal_form :
    (∀ v : Json, v.HasDistinctKeys → ((∃ c, v.canonical? = some c) ↔ v.hasShortNumbers = true) ∧
      ∀ c, v.canonical? = some c →
        Json.parse c = .ok v.sortKeys ∧ v.Reorders v.sortKeys ∧ v.sortKeys.HasSortedKeys ∧
          v.sortKeys.canonical? = some c) ∧
    (∀ (v w : Json) (c : Text), v.HasDistinctKeys → w.HasDistinctKeys → v.canonical? = some c →
      (w.canonical? = some c ↔ v.Reorders w)) ∧
    ∀ text c : Text, Document.canonicalizeText text = .ok c →
      Document.canonicalizeText c = .ok c ∧ Document.isCanonical c = .ok true := by
  refine ⟨fun v hv => ⟨?_, fun c hc => ?_⟩, fun v w c hv hw hc => ?_, fun text c h => ?_⟩
  · simp only [canonical?_eq_some_iff, exists_and_left, exists_eq', and_true]
  · obtain ⟨hshort, rfl⟩ := canonical?_eq_some_iff.mp hc
    have hsorted := hv.sortKeys
    refine ⟨parse_canonical ⟨hv, hshort⟩, reorders_sortKeys v, hv.hasSortedKeys_sortKeys, ?_⟩
    exact canonical?_eq_some_iff.mpr ⟨(Json.all_sortKeys _ _ v).trans hshort, canonical_sortKeys hv⟩
  · obtain ⟨hshort, rfl⟩ := canonical?_eq_some_iff.mp hc
    rw [canonical?_eq_some_iff]
    constructor
    · rintro ⟨hshort', heq⟩
      exact (canonical_eq_iff ⟨hv, hshort⟩ ⟨hw, hshort'⟩).mp heq.symm
    · intro h
      exact ⟨(h.all_eq hv _ _).symm.trans hshort, (h.canonical_eq hv).symm⟩
  · obtain ⟨v, hread, hcanonical⟩ := Document.canonicalizeText_eq_ok_iff.mp h
    have hc := Document.canonicalizeText_canonical (hasDistinctKeys_of_parse hread) hcanonical
    exact ⟨hc, Document.isCanonical_of_canonicalizeText hc⟩

/-- A number with one digit more than can be written. -/
theorem long_number_has_no_canonical_text :
    (Json.int (10 ^ Text.digitLimit : Nat)).HasDistinctKeys ∧
      (Json.int (10 ^ Text.digitLimit : Nat)).canonical? = none := by
  have hlong (n : Nat) (hn : ¬ n < 10 ^ Text.digitLimit) : (Json.int n).canonical? = none := by
    refine if_neg ?_
    have hlength : ¬ (Text.decimalDigits n).length ≤ Text.digitLimit := mt Json.length_decimalDigits_le_iff.mp hn
    simpa [Json.hasShortNumbers, Json.all, Json.isShort] using hlength
  exact ⟨.int _, hlong _ (Nat.lt_irrefl _)⟩

/-- An object inside an object, numbers that have no digits and a text with escapes. -/
def nestedKeys : Json :=
  .obj [("b", .obj [("é", .double .notANumber), ("a", .arr [.double (.infinite true), .int (-10 ^ 20)])]),
    ("a", .str "\"\n")]

def nestedKeysSorted : Json :=
  .obj [("a", .str "\"\n"),
    ("b", .obj [("a", .arr [.double (.infinite true), .int (-10 ^ 20)]), ("é", .double .notANumber)])]

theorem reorders_nestedKeys : nestedKeys.Reorders nestedKeysSorted :=
  .trans (.fields (.swap _ _ _)) (.value [("a", .str "\"\n")] [] "b" (.fields (.swap _ _ _)))

theorem hasSortedKeys_nestedKeysSorted : nestedKeysSorted.HasSortedKeys := by
  have hitems : ∀ v ∈ [Json.double (.infinite true), .int (-10 ^ 20)], v.HasSortedKeys :=
    List.forall_mem_cons.mpr ⟨.double _, List.forall_mem_singleton.mpr (.int _)⟩
  refine .obj (by decide) (List.forall_mem_cons.mpr ⟨.str _, List.forall_mem_singleton.mpr ?_⟩)
  exact .obj (by decide) (List.forall_mem_cons.mpr ⟨.arr hitems, List.forall_mem_singleton.mpr (.double _)⟩)

/-- A document with nothing in it. -/
def emptyFields : Assoc Json :=
  [("domain", .str ""), ("elements", .obj []), ("prefixes", .obj []), ("rawStatements", .str "")]

theorem hasSortedKeys_emptyFields : (Json.obj emptyFields).HasSortedKeys := by
  have hempty : (Json.obj []).HasSortedKeys := .obj (by decide) (List.forall_mem_nil _)
  refine .obj (by decide) ?_
  simp only [emptyFields, List.forall_mem_cons]
  exact ⟨.str _, hempty, hempty, .str _, List.forall_mem_nil _⟩

/-- Its text with the keys backwards. -/
def backwardsText : Text :=
  " \x7b\"rawStatements\": \"\", \"prefixes\": \x7b\x7d, \"elements\": \x7b\x7d, \"domain\": \"\"\x7d"

theorem canonicalizeText_backwardsText :
    Document.canonicalizeText backwardsText =
      .ok "\x7b\"domain\":\"\",\"elements\":\x7b\x7d,\"prefixes\":\x7b\x7d,\"rawStatements\":\"\"\x7d" := by
  have hread : Json.parse backwardsText = .ok (.obj emptyFields.reverse) := by decide +kernel
  have hdocument : Document.ofJson (.obj emptyFields.reverse) = .ok ⟨[], "", [], ""⟩ := by decide +kernel
  have hkeys : (Json.obj emptyFields.reverse).sortKeys = .obj emptyFields := by
    rw [Reorders.sortKeys_eq (.fields (List.reverse_perm _)) (hasDistinctKeys_of_parse hread),
      hasSortedKeys_emptyFields.sortKeys_eq_self]
  refine Document.canonicalizeText_eq_ok_iff.mpr ⟨_, hread, ?_⟩
  refine Document.canonicalize_eq_ok_iff.mpr ⟨⟨_, hdocument⟩, by decide +kernel, ?_⟩
  rw [Json.canonical, hkeys]
  decide +kernel

/-- Both texts of a value have one canonical text, and so has a document that is written backwards. -/
theorem canonical_is_normal_form_nested :
    (nestedKeys ≠ nestedKeysSorted ∧ nestedKeys.HasDistinctKeys ∧ nestedKeysSorted.HasDistinctKeys ∧
      ∃ c, nestedKeys.canonical? = some c ∧ Json.parse c = .ok nestedKeysSorted ∧
        nestedKeysSorted.canonical? = some c) ∧
    ∃ c, Document.canonicalizeText backwardsText = .ok c ∧ c ≠ backwardsText ∧
      Document.canonicalizeText c = .ok c ∧ Document.isCanonical c = .ok true := by
  obtain ⟨hread, heq, hdocument⟩ := canonical_is_normal_form
  have hsorted := hasSortedKeys_nestedKeysSorted.hasDistinctKeys
  have hnested := hsorted.of_reorders reorders_nestedKeys.symm
  have hkeys : nestedKeys.sortKeys = nestedKeysSorted := by
    rw [reorders_nestedKeys.sortKeys_eq hnested, hasSortedKeys_nestedKeysSorted.sortKeys_eq_self]
  obtain ⟨c, hc⟩ := (hread _ hnested).1.mpr (by decide +kernel)
  refine ⟨⟨by decide, hnested, hsorted, c, hc, ?_, (heq _ _ c hnested hsorted hc).mpr reorders_nestedKeys⟩,
    _, canonicalizeText_backwardsText, by decide +kernel, hdocument _ _ canonicalizeText_backwardsText⟩
  rw [← hkeys]
  exact ((hread _ hnested).2 c hc).1

end Ontogram

/-
The order of fields and the checks of a document.

A check of an element looks its fields up, so it answers the same to the element with sorted keys, down to the
violation that it reports. Maps are checked entry by entry, and there the order may change which violation is
met first, but not whether there is one:

* `bind_field_sortedFields` — what is done with the value of a field does not see the order, if what is done
  with a value does not;
* `element_sortKeys` — an element is checked alike whatever the order of its keys;
* `agree_elements_sortKeys` — an element map passes in any order or in none, and its entries are only moved;
* `agree_document_sortKeys` — and so does a document;
* `document_isOk_iff_of_reorders` — documents that differ only in the order of keys are accepted together.
-/
import Ontogram.Document.Canonical
import Ontogram.Proofs.FieldReading
import Ontogram.Proofs.KeyOrder
namespace Ontogram

open Json (sortedFields lookup_sortedFields keys_sortedFields_perm sortKeys_obj)
open Traversal (Agree agree_of_eq agree_mapM_of_perm)

namespace Schema

variable {fields : Assoc Json} {place key : Text}

/-! ### Values that are no objects -/

theorem number_sortKeys (v : Json) : number place v.sortKeys = number place v := by
  cases v <;> simp [Json.sortKeys, number, Number.ofJson?]

theorem string_sortKeys (v : Json) : string place v.sortKeys = string place v := by
  cases v <;> simp [Json.sortKeys, string]

theorem stringOrNull_sortKeys (v : Json) : stringOrNull place v.sortKeys = stringOrNull place v := by
  cases v <;> simp [Json.sortKeys, stringOrNull]

theorem variant_sortKeys (v : Json) : variant place v.sortKeys = variant place v := by
  cases v <;> simp [Json.sortKeys, variant]

/-! ### Fields -/

theorem has_sortedFields (key : Text) : Assoc.has (sortedFields fields) key = Assoc.has fields key := by
  rw [Bool.eq_iff_iff, Assoc.has_iff_mem_keys, Assoc.has_iff_mem_keys]
  exact (keys_sortedFields_perm fields).mem_iff

theorem requireAll_sortedFields (keys : List Text) :
    requireAll place keys (sortedFields fields) = requireAll place keys fields := by
  simp only [requireAll, has_sortedFields]

/-- The least extra key is the same in any order. -/
theorem extraKey?_sortedFields (allowed : List Text) :
    extraKey? allowed (sortedFields fields) = extraKey? allowed fields := by
  rw [extraKey?, extraKey?]
  have hle : ∀ a b : Text, decide (a ≤ b) = true ↔ id a ≤ id b := fun _ _ => decide_eq_true_iff
  have hperm := (keys_sortedFields_perm fields).filter fun key => !allowed.contains key
  rw [Traversal.mergeSort_eq_of_perm hle (fun a _ b _ h => h) hperm]

theorem noExtraField_sortedFields (allowed : List Text) :
    noExtraField place allowed (sortedFields fields) = noExtraField place allowed fields := by
  rw [noExtraField, noExtraField, extraKey?_sortedFields]

section Fields

variable (h : (Json.obj fields).HasDistinctKeys)

include h

theorem lookup_sortedFields_of_distinct (key : Text) :
    (sortedFields fields).lookup key = (fields.lookup key).map Json.sortKeys :=
  lookup_sortedFields (Json.hasDistinctKeys_obj_iff.mp h).1 key

/-- A field has the same value, sorted, or is missing in both. -/
theorem agree_field_sortedFields :
    Agree (fun v w => w = v.sortKeys ∧ v.HasDistinctKeys) (field place key fields)
      (field place key (sortedFields fields)) := by
  rw [field, field, lookup_sortedFields_of_distinct h]
  cases hv : fields.lookup key with
  | none => exact .error _ _
  | some v => exact .ok ⟨rfl, (Json.hasDistinctKeys_obj_iff.mp h).2 _ (Assoc.mem_of_lookup hv)⟩

theorem bind_field_sortedFields {α : Type} {f : Json → Checked α}
    (hf : ∀ v, v.HasDistinctKeys → f v.sortKeys = f v) :
    (field place key (sortedFields fields) >>= f) = field place key fields >>= f := by
  rw [field, field, lookup_sortedFields_of_distinct h]
  cases hv : fields.lookup key with
  | none => rfl
  | some v => exact hf v ((Json.hasDistinctKeys_obj_iff.mp h).2 _ (Assoc.mem_of_lookup hv))

theorem numberField_sortedFields :
    numberField place key (sortedFields fields) = numberField place key fields :=
  bind_field_sortedFields h fun v _ => number_sortKeys v

theorem stringField_sortedFields :
    stringField place key (sortedFields fields) = stringField place key fields :=
  bind_field_sortedFields h fun v _ => string_sortKeys v

theorem endField_sortedFields :
    endField place key (sortedFields fields) = endField place key fields :=
  bind_field_sortedFields h fun v _ => stringOrNull_sortKeys v

end Fields

/-! ### Elements -/

theorem treeItem_sortKeys {v : Json} (hv : v.HasDistinctKeys) :
    treeItem place v.sortKeys = treeItem place v := by
  cases v with
  | obj fields =>
    rw [sortKeys_obj]
    simp only [treeItem, has_sortedFields, stringField_sortedFields hv, noExtraField_sortedFields]
  | _ => simp [Json.sortKeys, treeItem]

theorem treeItemsFrom_sortKeys {items : List Json} (hitems : ∀ v ∈ items, v.HasDistinctKeys) (i : Nat) :
    treeItemsFrom place i (items.map Json.sortKeys) = treeItemsFrom place i items := by
  induction items generalizing i with
  | nil => rfl
  | cons v rest ih =>
    obtain ⟨hv, hrest⟩ := List.forall_mem_cons.mp hitems
    rw [List.map_cons, treeItemsFrom, treeItemsFrom, treeItem_sortKeys hv, ih hrest]

theorem treeItems_sortKeys {v : Json} (hv : v.HasDistinctKeys) :
    treeItems place v.sortKeys = treeItems place v := by
  cases v with
  | arr items =>
    rw [Json.sortKeys, Json.sortKeysItems_eq_map, treeItems, treeItems,
      treeItemsFrom_sortKeys (Json.hasDistinctKeys_arr_iff.mp hv)]
  | _ => simp [Json.sortKeys, treeItems]

/-- Each variant reads its fields one by one under their names. -/
theorem variantFields_sortedFields (h : (Json.obj fields).HasDistinctKeys) (v : Variant) :
    variantFields place v (sortedFields fields) = variantFields place v fields := by
  have hshape : shape place (sortedFields fields) = shape place fields := by
    simp only [shape, stringField_sortedFields h, numberField_sortedFields h]
  have harrow : arrow place (sortedFields fields) = arrow place fields := by
    simp only [arrow, stringField_sortedFields h, numberField_sortedFields h, endField_sortedFields h]
  have hnote : note place (sortedFields fields) = note place fields := by
    simp only [note, stringField_sortedFields h, numberField_sortedFields h]
  have htree : tree place (sortedFields fields) = tree place fields := by
    simp only [tree, stringField_sortedFields h]
    refine bind_congr fun id => bind_congr fun root => ?_
    exact bind_field_sortedFields h fun v hv => by rw [treeItems_sortKeys hv]
  cases v with
  | rectangle => rw [variantFields, variantFields, hshape]
  | diamond => rw [variantFields, variantFields, hshape]
  | arrow => rw [variantFields, variantFields, harrow]
  | note => rw [variantFields, variantFields, hnote]
  | tree => rw [variantFields, variantFields, htree]

theorem readElement_sortKeys {v : Json} (hv : v.HasDistinctKeys) :
    readElement place v.sortKeys = readElement place v := by
  cases v with
  | obj fields =>
    rw [sortKeys_obj, readElement, readElement, has_sortedFields, lookup_sortedFields_of_distinct hv]
    cases htype : fields.lookup ("type" : Text) with
    | none => rfl
    | some type =>
      rw [Option.map_some]
      cases hid : Assoc.has fields "id" with
      | false => rfl
      | true =>
        simp only [variant_sortKeys, requireAll_sortedFields, variantFields_sortedFields hv,
          noExtraField_sortedFields]
  | _ => simp [Json.sortKeys, readElement]

/-- An element is checked alike whatever the order of its keys. -/
theorem element_sortKeys {v : Json} (hv : v.HasDistinctKeys) :
    element place v.sortKeys = element place v := by
  rw [element, element, readElement_sortKeys hv]

/-! ### Maps -/

theorem namespaceEntry_sortKeys (label : Text) (v : Json) :
    namespaceEntry (label, v.sortKeys) = namespaceEntry (label, v) := by
  cases v <;> simp [Json.sortKeys, namespaceEntry, Json.kindName]

/-- A check of entries that does not see the order of keys in their values succeeds on the fields of an object
in any order or in none. -/
theorem agree_mapM_sortedFields {α : Type} {check : Text × Json → Checked α}
    (hcheck : ∀ e ∈ fields, check (e.1, e.2.sortKeys) = check e) :
    Agree (fun xs ys => ys.Perm xs) (fields.mapM check) ((sortedFields fields).mapM check) := by
  have hvalues : (Json.sortKeysFields fields).mapM check = fields.mapM check := by
    rw [Json.sortKeysFields_eq_map, List.mapM_map]
    induction fields with
    | nil => rfl
    | cons e rest ih =>
      obtain ⟨he, hrest⟩ := List.forall_mem_cons.mp hcheck
      rw [List.mapM_cons, List.mapM_cons, ih hrest, Function.comp_apply, he]
  rw [← hvalues]
  exact agree_mapM_of_perm (Json.sortFields_perm _)

theorem agree_namespaces_sortKeys {v : Json} :
    Agree (fun xs ys => ys.Perm xs) (namespaces v) (namespaces v.sortKeys) := by
  cases v with
  | obj fields =>
    rw [sortKeys_obj, namespaces, namespaces, namespaceEntries_eq_mapM, namespaceEntries_eq_mapM]
    exact agree_mapM_sortedFields fun e _ => namespaceEntry_sortKeys e.1 e.2
  | _ =>
    simp only [Json.sortKeys]
    exact .error _ _

theorem keys_elementEntries {entries : Elements} (h : elementEntries fields = .ok entries) :
    Assoc.keys entries = Assoc.keys fields := by
  rw [elementEntries_eq_ok_iff] at h
  induction h with
  | nil => rfl
  | cons he _ ih => rw [Assoc.keys, List.map_cons, ← Assoc.keys, ih, he.key, Assoc.keys, Assoc.keys, List.map_cons]

/-- The trees of a map are sound or not whatever the order of its entries. -/
theorem unsoundTree?_eq_none_of_perm {es es' : Elements} (hkeys : (Assoc.keys es).Nodup) (h : es'.Perm es) :
    unsoundTree? es' = none ↔ unsoundTree? es = none := by
  have hsound : ∀ t : Tree, t.isSound es' = t.isSound es := by
    intro t
    simp only [Tree.isSound, Assoc.lookup_of_perm hkeys h]
  simp only [unsoundTree?, Option.map_eq_none_iff, List.find?_eq_none, hsound, h.mem_iff]

theorem agree_elements_sortKeys {v : Json} (hv : v.HasDistinctKeys) :
    Agree (fun xs ys => ys.Perm xs) (elements v) (elements v.sortKeys) := by
  cases v with
  | obj fields =>
    obtain ⟨hkeys, hvalues⟩ := Json.hasDistinctKeys_obj_iff.mp hv
    have hentries : Agree (fun xs ys => ys.Perm xs) (elementEntries fields)
        (elementEntries (sortedFields fields)) := by
      rw [elementEntries_eq_mapM, elementEntries_eq_mapM]
      refine agree_mapM_sortedFields fun e he => ?_
      rw [elementEntry, elementEntry, element_sortKeys (hvalues e he)]
    rw [sortKeys_obj]
    refine hentries.bind fun es es' hes hperm => ?_
    rw [← keys_elementEntries hes] at hkeys
    have hiff := unsoundTree?_eq_none_of_perm hkeys hperm
    cases hfound : unsoundTree? es with
    | none =>
      rw [hiff.mpr hfound]
      exact .ok hperm
    | some id =>
      cases hfound' : unsoundTree? es' with
      | none =>
        rw [hiff.mp hfound'] at hfound
        cases hfound
      | some id' => exact .error _ _
  | _ =>
    simp only [Json.sortKeys]
    exact .error _ _

end Schema

/-! ### Documents -/

/-- The same document with its maps in another order. -/
structure Document.Rearranges (d d' : Document) : Prop where
  namespaces : d'.namespaces.Perm d.namespaces
  domain : d'.domain = d.domain
  elements : d'.elements.Perm d.elements
  rawStatements : d'.rawStatements = d.rawStatements

namespace Schema

/-- A document passes with its keys in any order or in none, and then only its maps are rearranged. -/
theorem agree_document_sortKeys {v : Json} (hv : v.HasDistinctKeys) :
    Agree Document.Rearranges (document v) (document v.sortKeys) := by
  cases v with
  | obj fields =>
    have hfield : ∀ key, Agree (fun v w => w = v.sortKeys ∧ v.HasDistinctKeys) (field "document" key fields)
        (field "document" key (sortedFields fields)) := fun key => agree_field_sortedFields hv
    rw [sortKeys_obj, document, document, requireAll_sortedFields, extraKey?_sortedFields]
    -- field by field: the value, then its check
    refine (agree_of_eq rfl).bind fun _ _ _ _ => ?_
    refine (hfield "prefixes").bind fun v _ _ hvalue => ?_
    obtain ⟨rfl, hv⟩ := hvalue
    refine (agree_namespaces_sortKeys).bind fun ns ns' _ hns => ?_
    refine (hfield "domain").bind fun v _ _ hvalue => ?_
    obtain ⟨rfl, hv⟩ := hvalue
    refine (agree_of_eq (string_sortKeys v).symm).bind fun domain _ _ hdomain => ?_
    refine (hfield "elements").bind fun v _ _ hvalue => ?_
    obtain ⟨rfl, hv⟩ := hvalue
    refine (agree_elements_sortKeys hv).bind fun es es' _ hes => ?_
    refine (hfield "rawStatements").bind fun v _ _ hvalue => ?_
    obtain ⟨rfl, hv⟩ := hvalue
    refine (agree_of_eq (string_sortKeys v).symm).bind fun raw _ _ hraw => ?_
    cases extraKey? documentKeys fields with
    | none => exact .ok ⟨hns, hdomain.symm, hes, hraw.symm⟩
    | some key => exact .error _ _
  | _ =>
    simp only [Json.sortKeys]
    exact .error _ _

/-- Documents that differ only in the order of keys are accepted together. -/
theorem document_isOk_iff_of_reorders {v w : Json} (hv : v.HasDistinctKeys) (h : v.Reorders w) :
    (∃ d, document v = .ok d) ↔ ∃ d, document w = .ok d := by
  have hw := agree_document_sortKeys (hv.of_reorders h)
  rw [← h.sortKeys_eq hv] at hw
  exact (agree_document_sortKeys hv).exists_iff.trans hw.exists_iff.symm

end Schema

end Ontogram

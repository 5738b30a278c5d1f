/-
Lists of documents.

A list has an entry for each document, made of its elements and its history, and the entries are in the
order of their keys. A list fails as a whole: one document without elements is enough, or two keys without an
order. So an entry depends on all documents, but on most of them only for that:

* `IsListable` — a text whose elements can be counted, as is every text that compiles (`IsDocumentText`);
* `list_isOk_iff` — a list is made iff the keys have an order and every document can be listed;
* `HasTextKeys` — all keys are texts; texts have an order, and whatever is put in order with a text is a text;
* `entry_list` — the entry of a document comes from the document alone, if there is a list.
-/
import Ontogram.Proofs.FieldReading
import Ontogram.Proofs.StoredDocuments
namespace Ontogram

open Traversal (bind_eq_ok_iff exists_bind_iff exists_bind_pure_iff mapM_eq_ok_iff)

/-! ### Elements and order -/

/-- The text of a document that compiles. -/
def IsDocumentText (v : Json) : Prop := ∃ text c, v = .str text ∧ compileText text = .ok c

theorem IsCanonicalText.isDocumentText {v : Json} (h : IsCanonicalText v) : IsDocumentText v := by
  obtain ⟨text, c, hv, hc, -⟩ := h
  exact ⟨text, c, hv, hc⟩

/-- A value with a length. -/
inductive Json.HasLength : Json → Prop
  | obj (fields : Assoc Json) : HasLength (.obj fields)
  | arr (items : List Json) : HasLength (.arr items)
  | str (s : Text) : HasLength (.str s)

/-- The text of an object with elements that can be counted. -/
def IsListable (v : Json) : Prop :=
  ∃ text fields elements, v = .str text ∧ Json.parse text = .ok (.obj fields) ∧
    fields.lookup ("elements" : Text) = some elements ∧ elements.HasLength

/-- A document that passes has elements that can be counted. -/
theorem Schema.exists_elements_of_document {v : Json} {d : Document} (h : document v = .ok d) :
    ∃ fields elements, v = .obj fields ∧ fields.lookup ("elements" : Text) = some (.obj elements) := by
  cases v with
  | obj fields =>
    obtain ⟨-, -, -, ⟨_, hfield, helements⟩, -⟩ := document_obj_eq_ok_iff.mp h
    obtain ⟨entries, rfl, -⟩ := elements_eq_ok_iff.mp helements
    exact ⟨fields, entries, rfl, hfield⟩
  | _ => cases h

theorem IsDocumentText.isListable {v : Json} (h : IsDocumentText v) : IsListable v := by
  obtain ⟨text, c, rfl, hc⟩ := h
  obtain ⟨w, hw, hcompile⟩ := compileText_eq_ok_iff.mp hc
  obtain ⟨⟨d, hd⟩, -⟩ := Document.canonicalize_eq_ok_iff.mp (canonicalize_of_compile hcompile)
  obtain ⟨fields, elements, rfl, helements⟩ := Schema.exists_elements_of_document hd
  exact ⟨text, fields, _, rfl, hw, helements, .obj elements⟩

namespace Key

variable {α : Type} {key : α → Key} {xs ys : List α}

/-- What is put in order could be compared, and nothing is lost or added. -/
theorem sortOn?_eq_some (h : sortOn? key xs = some ys) : areComparable (xs.map key) = true ∧ ys.Perm xs := by
  unfold sortOn? at h
  by_cases hcomparable : areComparable (xs.map key) = true
  · simp only [hcomparable, Bool.not_true, Bool.false_eq_true, if_false] at h
    refine ⟨hcomparable, ?_⟩
    split at h
    · cases h
      exact List.mergeSort_perm _ _
    · cases h
      exact perm_sortByInsertion _ _
  · simp [hcomparable] at h

theorem exists_sortOn? (h : areComparable (xs.map key) = true) : ∃ ys, sortOn? key xs = some ys := by
  unfold sortOn?
  simp only [h, Bool.not_true, Bool.false_eq_true, if_false]
  split
  · exact ⟨_, rfl⟩
  · exact ⟨_, rfl⟩

/-- Texts have an order. -/
theorem areComparable_of_isText {keys : List Key} (h : ∀ key ∈ keys, key.isText = true) :
    areComparable keys = true := by
  rw [areComparable, List.all_eq_true.mpr h, Bool.or_true, Bool.true_or]

end Key

namespace Store

variable {s : Store} {id : Text}

theorem elementCount_isOk_iff {v : Json} : (∃ n, elementCount v = .ok n) ↔ IsListable v := by
  constructor
  · rintro ⟨n, hn⟩
    unfold elementCount at hn
    split at hn
    · rename_i text
      split at hn
      · cases hn
      · rename_i fields hparse
        -- an object with elements, and three kinds of them
        split at hn
        · cases hn
        · exact ⟨text, fields, _, rfl, hparse, ‹_›, .obj _⟩
        · exact ⟨text, fields, _, rfl, hparse, ‹_›, .arr _⟩
        · exact ⟨text, fields, _, rfl, hparse, ‹_›, .str _⟩
        · cases hn
      · cases hn
    · cases hn
  · rintro ⟨text, fields, elements, rfl, hparse, helements, hlength⟩
    cases hlength with
    | obj fields' => exact ⟨fields'.length, by simp only [elementCount, hparse, helements]⟩
    | arr items => exact ⟨items.length, by simp only [elementCount, hparse, helements]⟩
    | str s => exact ⟨s.length, by simp only [elementCount, hparse, helements]⟩

/-! ### Keys -/

/-- The keys that are put in order are those of the documents. -/
theorem comparable_and_perm_of_keys {keys : List Key} (h : s.keys = .ok keys) :
    Key.areComparable (Assoc.keys s.documents) = true ∧ keys.Perm (Assoc.keys s.documents) := by
  unfold Store.keys at h
  split at h
  · rename_i hsort
    cases h
    obtain ⟨hcomparable, hperm⟩ := Key.sortOn?_eq_some hsort
    rw [List.map_id] at hcomparable
    exact ⟨hcomparable, hperm⟩
  · cases h

theorem mem_keys_iff {keys : List Key} (h : s.keys = .ok keys) {key : Key} :
    key ∈ keys ↔ Assoc.has s.documents key = true :=
  (comparable_and_perm_of_keys h).2.mem_iff.trans Assoc.has_iff_mem_keys.symm

theorem keys_isOk_iff : (∃ keys, s.keys = .ok keys) ↔ Key.areComparable (Assoc.keys s.documents) = true := by
  constructor
  · rintro ⟨keys, hkeys⟩
    exact (comparable_and_perm_of_keys hkeys).1
  · intro h
    rw [← List.map_id (Assoc.keys s.documents)] at h
    obtain ⟨keys, hkeys⟩ := Key.exists_sortOn? h
    exact ⟨keys, by rw [Store.keys, hkeys]⟩

/-- All documents are kept under texts. -/
def HasTextKeys (s : Store) : Prop := ∀ key, key.isText = false → s.documents.lookup key = none

theorem hasTextKeys_iff : s.HasTextKeys ↔ ∀ key ∈ Assoc.keys s.documents, key.isText = true := by
  constructor
  · intro h key hkey
    by_contra hnot
    have hhas := Assoc.has_iff_mem_keys.mpr hkey
    rw [Assoc.has, h key (Bool.not_eq_true _ ▸ hnot)] at hhas
    cases hhas
  · intro h key hkey
    by_contra hsome
    have hhas := Assoc.has_iff_mem_keys.mp (Option.isSome_iff_ne_none.mpr hsome)
    rw [h key hhas] at hkey
    cases hkey

theorem exists_keys (h : s.HasTextKeys) : ∃ keys, s.keys = .ok keys :=
  keys_isOk_iff.mpr (Key.areComparable_of_isText (hasTextKeys_iff.mp h))

/-- Beside a text there is no order but that of texts. -/
theorem hasTextKeys_of_keys {keys : List Key} (h : s.keys = .ok keys) (hid : .text id ∈ keys) :
    s.HasTextKeys := by
  obtain ⟨hcomparable, hperm⟩ := comparable_and_perm_of_keys h
  have hmem := hperm.mem_iff.mp hid
  rw [hasTextKeys_iff]
  rw [Key.areComparable, Bool.or_eq_true, Bool.or_eq_true] at hcomparable
  rcases hcomparable with (hfew | htexts) | hnumbers
  · -- the text is the only key
    have hone : (Assoc.keys s.documents).length = 1 :=
      Nat.le_antisymm (Nat.le_of_lt_succ (of_decide_eq_true hfew)) (List.length_pos_of_mem hmem)
    obtain ⟨k, hk⟩ := List.length_eq_one_iff.mp hone
    rw [hk] at hmem ⊢
    rw [← List.mem_singleton.mp hmem]
    exact List.forall_mem_singleton.mpr rfl
  · exact List.all_eq_true.mp htexts
  · exact absurd (List.all_eq_true.mp hnumbers _ hmem) Bool.false_ne_true

/-! ### The list -/

theorem listing_isOk_iff {Allowed : Key → Json → Prop} (h : s.Invariant Allowed) {key : Key} :
    (∃ e, s.listing key = .ok e) ↔ IsListable ((s.documents.lookup key).getD .null) := by
  rw [listing, exists_bind_iff fun _ => exists_bind_pure_iff.trans elementCount_isOk_iff]
  exact and_iff_right (h.exists_historyOf key)

/-- A list is made iff the keys have an order and every document can be listed. -/
theorem list_isOk_iff {Allowed : Key → Json → Prop} (h : s.Invariant Allowed) :
    (∃ listings, s.list.1 = .ok listings) ↔ Key.areComparable (Assoc.keys s.documents) = true ∧
      ∀ key v, s.documents.lookup key = some v → IsListable v := by
  rw [list_fst, ← keys_isOk_iff]
  constructor
  · rintro ⟨listings, hlistings⟩
    obtain ⟨keys, hkeys, hmapM⟩ := bind_eq_ok_iff.mp hlistings
    refine ⟨⟨keys, hkeys⟩, fun key v hv => ?_⟩
    have hkey : key ∈ keys := (mem_keys_iff hkeys).mpr (by rw [Assoc.has, hv, Option.isSome_some])
    simpa [hv] using (listing_isOk_iff h).mp (Traversal.mapM_isOk_iff.mp ⟨listings, hmapM⟩ key hkey)
  · rintro ⟨⟨keys, hkeys⟩, hlistable⟩
    have heach : ∀ key ∈ keys, ∃ e, s.listing key = .ok e := by
      intro key hkey
      obtain ⟨v, hv⟩ := Option.isSome_iff_exists.mp ((mem_keys_iff hkeys).mp hkey)
      rw [listing_isOk_iff h, hv]
      exact hlistable key v hv
    obtain ⟨listings, hlistings⟩ := Traversal.mapM_isOk_iff.mpr heach
    exact ⟨listings, bind_eq_ok_iff.mpr ⟨keys, hkeys, hlistings⟩⟩

/-- Documents that compile are listed, if their keys have an order. -/
theorem list_of_keys (h : s.Invariant fun _ => IsDocumentText) {keys : List Key} (hkeys : s.keys = .ok keys) :
    ∃ listings, s.list.1 = .ok listings ∧ keys.mapM s.listing = .ok listings := by
  obtain ⟨listings, hlist⟩ := (list_isOk_iff h).mpr
    ⟨(comparable_and_perm_of_keys hkeys).1, fun key v hv => (h.stored key v hv).isListable⟩
  have hmapM := hlist
  rw [list_fst, hkeys] at hmapM
  exact ⟨listings, hlist, hmapM⟩

theorem fst_of_listing {key : Key} {e : Key × Listing} (h : s.listing key = .ok e) : e.1 = key := by
  obtain ⟨_, -, h⟩ := bind_eq_ok_iff.mp h
  obtain ⟨_, -, h⟩ := bind_eq_ok_iff.mp h
  cases h
  rfl

/-- The entries of a list stand under the keys of the documents. -/
theorem map_fst_perm_of_list {listings : List (Key × Listing)} (h : s.list.1 = .ok listings) :
    (listings.map (·.1)).Perm (Assoc.keys s.documents) := by
  rw [list_fst] at h
  obtain ⟨keys, hkeys, hmapM⟩ := bind_eq_ok_iff.mp h
  have hfst : listings.map (·.1) = keys := by
    have hentries := mapM_eq_ok_iff.mp hmapM
    clear h hkeys hmapM
    induction hentries with
    | nil => rfl
    | cons he _ ih => rw [List.map_cons, ih, fst_of_listing he]
  rw [hfst]
  exact (comparable_and_perm_of_keys hkeys).2

/-! ### One entry -/

/-- The entry of a document in a list. A list that cannot be made has no entries. -/
def entry (id : Text) : Except StoreError (List (Key × Listing)) → Option Listing
  | .ok listings => listings.lookup (.text id)
  | .error _ => none

/-- What a list says about a document. -/
def shown (id : Text) (s : Store) : Option Listing := ((s.listing (.text id)).toOption).map (·.2)

theorem lookup_of_mapM_listing {keys : List Key} {listings : List (Key × Listing)}
    (h : keys.mapM s.listing = .ok listings) :
    listings.lookup (.text id) = if .text id ∈ keys then s.shown id else none := by
  have hentries := mapM_eq_ok_iff.mp h
  clear h
  induction hentries with
  | nil => rfl
  | @cons key e keys listings he _ ih =>
    obtain ⟨key', l⟩ := e
    obtain rfl : key' = key := fst_of_listing he
    by_cases hkey : Key.text id = key'
    · subst hkey
      rw [List.lookup_cons_self, if_pos List.mem_cons_self, shown, he]
      rfl
    · rw [List.lookup_cons, beq_eq_false_iff_ne.mpr hkey, ih]
      simp only [List.mem_cons, hkey, false_or]

open Classical in
/-- A document has an entry if it is stored, and if the keys of all documents can be put in order. -/
theorem entry_list (h : s.Invariant fun _ => IsDocumentText) (id : Text) :
    entry id s.list.1 =
      if Assoc.has s.documents (.text id) = true ∧ s.HasTextKeys then s.shown id else none := by
  cases hkeys : s.keys with
  | error e =>
    have hlist : s.list.1 = .error e := by
      rw [list_fst, hkeys]
      rfl
    -- keys without an order are not all texts
    have hnot : ¬ s.HasTextKeys := by
      intro htext
      obtain ⟨keys, hkeys'⟩ := exists_keys htext
      cases hkeys.symm.trans hkeys'
    rw [hlist, if_neg fun hboth => hnot hboth.2]
    rfl
  | ok keys =>
    obtain ⟨listings, hlist, hmapM⟩ := list_of_keys h hkeys
    have hmem : .text id ∈ keys ↔ Assoc.has s.documents (.text id) = true := mem_keys_iff hkeys
    have hentry : entry id s.list.1 = if .text id ∈ keys then s.shown id else none := by
      rw [hlist]
      exact lookup_of_mapM_listing hmapM
    rw [hentry]
    by_cases hid : .text id ∈ keys
    · rw [if_pos hid, if_pos ⟨hmem.mp hid, hasTextKeys_of_keys hkeys hid⟩]
    · rw [if_neg hid, if_neg fun hboth => hid (hmem.mpr hboth.1)]

end Store

end Ontogram

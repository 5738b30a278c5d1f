/-
Canonical text comes back with sorted keys.

Sorting keys changes neither which values an object holds nor which numbers are inside, and what the reader
returns never repeats a key. So the canonical text of anything that was read is read again as the same value
with sorted keys:

* `isReadable_of_parse` — a value that was read repeats no key and has no number that is too long;
* `HasDistinctKeys.sortKeys`, `all_sortKeys` — what sorting leaves as it is;
* `parse_canonical` — reading the canonical text.
-/
import Ontogram.Proofs.JsonReading
import Ontogram.Proofs.Traversal
namespace Ontogram.Json

open Traversal (map_eq_ok_iff)

/-! ### Sorted keys -/

theorem sortKeysItems_eq_map (items : List Json) : sortKeysItems items = items.map sortKeys := by
  induction items with
  | nil => rfl
  | cons v rest ih => rw [sortKeysItems, ih, List.map_cons]

theorem sortKeysFields_eq_map (fields : Assoc Json) :
    sortKeysFields fields = fields.map fun e => (e.1, e.2.sortKeys) := by
  induction fields with
  | nil => rfl
  | cons e rest ih =>
    obtain ⟨k, v⟩ := e
    rw [sortKeysFields, ih, List.map_cons]

theorem sortFields_perm {α : Type} (fields : Assoc α) : (sortFields fields).Perm fields :=
  List.mergeSort_perm _ _

theorem HasDistinctKeys.sortKeys {v : Json} (h : v.HasDistinctKeys) : v.sortKeys.HasDistinctKeys := by
  induction h with
  | null => exact .null
  | bool b => exact .bool b
  | int n => exact .int n
  | double x => exact .double x
  | str s => exact .str s
  | arr h ih =>
    rw [Json.sortKeys, sortKeysItems_eq_map]
    refine .arr ?_
    intro w hw
    obtain ⟨v, hv, rfl⟩ := List.mem_map.mp hw
    exact ih v hv
  | @obj fields hkeys h ih =>
    rw [Json.sortKeys, sortKeysFields_eq_map]
    have hperm := sortFields_perm (fields.map fun e => (e.1, e.2.sortKeys))
    refine .obj ?_ ?_
    · rw [Assoc.keys, (hperm.map _).nodup_iff, List.map_map]
      exact hkeys
    · intro e he
      obtain ⟨e', he', rfl⟩ := List.mem_map.mp (hperm.mem_iff.mp he)
      exact ih e' he'

mutual

/-- Sorting keys leaves everything inside. -/
theorem all_sortKeys (scalar : Json → Bool) (key : Text → Bool) (v : Json) :
    v.sortKeys.all scalar key = v.all scalar key := by
  match v with
  | .null => rfl
  | .bool _ => rfl
  | .int _ => rfl
  | .double _ => rfl
  | .str _ => rfl
  | .arr items => rw [sortKeys, all, all, allItems_sortKeysItems scalar key items]
  | .obj fields =>
    rw [sortKeys, all, all, allFields_eq_all, (sortFields_perm _).all_eq, ← allFields_eq_all,
      allFields_sortKeysFields scalar key fields]

theorem allItems_sortKeysItems (scalar : Json → Bool) (key : Text → Bool) (items : List Json) :
    allItems scalar key (sortKeysItems items) = allItems scalar key items := by
  match items with
  | [] => rfl
  | v :: rest =>
    rw [sortKeysItems, allItems, allItems, all_sortKeys scalar key v, allItems_sortKeysItems scalar key rest]

theorem allFields_sortKeysFields (scalar : Json → Bool) (key : Text → Bool) (fields : List (Text × Json)) :
    allFields scalar key (sortKeysFields fields) = allFields scalar key fields := by
  match fields with
  | [] => rfl
  | (k, v) :: rest =>
    rw [sortKeysFields, allFields, allFields, all_sortKeys scalar key v,
      allFields_sortKeysFields scalar key rest]

end

theorem IsReadable.sortKeys {v : Json} (h : v.IsReadable) : v.sortKeys.IsReadable :=
  ⟨h.keys.sortKeys, (all_sortKeys _ _ v).trans h.short⟩

/-! ### What was read -/

theorem isScalar_of_mem_words : ∀ e ∈ words, e.2.isScalar = true := by decide

theorem isShort_of_mem_words : ∀ e ∈ words, e.2.isShort = true := by decide

theorem IsReadable.of_isScalar {v : Json} (h : v.isScalar = true) (hshort : v.isShort = true) : v.IsReadable := by
  cases v with
  | null => exact ⟨.null, hshort⟩
  | bool b => exact ⟨.bool b, hshort⟩
  | int n => exact ⟨.int n, hshort⟩
  | double x => exact ⟨.double x, hshort⟩
  | str s => cases h
  | arr items => cases h
  | obj fields => cases h

theorem isReadable_of_readWord? {cs rest : List CodePoint} {v : Json} (h : readWord? cs = some (v, rest)) :
    v.IsReadable := by
  obtain ⟨e, he, hread⟩ := List.exists_of_findSome?_eq_some h
  obtain ⟨word, w⟩ := e
  simp only at hread
  split at hread
  · cases hread
    exact .of_isScalar (isScalar_of_mem_words _ he) (isShort_of_mem_words _ he)
  · cases hread

theorem isScalar_of_readNumber? {cs rest : List CodePoint} {v : Json} (h : readNumber? cs = some (v, rest)) :
    v.isScalar = true := by
  unfold readNumber? at h
  simp only at h
  split at h
  · cases h
  split at h <;> split at h <;> cases h <;> rfl

/-- Within this many steps no value that repeats a key or has a number that is too long is read. -/
structure ReadsReadable (fuel : Nat) : Prop where
  value : ∀ {cs : List CodePoint} {v : Json} {rest : List CodePoint},
    readValue fuel cs = .ok (v, rest) → v.IsReadable
  items : ∀ {cs : List CodePoint} {items : List Json} {rest : List CodePoint},
    readItems fuel cs = .ok (items, rest) → ∀ v ∈ items, v.IsReadable
  fields : ∀ {cs : List CodePoint} {before fields : Assoc Json} {rest : List CodePoint},
    readFields fuel cs before = .ok (fields, rest) → (Assoc.keys before).Nodup →
      (∀ e ∈ before, e.2.IsReadable) →
        (Assoc.keys fields).Nodup ∧ ∀ e ∈ fields, e.2.IsReadable

theorem readsReadable_zero : ReadsReadable 0 where
  value h := by cases h
  items h := by cases h
  fields h := by cases h

section Step

variable {fuel : Nat} (ih : ReadsReadable fuel)

include ih

theorem isReadable_of_readValue {cs : List CodePoint} {v : Json} {rest : List CodePoint}
    (h : readValue (fuel + 1) cs = .ok (v, rest)) : v.IsReadable := by
  cases cs with
  | nil => cases h
  | cons c cs =>
    rw [readValue] at h
    split at h
    · obtain ⟨r, -, hr⟩ := map_eq_ok_iff.mp h
      cases hr
      exact ⟨.str _, rfl⟩
    split at h
    · split at h
      · cases h
        exact isReadable_arr_iff.mpr fun _ hv => absurd hv List.not_mem_nil
      · obtain ⟨r, hread, hr⟩ := map_eq_ok_iff.mp h
        cases hr
        exact isReadable_arr_iff.mpr (ih.items hread)
    split at h
    · split at h
      · cases h
        exact isReadable_obj_iff.mpr ⟨List.nodup_nil, fun _ he => absurd he List.not_mem_nil⟩
      · obtain ⟨r, hread, hr⟩ := map_eq_ok_iff.mp h
        cases hr
        exact isReadable_obj_iff.mpr (ih.fields hread List.nodup_nil fun _ he => absurd he List.not_mem_nil)
    split at h
    · rename_i hword
      cases h
      exact isReadable_of_readWord? hword
    split at h
    · rename_i hnumber
      split at h
      · rename_i hshort
        cases h
        exact .of_isScalar (isScalar_of_readNumber? hnumber) hshort
      · cases h
    · cases h

theorem isReadable_of_readItems {cs : List CodePoint} {items : List Json} {rest : List CodePoint}
    (h : readItems (fuel + 1) cs = .ok (items, rest)) : ∀ v ∈ items, v.IsReadable := by
  rw [readItems] at h
  split at h
  · cases h
  · rename_i w r hread
    have hw := ih.value hread
    split at h
    · cases h
      exact List.forall_mem_singleton.mpr hw
    · obtain ⟨q, htail, hq⟩ := map_eq_ok_iff.mp h
      cases hq
      exact List.forall_mem_cons.mpr ⟨hw, ih.items htail⟩
    · cases h

theorem isReadable_of_readFields {cs : List CodePoint} {before fields : Assoc Json} {rest : List CodePoint}
    (h : readFields (fuel + 1) cs before = .ok (fields, rest)) (hkeys : (Assoc.keys before).Nodup)
    (hbefore : ∀ e ∈ before, e.2.IsReadable) :
    (Assoc.keys fields).Nodup ∧ ∀ e ∈ fields, e.2.IsReadable := by
  unfold readFields at h
  split at h
  · split at h
    · cases h
    split at h
    · split at h
      · cases h
      · rename_i w r hread
        have hnext : ∀ k, ∀ e ∈ Assoc.insert k w before, e.2.IsReadable := by
          intro k e he
          rcases Assoc.mem_of_mem_insert he with rfl | he
          · exact ih.value hread
          · exact hbefore e he
        split at h
        · cases h
          exact ⟨Assoc.nodup_keys_insert hkeys, hnext _⟩
        · exact ih.fields h (Assoc.nodup_keys_insert hkeys) (hnext _)
        · cases h
    · cases h
  · cases h

end Step

theorem readsReadable (fuel : Nat) : ReadsReadable fuel := by
  induction fuel with
  | zero => exact readsReadable_zero
  | succ fuel ih =>
    exact ⟨isReadable_of_readValue ih, isReadable_of_readItems ih, isReadable_of_readFields ih⟩

/-- A value that was read repeats no key, and no whole number in it is too long. -/
theorem isReadable_of_parse {s : Text} {v : Json} (h : parse s = .ok v) : v.IsReadable := by
  unfold parse parseChars at h
  split at h
  · cases h
  split at h
  · cases h
  · rename_i w rest hread
    split at h
    · cases h
      exact (readsReadable _).value hread
    · cases h

theorem hasDistinctKeys_of_parse {s : Text} {v : Json} (h : parse s = .ok v) : v.HasDistinctKeys :=
  (isReadable_of_parse h).keys

/-- The canonical text of a value is read as the value with sorted keys. -/
theorem parse_canonical {v : Json} (hv : v.IsReadable) : parse v.canonical = .ok v.sortKeys :=
  parse_text isReadable_compact hv.sortKeys

end Ontogram.Json

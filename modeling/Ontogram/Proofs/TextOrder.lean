/-
The order of texts.

Code points are ordered by their numbers, and texts by their first difference:

* `CodePoint.instLinearOrder`, `Text.instLinearOrder` — both orders are linear.
-/
import Mathlib.Data.List.Lex
import Ontogram.Text.Basic
namespace Ontogram

instance CodePoint.instLinearOrder : LinearOrder CodePoint where
  le_refl a := Nat.le_refl a.toNat
  le_trans _ _ _ := Nat.le_trans
  lt_iff_le_not_ge _ _ := Nat.lt_iff_le_and_not_ge
  le_antisymm _ _ hab hba := toNat_inj.mp (Nat.le_antisymm hab hba)
  le_total a b := Nat.le_total a.toNat b.toNat
  toDecidableLE := inferInstance
  toDecidableLT := inferInstance
  toDecidableEq := inferInstance

namespace Text

/-- The order of texts is that of their lists, which is stated there by what is less. -/
theorem le_iff_toList {s t : Text} : s ≤ t ↔ s.toList ≤ t.toList := not_lt (α := List CodePoint)

theorem lt_iff_toList {s t : Text} : s < t ↔ s.toList < t.toList := Iff.rfl

instance instLinearOrder : LinearOrder Text where
  le_refl s := le_iff_toList.mpr le_rfl
  le_trans s t u := by
    simp only [le_iff_toList]
    exact le_trans
  lt_iff_le_not_ge s t := by
    simp only [le_iff_toList, lt_iff_toList]
    exact lt_iff_le_not_ge
  le_antisymm s t hst hts := toList_inj.mp (le_antisymm (le_iff_toList.mp hst) (le_iff_toList.mp hts))
  le_total s t := by
    simp only [le_iff_toList]
    exact le_total _ _
  toDecidableLE := inferInstance
  toDecidableLT := inferInstance
  toDecidableEq := inferInstance
  compare_eq_compareOfLessAndEq _ _ := rfl

end Text

end Ontogram

/-
The order of statements.

Statements compare as their keys do. A key joins the items of a list, so different statements may have one
key, and these the sort leaves as they stand:

* `Statement.key`, `isLE_compare_iff` — the order is that of the keys;
* `map_key_filter_sort` — which keys stand where does not depend on how the statements stood before;
* `sort_cons` — the statement that stands first comes before all others of its key.
-/
import Mathlib.Data.List.Sort
import Mathlib.Data.Prod.Lex
import Ontogram.Proofs.TextOrder
import Ontogram.Statement
namespace Ontogram

/-- The rank of an object and the texts it is ordered by. -/
def Term.key (o : Term) : ℕ ×ₗ Text ×ₗ Text ×ₗ Text :=
  toLex (o.rank, toLex (o.sortTexts.1, toLex o.sortTexts.2))

theorem isLE_compare_iff_le {a b : Text} : (compare a b).isLE = true ↔ a ≤ b :=
  Ordering.ne_gt_iff_isLE.symm.trans compare_le_iff_le

theorem Term.isLE_compare_iff {a b : Term} : (a.compare b).isLE = true ↔ a.key ≤ b.key := by
  simp only [compare, key, Prod.Lex.toLex_le_toLex, Ordering.isLE_then_iff_or, compare_lt_iff_lt,
    compare_eq_iff_eq, isLE_compare_iff_le]

namespace Statement

/-- What the order looks at, in the order in which it does. -/
def key (s : Statement) : Text ×ₗ Text ×ₗ ℕ ×ₗ Text ×ₗ Text ×ₗ Text :=
  toLex (s.subject, toLex (s.predicate, s.object.key))

theorem isLE_compare_iff {s t : Statement} : (s.compare t).isLE = true ↔ s.key ≤ t.key := by
  simp only [compare, key, Prod.Lex.toLex_le_toLex, Ordering.isLE_then_iff_or, compare_lt_iff_lt,
    compare_eq_iff_eq, Term.isLE_compare_iff]

theorem isLE_compare_trans (s t u : Statement) (hst : (s.compare t).isLE = true)
    (htu : (t.compare u).isLE = true) : (s.compare u).isLE = true := by
  rw [isLE_compare_iff] at hst htu ⊢
  exact hst.trans htu

theorem isLE_compare_total (s t : Statement) : ((s.compare t).isLE || (t.compare s).isLE) = true := by
  rw [Bool.or_eq_true, isLE_compare_iff, isLE_compare_iff]
  exact le_total _ _

theorem sort_perm (statements : List Statement) : (sort statements).Perm statements :=
  List.mergeSort_perm _ _

theorem pairwise_sort (statements : List Statement) :
    (sort statements).Pairwise fun s t => s.key ≤ t.key :=
  (List.pairwise_mergeSort isLE_compare_trans isLE_compare_total statements).imp isLE_compare_iff.mp

/-- The same statements in another order have, sorted, the same keys in the same places. -/
theorem map_key_filter_sort {statements others : List Statement} (h : statements.Perm others)
    (p : Statement → Bool) :
    ((sort statements).filter p).map key = ((sort others).filter p).map key := by
  have hperm : (sort statements).Perm (sort others) :=
    (sort_perm statements).trans (h.trans (sort_perm others).symm)
  have hsorted (l : List Statement) : (((sort l).filter p).map key).Pairwise (· ≤ ·) :=
    List.pairwise_map.mpr ((pairwise_sort l).filter p)
  exact ((hperm.filter p).map key).eq_of_pairwise' (hsorted statements) (hsorted others)

/-- What comes before the statement that stood first is less than it. -/
theorem sort_cons (s : Statement) (rest : List Statement) :
    ∃ before after, sort (s :: rest) = before ++ s :: after ∧ ∀ t ∈ before, t.key < s.key := by
  obtain ⟨before, after, hsort, -, hbefore⟩ :=
    List.mergeSort_cons isLE_compare_trans isLE_compare_total s rest
  refine ⟨before, after, hsort, fun t ht => lt_of_not_ge fun hle => ?_⟩
  simpa [isLE_compare_iff.mpr hle] using hbefore t ht

end Statement

end Ontogram

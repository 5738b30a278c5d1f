/-
Running a partial function over a list.

A traversal succeeds iff the function does on every item, and then lists the results in the same order:

* `mapM_eq_some_iff`, `mapM_eq_ok_iff` — for functions that may have no result and for checks;
* `mapM_isOk_iff`, `mapM_eq_error_iff` — a traversal succeeds iff the function does on all items, and fails on the
  first item on which the function does;
* `bind_eq_ok_iff`, `exists_bind_iff` — a sequence of two checks succeeds iff both do;
* `mem_iff_of_mapM_eq_ok` — the results are those of the items;
* `Agree` — two checks both fail, or both succeed with related results; `Agree.bind` puts such checks one after
  another, and `agree_mapM_of_perm` says it of one check on the items of a list in two orders;
* `forall_mem_of_greater` — induction over the items of a list from the greatest down;
* `pairwise_mergeSort_of_rank`, `mergeSort_eq_of_perm` — sorting by a rank, and by one that tells all items apart;
* `nodup_eraseDups`, `mergeSort_eraseDups_congr` — what is left without repetitions has none, and sorting it
  leaves nothing but what there was.
-/
import Mathlib.Data.List.Forall2
import Mathlib.Data.List.Perm.Basic
import Mathlib.Data.Set.Finite.Lemmas
import Mathlib.Data.Set.Finite.List
namespace Ontogram.Traversal

variable {α β ε : Type}

theorem bind_eq_ok_iff {x : Except ε α} {f : α → Except ε β} {b : β} :
    (x >>= f) = .ok b ↔ ∃ a, x = .ok a ∧ f a = .ok b := by
  cases x <;> simp [bind, Except.bind]

theorem bind_eq_error_iff {x : Except ε α} {f : α → Except ε β} {e : ε} :
    (x >>= f) = .error e ↔ x = .error e ∨ ∃ a, x = .ok a ∧ f a = .error e := by
  cases x <;> simp [bind, Except.bind]

theorem exists_error_iff {x : Except ε α} : (∃ e, x = .error e) ↔ ¬ ∃ a, x = .ok a := by
  cases x <;> simp

theorem map_eq_ok_iff {x : Except ε α} {f : α → β} {b : β} :
    x.map f = .ok b ↔ ∃ a, x = .ok a ∧ f a = b := by
  cases x <;> simp [Except.map]

theorem mapError_eq_ok_iff {ε' : Type} {x : Except ε α} {f : ε → ε'} {a : α} :
    x.mapError f = .ok a ↔ x = .ok a := by
  cases x <;> simp [Except.mapError]

theorem mapError_eq_error_iff {ε' : Type} {x : Except ε α} {f : ε → ε'} {e : ε'} :
    x.mapError f = .error e ↔ ∃ e', x = .error e' ∧ f e' = e := by
  cases x <;> simp [Except.mapError]

theorem exists_map_eq_ok_iff {x : Except ε α} {f : α → β} :
    (∃ b, x.map f = .ok b) ↔ ∃ a, x = .ok a := by
  cases x <;> simp [Except.map]

/-- The second check may depend on what the first one found, but whether it succeeds may not. -/
theorem exists_bind_iff {x : Except ε α} {f : α → Except ε β} {P : Prop}
    (hf : ∀ a, (∃ b, f a = .ok b) ↔ P) : (∃ b, (x >>= f) = .ok b) ↔ (∃ a, x = .ok a) ∧ P := by
  constructor
  · rintro ⟨b, h⟩
    obtain ⟨a, ha, hb⟩ := bind_eq_ok_iff.mp h
    exact ⟨⟨a, ha⟩, (hf a).mp ⟨b, hb⟩⟩
  · rintro ⟨⟨a, ha⟩, hP⟩
    obtain ⟨b, hb⟩ := (hf a).mpr hP
    exact ⟨b, bind_eq_ok_iff.mpr ⟨a, ha, hb⟩⟩

theorem exists_bind_pure_iff {x : Except ε α} {f : α → β} :
    (∃ b, (x >>= fun a => pure (f a)) = .ok b) ↔ ∃ a, x = .ok a :=
  (exists_bind_iff (P := True) fun a => ⟨fun _ => trivial, fun _ => ⟨f a, rfl⟩⟩).trans
    (iff_of_eq (and_true _))

theorem mapM_eq_some_iff {f : α → Option β} {xs : List α} {ys : List β} :
    xs.mapM f = some ys ↔ List.Forall₂ (fun x y => f x = some y) xs ys := by
  induction xs generalizing ys with
  | nil => cases ys <;> simp
  | cons x rest ih =>
    rw [List.mapM_cons]
    constructor
    · intro h
      obtain ⟨y, hy, h⟩ := Option.bind_eq_some_iff.mp h
      obtain ⟨ys', hys', h⟩ := Option.bind_eq_some_iff.mp h
      cases h
      exact .cons hy (ih.mp hys')
    · rintro (_ | ⟨hy, hys⟩)
      simp [hy, ih.mpr hys]

theorem mapM_eq_ok_iff {f : α → Except ε β} {xs : List α} {ys : List β} :
    xs.mapM f = .ok ys ↔ List.Forall₂ (fun x y => f x = .ok y) xs ys := by
  induction xs generalizing ys with
  | nil => cases ys <;> simp [pure, Except.pure]
  | cons x rest ih =>
    rw [List.mapM_cons]
    constructor
    · intro h
      obtain ⟨y, hy, h⟩ := bind_eq_ok_iff.mp h
      obtain ⟨ys', hys', h⟩ := bind_eq_ok_iff.mp h
      cases h
      exact .cons hy (ih.mp hys')
    · rintro (_ | ⟨hy, hys⟩)
      exact bind_eq_ok_iff.mpr ⟨_, hy, bind_eq_ok_iff.mpr ⟨_, ih.mpr hys, rfl⟩⟩

/-- A traversal fails as the function does on the first item on which it fails. -/
theorem mapM_eq_error_iff {f : α → Except ε β} {xs : List α} {e : ε} :
    xs.mapM f = .error e ↔ ∃ before x after, xs = before ++ x :: after ∧
      (∀ y ∈ before, ∃ b, f y = .ok b) ∧ f x = .error e := by
  induction xs with
  | nil => simp [pure, Except.pure]
  | cons x rest ih =>
    rw [List.mapM_cons, bind_eq_error_iff]
    constructor
    · rintro (h | ⟨b, hb, h⟩)
      · exact ⟨[], x, rest, rfl, by simp, h⟩
      · rcases bind_eq_error_iff.mp h with h | ⟨_, _, h⟩
        · obtain ⟨before, y, after, rfl, hbefore, hy⟩ := ih.mp h
          exact ⟨x :: before, y, after, rfl, List.forall_mem_cons.mpr ⟨⟨b, hb⟩, hbefore⟩, hy⟩
        · cases h
    · rintro ⟨_ | ⟨z, before⟩, y, after, hxs, hbefore, hy⟩
      · obtain ⟨rfl, rfl⟩ := List.cons.inj hxs
        exact .inl hy
      · obtain ⟨rfl, rfl⟩ := List.cons.inj hxs
        obtain ⟨⟨b, hb⟩, hbefore⟩ := List.forall_mem_cons.mp hbefore
        exact .inr ⟨b, hb, bind_eq_error_iff.mpr (.inl (ih.mpr ⟨before, y, after, rfl, hbefore, hy⟩))⟩

/-- Each result is the result of an item. -/
theorem exists_of_mem_right {R : α → β → Prop} {xs : List α} {ys : List β}
    (h : List.Forall₂ R xs ys) {y : β} (hy : y ∈ ys) : ∃ x ∈ xs, R x y := by
  induction h with
  | nil => cases hy
  | cons hxy _ ih =>
    rcases List.mem_cons.mp hy with rfl | hy
    · exact ⟨_, List.mem_cons_self, hxy⟩
    · obtain ⟨x, hx, hR⟩ := ih hy
      exact ⟨x, List.mem_cons_of_mem _ hx, hR⟩

/-- Each item has a result. -/
theorem exists_of_mem_left {R : α → β → Prop} {xs : List α} {ys : List β}
    (h : List.Forall₂ R xs ys) {x : α} (hx : x ∈ xs) : ∃ y ∈ ys, R x y := by
  obtain ⟨y, hy, hR⟩ := exists_of_mem_right h.flip hx
  exact ⟨y, hy, hR⟩

/-- Two lists that are related to one list item by item are related to each other, if the items are. -/
theorem forall₂_of_common {R : α → β → Prop} {S : α → α → Prop} {P : α → Prop} {xs xs' : List α} {ys : List β}
    (hS : ∀ x x' y, R x y → R x' y → P x → P x' → S x x') (h : List.Forall₂ R xs ys) (h' : List.Forall₂ R xs' ys)
    (hxs : ∀ x ∈ xs, P x) (hxs' : ∀ x ∈ xs', P x) : List.Forall₂ S xs xs' := by
  induction h generalizing xs' with
  | nil =>
    cases h'
    exact .nil
  | cons hx _ ih =>
    cases h' with
    | cons hx' hrest =>
      rw [List.forall_mem_cons] at hxs hxs'
      exact .cons (hS _ _ _ hx hx' hxs.1 hxs'.1) (ih hrest hxs.2 hxs'.2)

theorem exists_forall₂ {R : α → β → Prop} {xs : List α} (h : ∀ x ∈ xs, ∃ y, R x y) :
    ∃ ys, List.Forall₂ R xs ys := by
  induction xs with
  | nil => exact ⟨[], .nil⟩
  | cons x rest ih =>
    obtain ⟨⟨y, hy⟩, hrest⟩ := List.forall_mem_cons.mp h
    obtain ⟨ys, hys⟩ := ih hrest
    exact ⟨y :: ys, .cons hy hys⟩

/-- A traversal succeeds iff the function does on every item. -/
theorem mapM_isOk_iff {f : α → Except ε β} {xs : List α} :
    (∃ ys, xs.mapM f = .ok ys) ↔ ∀ x ∈ xs, ∃ y, f x = .ok y := by
  simp only [mapM_eq_ok_iff]
  constructor
  · rintro ⟨ys, h⟩ x hx
    obtain ⟨y, -, hy⟩ := exists_of_mem_left h hx
    exact ⟨y, hy⟩
  · exact exists_forall₂

theorem mem_iff_of_mapM_eq_ok {f : α → Except ε β} {xs : List α} {ys : List β}
    (h : xs.mapM f = .ok ys) {y : β} : y ∈ ys ↔ ∃ x ∈ xs, f x = .ok y := by
  refine ⟨exists_of_mem_right (mapM_eq_ok_iff.mp h), ?_⟩
  rintro ⟨x, hx, hy⟩
  obtain ⟨y', hy', hx'⟩ := exists_of_mem_left (mapM_eq_ok_iff.mp h) hx
  cases hy.symm.trans hx'
  exact hy'

/-! ### Checks that agree -/

/-- Checks with the same results both succeed or both fail. -/
theorem error_or_ok_of_iff {x y : Except ε α} (h : ∀ a, x = .ok a ↔ y = .ok a) :
    (∃ e e', x = .error e ∧ y = .error e') ∨ ∃ a, x = .ok a ∧ y = .ok a := by
  cases hx : x with
  | ok a => exact .inr ⟨a, rfl, (h a).mp hx⟩
  | error e =>
    cases hy : y with
    | ok a =>
      rw [(h a).mpr hy] at hx
      cases hx
    | error e' => exact .inl ⟨e, e', rfl, rfl⟩

/-- Both checks fail, for whatever reasons, or both succeed with related results. -/
inductive Agree (R : α → β → Prop) : Except ε α → Except ε β → Prop
  | ok {a : α} {b : β} (h : R a b) : Agree R (.ok a) (.ok b)
  | error (e e' : ε) : Agree R (.error e) (.error e')

theorem agree_of_eq {x y : Except ε α} (h : x = y) : Agree (· = ·) x y := by
  subst h
  cases x with
  | ok a => exact .ok rfl
  | error e => exact .error e e

/-- Checks that agree are followed by checks that agree on related results. -/
theorem Agree.bind {γ δ : Type} {R : α → β → Prop} {S : γ → δ → Prop} {x : Except ε α} {y : Except ε β}
    {f : α → Except ε γ} {g : β → Except ε δ} (h : Agree R x y)
    (hfg : ∀ a b, x = .ok a → R a b → Agree S (f a) (g b)) : Agree S (x >>= f) (y >>= g) := by
  cases h with
  | ok h => exact hfg _ _ rfl h
  | error e e' => exact .error e e'

theorem Agree.exists_iff {R : α → β → Prop} {x : Except ε α} {y : Except ε β} (h : Agree R x y) :
    (∃ a, x = .ok a) ↔ ∃ b, y = .ok b := by
  cases h with
  | ok _ => simp
  | error e e' => simp

theorem Agree.exists_of_ok {R : α → β → Prop} {a : α} {y : Except ε β} (h : Agree R (.ok a) y) :
    ∃ b, y = .ok b ∧ R a b := by
  cases h with
  | ok h => exact ⟨_, rfl, h⟩

/-- Whether a check succeeds on all items of a list does not depend on their order. -/
theorem agree_mapM_of_perm {f : α → Except ε β} {xs ys : List α} (h : ys.Perm xs) :
    Agree (fun zs ws => ws.Perm zs) (xs.mapM f) (ys.mapM f) := by
  have hmoved : ∀ {xs ys : List α}, ys.Perm xs → ∀ zs, xs.mapM f = .ok zs →
      ∃ ws, ys.mapM f = .ok ws ∧ ws.Perm zs := by
    intro xs ys h zs hzs
    obtain ⟨ws, hws, hperm⟩ := List.perm_comp_forall₂ h (mapM_eq_ok_iff.mp hzs)
    exact ⟨ws, mapM_eq_ok_iff.mpr hws, hperm⟩
  cases hxs : xs.mapM f with
  | ok zs =>
    obtain ⟨ws, hws, hperm⟩ := hmoved h zs hxs
    rw [hws]
    exact .ok hperm
  | error e =>
    cases hys : ys.mapM f with
    | ok ws =>
      obtain ⟨zs, hzs, -⟩ := hmoved h.symm ws hys
      rw [hxs] at hzs
      cases hzs
    | error e' => exact .error e e'

/-! ### Ranks -/

/-- What holds of an item whenever it holds of all greater ones holds of every item of a list. -/
theorem forall_mem_of_greater [LinearOrder β] (rank : α → β) {xs : List α} {P : α → Prop}
    (h : ∀ x ∈ xs, (∀ y ∈ xs, rank x < rank y → P y) → P x) : ∀ x ∈ xs, P x := by
  by_contra hnot
  push Not at hnot
  obtain ⟨x, hx, hPx⟩ := hnot
  -- the greatest of the others
  have hfinite : {y | y ∈ xs ∧ ¬ P y}.Finite := (List.finite_toSet xs).subset fun y hy => hy.1
  obtain ⟨y, ⟨hy, hPy⟩, hmax⟩ := Set.exists_max_image _ rank hfinite ⟨x, hx, hPx⟩
  refine hPy (h y hy fun z hz hlt => ?_)
  by_contra hPz
  exact absurd (hmax z ⟨hz, hPz⟩) (not_le_of_gt hlt)

section Ranked

variable [LinearOrder β] {rank : α → β} {le : α → α → Bool} (hle : ∀ a b, le a b = true ↔ rank a ≤ rank b)

include hle

theorem pairwise_mergeSort_of_rank (xs : List α) :
    (xs.mergeSort le).Pairwise fun a b => rank a ≤ rank b := by
  refine (List.pairwise_mergeSort (fun a b c hab hbc => ?_) (fun a b => ?_) xs).imp fun {a b} => (hle a b).mp
  · rw [hle] at hab hbc ⊢
    exact hab.trans hbc
  · rw [Bool.or_eq_true, hle, hle]
    exact le_total _ _

/-- Where no two items have the same rank, sorting leaves nothing of the order they came in. -/
theorem mergeSort_eq_of_perm {xs ys : List α} (hrank : ∀ a ∈ xs, ∀ b ∈ xs, rank a = rank b → a = b)
    (h : xs.Perm ys) : xs.mergeSort le = ys.mergeSort le := by
  have hxs := List.mergeSort_perm xs le
  have hperm : (xs.mergeSort le).Perm (ys.mergeSort le) := hxs.trans (h.trans (List.mergeSort_perm ys le).symm)
  refine hperm.eq_of_pairwise ?_ (pairwise_mergeSort_of_rank hle xs) (pairwise_mergeSort_of_rank hle ys)
  intro a b ha hb hab hba
  exact hrank a (hxs.mem_iff.mp ha) b (h.mem_iff.mpr ((List.mergeSort_perm ys le).mem_iff.mp hb))
    (le_antisymm hab hba)

/-- Sorting by a rank that tells all items apart puts them into their strict order. -/
theorem pairwise_lt_mergeSort (hrank : Function.Injective rank) {xs : List α} (hxs : xs.Nodup) :
    (xs.mergeSort le).Pairwise fun a b => rank a < rank b := by
  have hnodup : (xs.mergeSort le).Nodup := (List.mergeSort_perm xs le).nodup_iff.mpr hxs
  exact (pairwise_mergeSort_of_rank hle xs).imp₂ (fun a b hab hne => lt_of_le_of_ne hab (hrank.ne hne)) hnodup

end Ranked

theorem nodup_eraseDups [BEq α] [LawfulBEq α] (xs : List α) : xs.eraseDups.Nodup := by
  match xs with
  | [] => simp
  | x :: rest =>
    rw [List.eraseDups_cons, List.nodup_cons]
    exact ⟨by simp, nodup_eraseDups _⟩
termination_by xs.length
decreasing_by
  have h := List.length_filter_le (fun y => !y == x) rest
  simp only [List.length_cons]
  omega

theorem eraseDups_perm_of_mem_iff [BEq α] [LawfulBEq α] {xs ys : List α} (h : ∀ x, x ∈ ys ↔ x ∈ xs) :
    ys.eraseDups.Perm xs.eraseDups :=
  (List.perm_ext_iff_of_nodup (nodup_eraseDups ys) (nodup_eraseDups xs)).mpr fun x => by
    rw [List.mem_eraseDups, List.mem_eraseDups, h]

/-- With a rank that tells all items apart, only what is in a list counts for sorting it without repetitions. -/
theorem mergeSort_eraseDups_congr [BEq α] [LawfulBEq α] [LinearOrder β] {rank : α → β} {le : α → α → Bool}
    (hle : ∀ a b, le a b = true ↔ rank a ≤ rank b) (hrank : Function.Injective rank) {xs ys : List α}
    (h : ∀ x, x ∈ ys ↔ x ∈ xs) : ys.eraseDups.mergeSort le = xs.eraseDups.mergeSort le :=
  mergeSort_eq_of_perm hle (fun _ _ _ _ heq => hrank heq) (eraseDups_perm_of_mem_iff h)

end Ontogram.Traversal

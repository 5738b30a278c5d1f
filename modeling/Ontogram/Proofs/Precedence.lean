/-
Checks one after another.

Checks that stop at the first thing they find report by precedence: whatever else is wrong, they say what is wrong
in the earliest stage, and inside a stage what comes first there. The faults of a value have ranks, and a check
reports the one of the least rank:

* `Reports` — a check passes if there is no fault, and otherwise says what the fault of the least rank says;
* `reports_of_iff` — a check that looks for one thing only;
* `Onward`, `Reports.bind` — a check of one stage, and behind it the check of all later stages;
* `reports_forM` — the same check on the items of a list, by their indices;
* `reports_requireAll` — of the missing fields the first one is reported;
* `isLeast_extraKey?`, `reports_noExtraField` — and of the extra ones the least.
-/
import Mathlib.Data.Prod.Lex
import Ontogram.Proofs.TextOrder
import Mathlib.Order.Bounds.Defs
import Ontogram.Proofs.FieldReading
namespace Ontogram.Schema

variable {α β : Type} {ρ : Type} [LinearOrder ρ] {F G : ρ → Text → Prop}

/-- The check passes iff there are no faults. If it fails, then with the words for the fault of the least rank. -/
inductive Reports (F : ρ → Text → Prop) : Checked α → Prop
  | ok {a : α} (h : ∀ r m, ¬ F r m) : Reports F (.ok a)
  | error {e : Violation} {r : ρ} (h : F r e.message) (hleast : ∀ r' m, F r' m → r ≤ r')
      (honly : ∀ m, F r m → m = e.message) : Reports F (.error e)

namespace Reports

variable {x : Checked α}

theorem isOk_iff (h : Reports F x) : (∃ a, x = .ok a) ↔ ∀ r m, ¬ F r m := by
  cases h with
  | ok h => exact iff_of_true ⟨_, rfl⟩ h
  | error h hleast honly => exact iff_of_false (by simp) fun hnone => hnone _ _ h

theorem congr (h : Reports F x) (hFG : ∀ r m, F r m ↔ G r m) : Reports G x := by
  obtain rfl : F = G := funext fun r => funext fun m => propext (hFG r m)
  exact h

/-- A fault that is the only one. -/
theorem only {e : Violation} {r : ρ} (h : F r e.message) (honly : ∀ r' m, F r' m → r' = r ∧ m = e.message) :
    Reports F (.error e : Checked α) :=
  .error h (fun r' m hF => le_of_eq (honly r' m hF).1.symm) fun m hF => (honly r m hF).2

end Reports

/-- A check that looks for one thing only. -/
theorem reports_of_iff {x : Checked α} {start : ρ} {message : Text} {P : Prop} (hok : (∃ a, x = .ok a) ↔ ¬ P)
    (hmessage : ∀ e, x = .error e → e.message = message) :
    Reports (fun r m => r = start ∧ P ∧ m = message) x := by
  cases x with
  | ok a => exact .ok fun r m h => hok.mp ⟨a, rfl⟩ h.2.1
  | error e =>
    have hP : P := by
      by_contra hnot
      simpa using hok.mpr hnot
    exact .only ⟨rfl, hP, hmessage e rfl⟩ fun r m h => ⟨h.1, h.2.2.trans (hmessage e rfl).symm⟩

/-- What the check says, without the value that it reads. -/
def outcome (x : Checked α) : Checked Unit := x >>= fun _ => pure ()

theorem reports_outcome_iff {x : Checked α} : Reports F (outcome x) ↔ Reports F x := by
  cases x with
  | ok a => exact ⟨fun h => .ok (h.isOk_iff.mp ⟨_, rfl⟩), fun h => .ok (h.isOk_iff.mp ⟨_, rfl⟩)⟩
  | error e =>
    constructor
    · rintro (_ | ⟨h, hleast, honly⟩)
      exact .error h hleast honly
    · rintro (_ | ⟨h, hleast, honly⟩)
      exact .error h hleast honly

/-! ### Stages -/

section Stages

variable {F : ℕ → ρ → Text → Prop} {n : ℕ}

/-- The faults of a stage and of all that come behind it. -/
def Onward (F : ℕ → ρ → Text → Prop) (n : ℕ) (r : ℕ ×ₗ ρ) (m : Text) : Prop :=
  n ≤ (ofLex r).1 ∧ F (ofLex r).1 (ofLex r).2 m

/-- Faults of a stage come before those of all later stages. -/
theorem Reports.bind {x : Checked α} {f : α → Checked β} (hx : Reports (F n) x)
    (hf : ∀ a, x = .ok a → Reports (Onward F (n + 1)) (f a)) : Reports (Onward F n) (x >>= f) := by
  cases hx with
  | ok hnone =>
    refine (hf _ rfl).congr fun r m => ⟨fun h => ⟨Nat.le_of_succ_le h.1, h.2⟩, ?_⟩
    rintro ⟨hn, h⟩
    refine ⟨Nat.lt_of_le_of_ne hn ?_, h⟩
    intro heq
    exact hnone _ _ (heq ▸ h)
  | @error e d h hleast honly =>
    refine .error (r := toLex (n, d)) ⟨le_rfl, h⟩ ?_ fun m h => honly m h.2
    rintro ⟨k, d'⟩ m ⟨hn, h'⟩
    rcases eq_or_lt_of_le hn with heq | hlt
    · change n = k at heq
      subst heq
      exact Prod.Lex.toLex_le_toLex.mpr (.inr ⟨rfl, hleast d' m h'⟩)
    · exact Prod.Lex.toLex_le_toLex.mpr (.inl hlt)

/-- A stage without faults is passed over. -/
theorem Reports.skip {x : Checked α} (h : ∀ r m, ¬ F n r m) (hx : Reports (Onward F (n + 1)) x) :
    Reports (Onward F n) x :=
  Reports.bind (x := .ok ()) (.ok h) fun _ _ => hx

theorem Reports.stop {e : Violation} (h : Reports (F n) (.error e : Checked Unit)) :
    Reports (Onward F n) (.error e : Checked α) :=
  h.bind (f := fun _ => .error e) fun _ heq => by cases heq

theorem reports_pure {a : α} (h : ∀ k, n ≤ k → ∀ r m, ¬ F k r m) : Reports (Onward F n) (pure a) :=
  .ok fun _ _ hF => h _ hF.1 _ _ hF.2

end Stages

/-- A check of all items of a list reports on the first one at fault. -/
theorem reports_forM {G : α → ρ → Text → Prop} {f : α → Checked Unit} {xs : List α}
    (h : ∀ x ∈ xs, Reports (G x) (f x)) :
    Reports (Onward (fun i r m => ∃ x, xs[i]? = some x ∧ G x r m) 0) (forM xs f) := by
  -- the items from one index on are one stage and the stages behind it
  have hfrom : ∀ ys i, ys = xs.drop i →
      Reports (Onward (fun i r m => ∃ x, xs[i]? = some x ∧ G x r m) i) (forM ys f) := by
    intro ys
    induction ys with
    | nil =>
      intro i hys
      refine reports_pure fun k hk r m ⟨x, hx, _⟩ => ?_
      have hlength := List.drop_eq_nil_iff.mp hys.symm
      rw [List.getElem?_eq_none (hlength.trans hk)] at hx
      cases hx
    | cons y ys ih =>
      intro i hys
      have hy : xs[i]? = some y := by rw [← List.head?_drop, ← hys, List.head?_cons]
      have hrest : ys = xs.drop (i + 1) := by rw [← List.tail_drop, ← hys, List.tail_cons]
      rw [List.forM_cons]
      refine Reports.bind ((h y (List.mem_of_getElem? hy)).congr fun r m => ?_) fun _ _ => ih (i + 1) hrest
      simp [hy]
  exact hfrom xs 0 rfl

/-! ### Keys -/

section Keys

variable {fields : Assoc Json} {place : Text}

theorem requireAll_eq_forM (keys : List Text) : requireAll place keys fields =
    forM keys fun key => if Assoc.has fields key then .ok () else .error (.missing (place ++ "." ++ key)) := by
  induction keys with
  | nil => rfl
  | cons key rest ih =>
    rw [List.forM_cons, ← ih, requireAll, requireAll, List.find?_cons]
    cases Assoc.has fields key <;> rfl

/-- Of the missing fields the first one is reported. -/
theorem reports_requireAll (place : Text) (keys : List Text) (fields : Assoc Json) (start : ρ) :
    Reports (Onward (fun i r m => ∃ key, keys[i]? = some key ∧
        r = start ∧ key ∉ Assoc.keys fields ∧ m = place ++ "." ++ key ++ " is required") 0)
      (requireAll place keys fields) := by
  rw [requireAll_eq_forM]
  refine reports_forM fun key _ => reports_of_iff ?_ fun e h => ?_
  · rw [not_not, ← Assoc.has_iff_mem_keys]
    cases Assoc.has fields key <;> simp
  · split at h <;> cases h
    rfl

theorem isLeast_extraKey? {allowed : List Text} {key : Text} (h : extraKey? allowed fields = some key) :
    IsLeast {key | key ∈ Assoc.keys fields ∧ key ∉ allowed} key := by
  have hmem : ∀ key, key ∈ ((Assoc.keys fields).filter fun key => !allowed.contains key).mergeSort
      (fun a b => a ≤ b) ↔ key ∈ Assoc.keys fields ∧ key ∉ allowed := by
    simp
  have hsorted : (((Assoc.keys fields).filter fun key => !allowed.contains key).mergeSort
      fun a b => a ≤ b).Pairwise fun a b => a ≤ b :=
    Traversal.pairwise_mergeSort_of_rank (fun _ _ => decide_eq_true_iff) _
  obtain ⟨rest, hrest⟩ := List.head?_eq_some_iff.mp h
  rw [hrest] at hmem hsorted
  refine ⟨(hmem key).mp List.mem_cons_self, fun other hother => ?_⟩
  rcases List.mem_cons.mp ((hmem other).mpr hother) with rfl | hother
  · exact le_refl _
  · exact (List.pairwise_cons.mp hsorted).1 other hother

/-- Of the extra fields the one with the least key is reported. -/
theorem reports_noExtraField {allowed : List Text} {rank : Text → ρ} (hrank : StrictMono rank) :
    Reports (fun r m => ∃ key, r = rank key ∧ key ∈ Assoc.keys fields ∧ key ∉ allowed ∧
        m = place ++ "." ++ key ++ " is not a valid field")
      (noExtraField place allowed fields) := by
  rw [noExtraField]
  cases hkey : extraKey? allowed fields with
  | none =>
    refine .ok ?_
    rintro r m ⟨key, -, hmem, hextra, -⟩
    exact hextra (extraKey?_eq_none_iff.mp hkey key hmem)
  | some key =>
    obtain ⟨⟨hmem, hextra⟩, hleast⟩ := isLeast_extraKey? hkey
    refine .error ⟨key, rfl, hmem, hextra, rfl⟩ ?_ ?_
    · rintro _ _ ⟨other, rfl, hother⟩
      exact hrank.monotone (hleast ⟨hother.1, hother.2.1⟩)
    · rintro m ⟨other, heq, -, -, rfl⟩
      rw [hrank.injective heq]
      rfl

end Keys

end Ontogram.Schema

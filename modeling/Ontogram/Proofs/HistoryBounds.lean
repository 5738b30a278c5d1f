/-
What a history can hold.

A step forth puts a value on the past without a look at the limit. What it puts there comes off the future, so
it is past and future together that never outgrow the limit, and only a push has to drop anything:

* `values` — the line of values, from the oldest one to the one that was undone first;
* `IsSound` — past and future fit into the limit, they need a current value, and no value of the line stands next
  to its equal;
* `IsSound.run`, `IsSound.after` — one command keeps a history so, and then any number of them;
* `stays_bounded` — whatever is asked of a history, it holds no more than its limit, and every step that it takes
  leads to another value.
-/
import Mathlib.Data.List.Chain
import Ontogram.Proofs.Timeline
namespace Ontogram.History

variable {α : Type} {limit : Nat} {h : History α}

/-- All values from the oldest one on: those before the current one, the current one, those that were undone. -/
def values (h : History α) : List α := h.past.reverse ++ (h.current.toList ++ h.future)

/-- Past and future fit into the limit together, there are none without a current value, and no two neighbours
are equal. -/
structure IsSound (limit : Nat) (h : History α) : Prop where
  limit_eq : h.limit = limit
  length_le : h.past.length + h.future.length ≤ limit
  idle : h.current = none → h.past = [] ∧ h.future = []
  distinct : h.values.IsChain (· ≠ ·)

theorem isSound_start (limit : Nat) (initial : Option α) : IsSound limit ⟨limit, [], initial, []⟩ where
  limit_eq := rfl
  length_le := Nat.zero_le limit
  idle _ := ⟨rfl, rfl⟩
  distinct := by cases initial <;> simp [values]

namespace IsSound

/-! ### One command -/

theorem exists_current (hs : h.IsSound limit) (hne : h.past ≠ [] ∨ h.future ≠ []) : ∃ w, h.current = some w := by
  refine Option.ne_none_iff_exists'.mp fun hnone => ?_
  obtain ⟨hpast, hfuture⟩ := hs.idle hnone
  exact hne.elim (fun hne => hne hpast) fun hne => hne hfuture

/-- The latest of the values up to the current one is the current one, if there is any. -/
theorem head?_line (hs : h.IsSound limit) : (h.current.toList ++ h.past).head? = h.current := by
  cases hcurrent : h.current with
  | some w => rfl
  | none =>
    obtain ⟨hpast, -⟩ := hs.idle hcurrent
    rw [hpast]
    rfl

/-- The values up to the current one are an end of the line. -/
theorem distinct_line (hs : h.IsSound limit) : (h.current.toList ++ h.past).reverse.IsChain (· ≠ ·) := by
  have hvalues : h.values = (h.current.toList ++ h.past).reverse ++ h.future := by
    cases hcurrent : h.current <;> simp [values, hcurrent]
  have hdistinct := hs.distinct
  rw [hvalues] at hdistinct
  exact hdistinct.left_of_append

theorem push [DecidableEq α] (hs : h.IsSound limit) (value : α) : (h.push value).2.IsSound limit := by
  have hroom : h.past.length ≤ h.limit := hs.limit_eq ▸ Nat.le_of_add_right_le hs.length_le
  unfold History.push
  rw [extendedPast_eq_take hroom]
  by_cases hsame : h.current = some value
  · rw [if_pos hsame]
    exact hs
  · rw [if_neg hsame]
    refine ⟨hs.limit_eq, hs.limit_eq ▸ List.length_take_le _ _, fun hnone => absurd hnone (Option.some_ne_none _), ?_⟩
    -- dropping from the oldest end leaves an end of the line, and the value that was current is still its last
    have hkept := hs.distinct_line.suffix (List.reverse_suffix.mpr (List.take_prefix h.limit _))
    refine List.isChain_append.mpr ⟨hkept, .singleton value, fun v hv w hw heq => hsame ?_⟩
    obtain rfl : value = w := Option.some.inj hw
    rw [List.getLast?_reverse, List.head?_take, hs.head?_line] at hv
    by_cases hroom : h.limit = 0
    · rw [if_pos hroom] at hv
      cases hv
    · rw [if_neg hroom] at hv
      rw [← heq]
      exact hv

theorem undo (hs : h.IsSound limit) : h.undo.2.IsSound limit := by
  obtain ⟨room, past, current, future⟩ := h
  cases past with
  | nil => exact hs
  | cons value past =>
    obtain ⟨w, rfl⟩ := hs.exists_current (.inl (List.cons_ne_nil _ _))
    refine ⟨hs.limit_eq, ?_, fun hnone => absurd hnone (Option.some_ne_none _), ?_⟩
    · have hlength : past.length + 1 + future.length ≤ limit := hs.length_le
      show past.length + (future.length + 1) ≤ limit
      omega
    · -- the cursor moves, and the line stays
      have hdistinct := hs.distinct
      simp only [values, List.reverse_cons, List.append_assoc] at hdistinct
      exact hdistinct

theorem redo (hs : h.IsSound limit) : h.redo.2.IsSound limit := by
  obtain ⟨room, past, current, future⟩ := h
  cases future with
  | nil => exact hs
  | cons value future =>
    obtain ⟨w, rfl⟩ := hs.exists_current (.inr (List.cons_ne_nil _ _))
    refine ⟨hs.limit_eq, ?_, fun hnone => absurd hnone (Option.some_ne_none _), ?_⟩
    · -- the past grows by what the future gives
      have hlength : past.length + (future.length + 1) ≤ limit := hs.length_le
      show past.length + 1 + future.length ≤ limit
      omega
    · have hdistinct := hs.distinct
      show ((w :: past).reverse ++ ([value] ++ future)).IsChain (· ≠ ·)
      rw [List.reverse_cons, List.append_assoc]
      exact hdistinct

theorem clear (hs : h.IsSound limit) : h.clear.IsSound limit := by
  obtain ⟨room, past, current, future⟩ := h
  obtain rfl : room = limit := hs.limit_eq
  exact isSound_start room current

theorem run [DecidableEq α] (hs : h.IsSound limit) (c : Command α) : (h.run c).2.IsSound limit := by
  cases c with
  | push value => exact hs.push value
  | undo => exact hs.undo
  | redo => exact hs.redo
  | clear => exact hs.clear

/-! ### Many commands -/

theorem after [DecidableEq α] (hs : h.IsSound limit) (commands : List (Command α)) :
    (editor.after commands h).IsSound limit := by
  induction commands generalizing h with
  | nil => exact hs
  | cons c rest ih => exact ih (hs.run c)

/-- A step back that is taken leads to another value. -/
theorem undo_ne (hs : h.IsSound limit) {v : α} (hv : h.undo.1 = some v) : ∃ w, h.current = some w ∧ w ≠ v := by
  obtain ⟨room, past, current, future⟩ := h
  cases past with
  | nil => cases hv
  | cons value past =>
    obtain rfl : value = v := Option.some.inj hv
    obtain ⟨w, rfl⟩ := hs.exists_current (.inl (List.cons_ne_nil _ _))
    have hdistinct := hs.distinct
    simp only [values, List.reverse_cons, List.append_assoc, Option.toList_some] at hdistinct
    obtain ⟨-, hne, -⟩ := List.isChain_append_cons_cons.mp hdistinct
    exact ⟨w, rfl, hne.symm⟩

/-- A step forth that is taken leads to another value. -/
theorem redo_ne (hs : h.IsSound limit) {v : α} (hv : h.redo.1 = some v) : ∃ w, h.current = some w ∧ w ≠ v := by
  obtain ⟨room, past, current, future⟩ := h
  cases future with
  | nil => cases hv
  | cons value future =>
    obtain rfl : value = v := Option.some.inj hv
    obtain ⟨w, rfl⟩ := hs.exists_current (.inr (List.cons_ne_nil _ _))
    obtain ⟨-, hne, -⟩ := List.isChain_append_cons_cons.mp hs.distinct
    exact ⟨w, rfl, hne⟩

end IsSound

/-- **A history stays bounded, and every step is a change.** Whatever a history is asked, its past and future
together hold no more values than the limit says, both are empty without a current value, no value stands next to
its equal, and a step back or forth that is taken leads away from the value that was current. -/
theorem stays_bounded [DecidableEq α] {limit : Int} (hlimit : 1 ≤ limit) (initial : Option α) :
    ∃ start, start? limit initial = .ok start ∧ ∀ commands, ∃ h, editor.after commands start = h ∧
      (h.past.length + h.future.length : Int) ≤ limit ∧
      (h.current = none → h.past = [] ∧ h.future = []) ∧
      (h.past.reverse ++ (h.current.toList ++ h.future)).IsChain (· ≠ ·) ∧
      (∀ v, h.undo.1 = some v → ∃ w, h.current = some w ∧ w ≠ v) ∧
      ∀ v, h.redo.1 = some v → ∃ w, h.current = some w ∧ w ≠ v := by
  refine ⟨⟨limit.toNat, [], initial, []⟩, if_neg (Int.not_lt.mpr hlimit), fun commands => ⟨_, rfl, ?_⟩⟩
  have hsound := (isSound_start limit.toNat initial).after commands
  have hlength := hsound.length_le
  refine ⟨by omega, hsound.idle, hsound.distinct, fun v => hsound.undo_ne, fun v => hsound.redo_ne⟩

/-- With room for two steps back, two steps forth after the oldest value was dropped fill the past again. -/
theorem stays_bounded_forth : (1 : Int) ≤ 2 ∧ ∃ start, start? 2 (some 'a') = .ok start ∧
    ∃ h, editor.after [.push 'b', .push 'c', .push 'b', .undo, .undo, .redo, .redo] start = h ∧
      h.past = ['c', 'b'] ∧ h.future = [] ∧ (h.past.length + h.future.length : Int) ≤ 2 ∧
      h.undo.1 = some 'c' ∧ ∃ w, h.current = some w ∧ w ≠ 'c' := by
  have hlimit : (1 : Int) ≤ 2 := by decide
  obtain ⟨start, hstart, hbounds⟩ := stays_bounded hlimit (some 'a')
  obtain ⟨h, hafter, hheld, -, -, hundo, -⟩ :=
    hbounds [.push 'b', .push 'c', .push 'b', .undo, .undo, .redo, .redo]
  obtain rfl : ⟨2, [], some 'a', []⟩ = start := Except.ok.inj hstart
  have heq : h = ⟨2, ['c', 'b'], some 'b', []⟩ := hafter.symm.trans (by decide)
  subst heq
  exact ⟨hlimit, _, hstart, _, hafter, rfl, rfl, hheld, rfl, hundo 'c' rfl⟩

end Ontogram.History

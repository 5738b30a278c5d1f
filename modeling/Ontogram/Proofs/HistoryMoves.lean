/-
Single moves along a history.

A new value, or a step back or forth, leads from one history to another. Nothing comes in but the new value:

* `Holds` — the values that a history has or leads to;
* `holds_push` — what is held after a new value came in;
* `IsMove`, `isMove_undo`, `isMove_redo` — a step stays where it is, or arrives at a value that is held;
* `Records` — a history that has a stored value for its current one, and holds only values of a kind.
-/
import Mathlib.Data.List.Infix
import Ontogram.History
import Ontogram.Json.Value
namespace Ontogram

namespace History

variable {α : Type} {h : History α} {v w : α}

/-- The value is the current one, or can be reached by steps back or forth. -/
def Holds (h : History α) (w : α) : Prop := w ∈ h.past ∨ h.current = some w ∨ w ∈ h.future

theorem push_fst [DecidableEq α] : (h.push v).1 = true ↔ h.current ≠ some v := by
  unfold push
  by_cases heq : h.current = some v <;> simp [heq]

theorem current_push [DecidableEq α] : (h.push v).2.current = some v := by
  unfold push
  by_cases heq : h.current = some v <;> simp [heq]

/-- What is before a new value was the current one, or before it. -/
theorem mem_extendedPast (hw : w ∈ h.extendedPast) : h.current = some w ∨ w ∈ h.past := by
  unfold extendedPast at hw
  split at hw
  · exact .inr hw
  · rename_i value hvalue
    have hmem : w ∈ value :: h.past := by
      simp only at hw
      split at hw
      · exact List.mem_of_mem_dropLast hw
      · exact hw
    rcases List.mem_cons.mp hmem with rfl | hpast
    · exact .inl hvalue
    · exact .inr hpast

theorem holds_push [DecidableEq α] (hw : (h.push v).2.Holds w) : w = v ∨ h.Holds w := by
  unfold push at hw
  by_cases heq : h.current = some v
  · rw [if_pos heq] at hw
    exact .inr hw
  · rw [if_neg heq] at hw
    rcases hw with hpast | hcurrent | hfuture
    · rcases mem_extendedPast hpast with hw | hw
      · exact .inr (.inr (.inl hw))
      · exact .inr (.inl hw)
    · exact .inl (Option.some.inj hcurrent).symm
    · cases hfuture

/-- A step along a history: it stays where it is, or arrives at a value that the history holds besides the
current one. -/
structure IsMove (move : History α → Option α × History α) : Prop where
  stays : ∀ h, (move h).1 = none → (move h).2 = h
  arrives : ∀ h v, (move h).1 = some v → (move h).2.current = some v ∧ (v ∈ h.past ∨ v ∈ h.future)
  holds : ∀ h w, (move h).2.Holds w → h.Holds w

theorem isMove_undo : IsMove (undo (α := α)) := by
  refine ⟨fun h hmove => ?_, fun h v hmove => ?_, fun h w hw => ?_⟩
  · obtain ⟨limit, past, current, future⟩ := h
    cases past with
    | nil => rfl
    | cons v past => cases hmove
  · obtain ⟨limit, past, current, future⟩ := h
    cases past with
    | nil => cases hmove
    | cons v past =>
      cases hmove
      exact ⟨rfl, .inl List.mem_cons_self⟩
  · obtain ⟨limit, past, current, future⟩ := h
    cases past with
    | nil => exact hw
    | cons v past =>
      rcases hw with hpast | hcurrent | hfuture
      · exact .inl (List.mem_cons_of_mem _ hpast)
      · exact .inl (Option.some.inj hcurrent ▸ List.mem_cons_self)
      · rcases List.mem_append.mp hfuture with hw | hw
        · exact .inr (.inl (Option.mem_toList.mp hw))
        · exact .inr (.inr hw)

theorem isMove_redo : IsMove (redo (α := α)) := by
  refine ⟨fun h hmove => ?_, fun h v hmove => ?_, fun h w hw => ?_⟩
  · obtain ⟨limit, past, current, future⟩ := h
    cases future with
    | nil => rfl
    | cons v future => cases hmove
  · obtain ⟨limit, past, current, future⟩ := h
    cases future with
    | nil => cases hmove
    | cons v future =>
      cases hmove
      exact ⟨rfl, .inr List.mem_cons_self⟩
  · obtain ⟨limit, past, current, future⟩ := h
    cases future with
    | nil => exact hw
    | cons v future =>
      rcases hw with hpast | hcurrent | hfuture
      · rcases List.mem_append.mp hpast with hw | hw
        · exact .inr (.inl (Option.mem_toList.mp hw))
        · exact .inl hw
      · exact .inr (.inr (Option.some.inj hcurrent ▸ List.mem_cons_self))
      · exact .inr (.inr (List.mem_cons_of_mem _ hfuture))

/-- The current value is the stored one; a history of no value is empty; and every value is of the kind. -/
structure Records (Kind : Json → Prop) (stored : Option Json) (h : History Json) : Prop where
  current_eq : h.current = stored
  idle : h.current = none → h.past = [] ∧ h.future = []
  holds : ∀ w, h.Holds w → Kind w ∧ w ≠ .null

variable {Kind Kind' : Json → Prop} {stored : Option Json} {h : History Json} {v : Json}

theorem Records.mono (hrecords : h.Records Kind stored) (hkind : ∀ w, Kind w → Kind' w) :
    h.Records Kind' stored :=
  ⟨hrecords.current_eq, hrecords.idle, fun w hw => (hrecords.holds w hw).imp_left (hkind w)⟩

theorem Records.push (hrecords : h.Records Kind stored) (hkind : Kind v) (hv : v ≠ .null) :
    (h.push v).2.Records Kind (some v) := by
  refine ⟨current_push, fun hnone => ?_, fun w hw => ?_⟩
  · rw [current_push] at hnone
    cases hnone
  · rcases holds_push hw with rfl | hw
    · exact ⟨hkind, hv⟩
    · exact hrecords.holds w hw

theorem Records.move {move : History Json → Option Json × History Json} (hmove : IsMove move)
    (hrecords : h.Records Kind stored) (hv : (move h).1 = some v) :
    (move h).2.Records Kind (some v) := by
  obtain ⟨hcurrent, -⟩ := hmove.arrives h v hv
  refine ⟨hcurrent, fun hnone => ?_, fun w hw => hrecords.holds w (hmove.holds h w hw)⟩
  rw [hcurrent] at hnone
  cases hnone

/-- There is something to arrive at only where something is stored. -/
theorem Records.isSome_of_move {move : History Json → Option Json × History Json} (hmove : IsMove move)
    (hrecords : h.Records Kind stored) (hv : (move h).1 = some v) : stored.isSome = true := by
  rw [← hrecords.current_eq]
  cases hcurrent : h.current with
  | some w => rfl
  | none =>
    obtain ⟨hpast, hfuture⟩ := hrecords.idle hcurrent
    rcases (hmove.arrives h v hv).2 with hw | hw
    · rw [hpast] at hw
      cases hw
    · rw [hfuture] at hw
      cases hw

end History

end Ontogram

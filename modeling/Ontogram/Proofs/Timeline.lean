/-
A history is a line of values with a cursor.

The two stacks of a history, its past and its future, show one line of values: the past from its oldest value
on, then the current value, then what was undone. Every command moves a cursor along that line or cuts it:

* `Timeline` — the line, the cursor, and what the four commands do to them;
* `Editor.transcript` — what is answered to commands one after another, and what is seen after each of them;
* `History.Shows` — a history that shows a line, and `Shows.run`, that a command keeps it so;
* `Shows.iterate_forth_iterate_back`, `Shows.iterate_back_iterate_forth` — as many steps one way as the other
  lead back to where they started;
* `follows_timeline` — whatever is asked of a history, it behaves as the line does.
-/
import Ontogram.History
import Mathlib.Logic.Function.Iterate
namespace Ontogram

/-! ### Commands and answers -/

namespace History

/-- What a history can be asked to do. -/
inductive Command (α : Type) where
  | push (value : α)
  | undo
  | redo
  | clear
deriving DecidableEq

/-- What a command is answered with. -/
inductive Reply (α : Type) where
  /-- Whether a pushed value is new. -/
  | pushed (isNew : Bool)
  /-- The value that a step arrived at, if there was a step to take. -/
  | moved (value : Option α)
  | cleared
deriving DecidableEq

/-- What can be seen of a history between commands. -/
structure View (α : Type) where
  current : Option α
  canUndo : Bool
  canRedo : Bool
  size : Nat
deriving DecidableEq

end History

open History (Command Reply View)

/-- Something that answers commands and can be looked at between them. -/
structure Editor (α σ : Type) where
  run : Command α → σ → Reply α × σ
  view : σ → View α

namespace Editor

variable {α σ : Type} (m : Editor α σ)

/-- The answers to commands one after another, each with what is seen then. -/
def transcript : List (Command α) → σ → List (Reply α × View α)
  | [], _ => []
  | c :: rest, s => ((m.run c s).1, m.view (m.run c s).2) :: transcript rest (m.run c s).2

/-- The state after commands one after another. -/
def after (commands : List (Command α)) (s : σ) : σ := commands.foldl (fun s c => (m.run c s).2) s

end Editor

/-! ### The line of values -/

/-- Values in the order in which they were made current, and the place of the current one among them. A line
without values has its cursor at the start. -/
structure Timeline (α : Type) where
  limit : Nat
  values : List α
  cursor : Nat
  cursor_le : cursor ≤ values.length - 1

namespace Timeline

variable {α : Type}

def start (limit : Nat) (initial : Option α) : Timeline α := ⟨limit, initial.toList, 0, Nat.zero_le _⟩

def current (t : Timeline α) : Option α := t.values[t.cursor]?

/-- A value that is current already changes nothing. Any other comes directly after the cursor, where the line
ends then; of the values before it only the latest stay, `limit` at most; and the cursor moves to it. -/
def push [DecidableEq α] (value : α) (t : Timeline α) : Bool × Timeline α :=
  if t.current = some value then (false, t)
  else
    let before := t.values.take (t.cursor + 1)
    let kept := before.drop (before.length - t.limit)
    (true, ⟨t.limit, kept ++ [value], kept.length, by simp⟩)

/-- One place to the left, unless the cursor is at the start. -/
def undo (t : Timeline α) : Option α × Timeline α :=
  if t.cursor = 0 then (none, t)
  else
    (t.values[t.cursor - 1]?,
      { t with cursor := t.cursor - 1, cursor_le := Nat.le_trans (Nat.sub_le _ _) t.cursor_le })

/-- One place to the right, unless the cursor is at the end. -/
def redo (t : Timeline α) : Option α × Timeline α :=
  if h : t.cursor + 1 < t.values.length then
    (t.values[t.cursor + 1]?, { t with cursor := t.cursor + 1, cursor_le := by omega })
  else (none, t)

/-- Only the current value stays. -/
def clear (t : Timeline α) : Timeline α := ⟨t.limit, t.current.toList, 0, Nat.zero_le _⟩

def view (t : Timeline α) : View α :=
  ⟨t.current, decide (0 < t.cursor), decide (t.cursor + 1 < t.values.length), t.values.length⟩

def run [DecidableEq α] : Command α → Timeline α → Reply α × Timeline α
  | .push value, t => (.pushed (t.push value).1, (t.push value).2)
  | .undo, t => (.moved t.undo.1, t.undo.2)
  | .redo, t => (.moved t.redo.1, t.redo.2)
  | .clear, t => (.cleared, t.clear)

def editor [DecidableEq α] : Editor α (Timeline α) := ⟨run, view⟩

end Timeline

/-! ### The line that a history shows -/

namespace History

variable {α : Type} {h : History α} {t : Timeline α}

def view (h : History α) : View α := ⟨h.current, h.canUndo, h.canRedo, h.size⟩

def run [DecidableEq α] : Command α → History α → Reply α × History α
  | .push value, h => (.pushed (h.push value).1, (h.push value).2)
  | .undo, h => (.moved h.undo.1, h.undo.2)
  | .redo, h => (.moved h.redo.1, h.redo.2)
  | .clear, h => (.cleared, h.clear)

def editor [DecidableEq α] : Editor α (History α) := ⟨run, view⟩

/-- The history shows the line: its past lies before the cursor and its future after it, both fit into the limit
together, and without a current value there is neither. -/
structure Shows (h : History α) (t : Timeline α) : Prop where
  limit_eq : t.limit = h.limit
  values_eq : t.values = h.past.reverse ++ (h.current.toList ++ h.future)
  cursor_eq : t.cursor = h.past.length
  room : h.past.length + h.future.length ≤ h.limit
  idle : h.current = none → h.past = [] ∧ h.future = []

theorem shows_start (limit : Nat) (initial : Option α) :
    Shows ⟨limit, [], initial, []⟩ (Timeline.start limit initial) :=
  ⟨rfl, by simp [Timeline.start], rfl, Nat.zero_le _, fun _ => ⟨rfl, rfl⟩⟩

theorem Shows.current_eq (hs : h.Shows t) : t.current = h.current := by
  rw [Timeline.current, hs.values_eq, hs.cursor_eq]
  rw [List.getElem?_append_right (by simp), List.length_reverse, Nat.sub_self]
  cases hcurrent : h.current with
  | some v => rfl
  | none =>
    obtain ⟨-, hfuture⟩ := hs.idle hcurrent
    simp [hfuture]

theorem Shows.length_eq (hs : h.Shows t) : t.values.length = h.size := by
  have hlength := congrArg List.length hs.values_eq
  simp only [List.length_append, List.length_reverse] at hlength
  rw [History.size]
  omega

/-- A history and the line that it shows look the same. -/
theorem Shows.view_eq (hs : h.Shows t) : h.view = t.view := by
  have hundo : h.canUndo = decide (0 < t.cursor) := by
    rw [canUndo, hs.cursor_eq]
    cases h.past <;> simp
  have hredo : h.canRedo = decide (t.cursor + 1 < t.values.length) := by
    rw [canRedo, hs.length_eq, hs.cursor_eq, History.size]
    cases hcurrent : h.current with
    | some v => cases h.future <;> simp
    | none =>
      obtain ⟨hpast, hfuture⟩ := hs.idle hcurrent
      simp [hpast, hfuture]
  rw [History.view, Timeline.view, hs.current_eq, hs.length_eq, hundo, hredo, hs.length_eq]

/-- The values up to the cursor are the past and the current value. -/
theorem Shows.take_cursor (hs : h.Shows t) :
    t.values.take (t.cursor + 1) = (h.current.toList ++ h.past).reverse := by
  rw [hs.values_eq, hs.cursor_eq]
  cases hcurrent : h.current with
  | some v =>
    have hlength : (h.past.reverse ++ [v]).length = h.past.length + 1 := by simp
    rw [Option.toList_some, ← List.append_assoc, ← hlength, List.take_left]
    simp
  | none =>
    obtain ⟨hpast, hfuture⟩ := hs.idle hcurrent
    simp [hpast, hfuture]

/-- Where the past fits into the limit, one value more drops the oldest one at most. -/
theorem extendedPast_eq_take (hroom : h.past.length ≤ h.limit) :
    h.extendedPast = (h.current.toList ++ h.past).take h.limit := by
  rw [extendedPast]
  cases h.current with
  | none => exact (List.take_of_length_le hroom).symm
  | some value =>
    simp only
    split
    · rename_i hfull
      have hlength : h.limit = h.past.length := Nat.le_antisymm (Nat.le_of_lt_succ hfull) hroom
      rw [List.dropLast_eq_take, List.length_cons, Nat.add_sub_cancel, hlength]
      rfl
    · rename_i hfits
      exact (List.take_of_length_le (Nat.not_lt.mp hfits)).symm

theorem Shows.push [DecidableEq α] (hs : h.Shows t) (value : α) :
    (t.push value).1 = (h.push value).1 ∧ (h.push value).2.Shows (t.push value).2 := by
  unfold Timeline.push History.push
  rw [hs.current_eq, extendedPast_eq_take (Nat.le_of_add_right_le hs.room)]
  by_cases hsame : h.current = some value
  · rw [if_pos hsame, if_pos hsame]
    exact ⟨rfl, hs⟩
  · rw [if_neg hsame, if_neg hsame]
    -- dropping from the oldest end of the line keeps the upper part of the stack
    have hkept : (t.values.take (t.cursor + 1)).drop ((t.values.take (t.cursor + 1)).length - t.limit) =
        ((h.current.toList ++ h.past).take h.limit).reverse := by
      rw [hs.take_cursor, hs.limit_eq, List.reverse_take, List.length_reverse]
    refine ⟨rfl, hs.limit_eq, ?_, ?_, List.length_take_le _ _, fun hnone => by cases hnone⟩
    · show (t.values.take (t.cursor + 1)).drop _ ++ [value] = _
      rw [hkept]
      simp
    · show ((t.values.take (t.cursor + 1)).drop _).length = _
      rw [hkept, List.length_reverse]

theorem Shows.undo (hs : h.Shows t) : t.undo.1 = h.undo.1 ∧ h.undo.2.Shows t.undo.2 := by
  obtain ⟨limit, past, current, future⟩ := h
  cases past with
  | nil =>
    have hcursor : t.cursor = 0 := hs.cursor_eq
    rw [Timeline.undo, if_pos hcursor]
    exact ⟨rfl, hs⟩
  | cons value past =>
    have hcursor : t.cursor = past.length + 1 := hs.cursor_eq
    have hvalues : t.values = past.reverse ++ ([value] ++ (current.toList ++ future)) := by
      rw [hs.values_eq]
      simp
    rw [Timeline.undo, if_neg (by omega)]
    refine ⟨?_, hs.limit_eq, hvalues, ?_, ?_, fun hnone => by cases hnone⟩
    · show t.values[t.cursor - 1]? = some value
      rw [hvalues, hcursor, Nat.add_sub_cancel]
      rw [List.getElem?_append_right (by simp), List.length_reverse, Nat.sub_self]
      rfl
    · show t.cursor - 1 = past.length
      omega
    · -- what leaves the past joins the future
      have hroom : past.length + 1 + future.length ≤ limit := hs.room
      have hcurrent : current.toList.length ≤ 1 := by cases current <;> simp
      show past.length + (current.toList ++ future).length ≤ limit
      rw [List.length_append]
      omega

theorem Shows.redo (hs : h.Shows t) : t.redo.1 = h.redo.1 ∧ h.redo.2.Shows t.redo.2 := by
  obtain ⟨limit, past, current, future⟩ := h
  have hcursor : t.cursor = past.length := hs.cursor_eq
  have hlength : t.values.length = past.length + future.length + current.toList.length := hs.length_eq
  cases future with
  | nil =>
    have hend : ¬ t.cursor + 1 < t.values.length := by
      have hcurrent : current.toList.length ≤ 1 := by cases current <;> simp
      rw [List.length_nil] at hlength
      omega
    rw [Timeline.redo, dif_neg hend]
    exact ⟨rfl, hs⟩
  | cons value future =>
    cases current with
    | none =>
      -- without a current value there would be nothing to redo
      obtain ⟨-, hfuture⟩ := hs.idle rfl
      cases hfuture
    | some v =>
      rw [Option.toList_some, List.length_cons, List.length_singleton] at hlength
      have hvalues : t.values = (v :: past).reverse ++ ([value] ++ future) := by
        rw [hs.values_eq]
        simp
      rw [Timeline.redo, dif_pos (by omega)]
      refine ⟨?_, hs.limit_eq, hvalues, ?_, ?_, fun hnone => by cases hnone⟩
      · show t.values[t.cursor + 1]? = some value
        rw [hvalues, hcursor, ← List.length_cons (a := v)]
        rw [List.getElem?_append_right (by simp), List.length_reverse, Nat.sub_self]
        rfl
      · show t.cursor + 1 = (v :: past).length
        rw [hcursor, List.length_cons]
      · have hroom : past.length + (future.length + 1) ≤ limit := hs.room
        show past.length + 1 + future.length ≤ limit
        omega

theorem Shows.clear (hs : h.Shows t) : h.clear.Shows t.clear := by
  refine ⟨hs.limit_eq, ?_, rfl, Nat.zero_le _, fun _ => ⟨rfl, rfl⟩⟩
  show t.current.toList = _
  rw [hs.current_eq]
  simp [History.clear]

/-- A command is answered alike, and leaves the history showing the line. -/
theorem Shows.run [DecidableEq α] (hs : h.Shows t) (c : Command α) :
    (t.run c).1 = (h.run c).1 ∧ (h.run c).2.Shows (t.run c).2 := by
  cases c with
  | push value =>
    obtain ⟨hreply, hnext⟩ := hs.push value
    exact ⟨congrArg Reply.pushed hreply, hnext⟩
  | undo =>
    obtain ⟨hreply, hnext⟩ := hs.undo
    exact ⟨congrArg Reply.moved hreply, hnext⟩
  | redo =>
    obtain ⟨hreply, hnext⟩ := hs.redo
    exact ⟨congrArg Reply.moved hreply, hnext⟩
  | clear => exact ⟨rfl, hs.clear⟩

theorem Shows.transcript_eq [DecidableEq α] (hs : h.Shows t) (commands : List (Command α)) :
    editor.transcript commands h = Timeline.editor.transcript commands t := by
  induction commands generalizing h t with
  | nil => rfl
  | cons c rest ih =>
    obtain ⟨hreply, hnext⟩ := hs.run c
    show ((h.run c).1, (h.run c).2.view) :: editor.transcript rest (h.run c).2 =
      ((t.run c).1, (t.run c).2.view) :: Timeline.editor.transcript rest (t.run c).2
    rw [hreply, hnext.view_eq, ih hnext]

theorem Shows.after [DecidableEq α] (hs : h.Shows t) (commands : List (Command α)) :
    (editor.after commands h).Shows (Timeline.editor.after commands t) := by
  induction commands generalizing h t with
  | nil => exact hs
  | cons c rest ih => exact ih (hs.run c).2

/-! ### As many steps back as forth -/

/-- The history after a step back, if there is one to take. -/
def back (h : History α) : History α := h.undo.2

/-- The history after a step forth, if there is one to take. -/
def forth (h : History α) : History α := h.redo.2

theorem Shows.forth_back (hs : h.Shows t) (hcan : h.canUndo = true) : h.back.forth = h := by
  obtain ⟨limit, past, current, future⟩ := h
  cases past with
  | nil => cases hcan
  | cons value past =>
    cases current with
    | some v => rfl
    | none =>
      obtain ⟨hpast, -⟩ := hs.idle rfl
      cases hpast

theorem Shows.back_forth (hs : h.Shows t) (hcan : h.canRedo = true) : h.forth.back = h := by
  obtain ⟨limit, past, current, future⟩ := h
  cases future with
  | nil => cases hcan
  | cons value future =>
    cases current with
    | some v => rfl
    | none =>
      obtain ⟨-, hfuture⟩ := hs.idle rfl
      cases hfuture

/-- Steps `f` that are all possible, as `Q` says, are undone by steps `g`, the last one first, if each single one
is; `P` is kept on the way. -/
theorem iterate_iterate {σ : Type} {f g : σ → σ} {P Q : σ → Prop} (hf : ∀ s, P s → P (f s))
    (hg : ∀ s, P s → Q s → g (f s) = s) {k : Nat} {s : σ} (hs : P s) (hk : ∀ i < k, Q (f^[i] s)) :
    g^[k] (f^[k] s) = s := by
  induction k generalizing s with
  | zero => rfl
  | succ k ih =>
    have hrest : ∀ i < k, Q (f^[i] (f s)) := by
      intro i hi
      rw [← Function.iterate_succ_apply]
      exact hk (i + 1) (Nat.succ_lt_succ hi)
    calc g^[k + 1] (f^[k + 1] s)
        = g (g^[k] (f^[k] (f s))) := by rw [Function.iterate_succ_apply', Function.iterate_succ_apply]
      _ = g (f s) := by rw [ih (hf s hs) hrest]
      _ = s := hg s hs (hk 0 (Nat.succ_pos k))

theorem Shows.iterate_forth_iterate_back (hs : h.Shows t) {k : Nat}
    (hk : ∀ i < k, (back^[i] h).canUndo = true) : forth^[k] (back^[k] h) = h := by
  refine iterate_iterate (P := fun h => ∃ t, h.Shows t) (Q := fun h => h.canUndo = true) ?_ ?_ ⟨t, hs⟩ hk
  · rintro h ⟨t, hs⟩
    exact ⟨_, hs.undo.2⟩
  · rintro h ⟨t, hs⟩ hcan
    exact hs.forth_back hcan

theorem Shows.iterate_back_iterate_forth (hs : h.Shows t) {k : Nat}
    (hk : ∀ i < k, (forth^[i] h).canRedo = true) : back^[k] (forth^[k] h) = h := by
  refine iterate_iterate (P := fun h => ∃ t, h.Shows t) (Q := fun h => h.canRedo = true) ?_ ?_ ⟨t, hs⟩ hk
  · rintro h ⟨t, hs⟩
    exact ⟨_, hs.redo.2⟩
  · rintro h ⟨t, hs⟩ hcan
    exact hs.back_forth hcan

/-! ### Whatever is asked of a history -/

/-- The history behaves as the line does, whatever it is asked. -/
structure Follows [DecidableEq α] (h : History α) (t : Timeline α) : Prop where
  view_eq : h.view = t.view
  /-- To all commands the same is answered, and the same is seen after each of them. -/
  transcript_eq : ∀ commands, editor.transcript commands h = Timeline.editor.transcript commands t
  /-- At any time a value that is current already changes nothing, what was undone included. -/
  push_current : ∀ commands v, (editor.after commands h).current = some v →
    (editor.after commands h).push v = (false, editor.after commands h)
  /-- At any time steps back, if they are possible, and as many steps forth restore the whole history. -/
  forth_back : ∀ commands k, (∀ i < k, (back^[i] (editor.after commands h)).canUndo = true) →
    forth^[k] (back^[k] (editor.after commands h)) = editor.after commands h
  back_forth : ∀ commands k, (∀ i < k, (forth^[i] (editor.after commands h)).canRedo = true) →
    back^[k] (forth^[k] (editor.after commands h)) = editor.after commands h

theorem Shows.follows [DecidableEq α] (hs : h.Shows t) : h.Follows t where
  view_eq := hs.view_eq
  transcript_eq := hs.transcript_eq
  push_current commands v hv := by rw [History.push, if_pos hv]
  forth_back commands _ := (hs.after commands).iterate_forth_iterate_back
  back_forth commands _ := (hs.after commands).iterate_back_iterate_forth

/-- **A history is a line of values with a cursor.** With room for a step back there is a new history, and it
follows the line that starts with its value, if it has one. -/
theorem follows_timeline [DecidableEq α] {limit : Int} (hlimit : 1 ≤ limit) (initial : Option α) :
    ∃ h, start? limit initial = .ok h ∧ h.Follows (Timeline.start limit.toNat initial) := by
  refine ⟨⟨limit.toNat, [], initial, []⟩, ?_, (shows_start limit.toNat initial).follows⟩
  rw [start?, if_neg (Int.not_lt.mpr hlimit)]

/-- Of four values in a history with room for two steps back the first is dropped, a step forth is taken after
two steps back, and a value that is current already is no new one. -/
theorem follows_timeline_dropping : (1 : Int) ≤ 2 ∧ ∃ h, start? 2 (some 'a') = .ok h ∧
    h.Follows (Timeline.start 2 (some 'a')) ∧
    (editor.transcript [.push 'b', .push 'c', .push 'd', .undo, .undo, .undo, .redo, .push 'c', .redo] h).map
      (fun e => (e.1, e.2.current)) =
      [(.pushed true, some 'b'), (.pushed true, some 'c'), (.pushed true, some 'd'),
        (.moved (some 'c'), some 'c'), (.moved (some 'b'), some 'b'), (.moved none, some 'b'),
        (.moved (some 'c'), some 'c'), (.pushed false, some 'c'), (.moved (some 'd'), some 'd')] := by
  have hlimit : (1 : Int) ≤ 2 := by decide
  obtain ⟨h, hstart, hfollows⟩ := follows_timeline hlimit (some 'a')
  refine ⟨hlimit, h, hstart, hfollows, ?_⟩
  rw [hfollows.transcript_eq]
  decide

end History

end Ontogram

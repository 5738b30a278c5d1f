/-
Undo and redo.

A history holds a current value, the values before it and the values that were undone, latest first. It
keeps a limited number of values before the current one:

* `History.push` — a new value; what was undone is forgotten, and a value that is current already
  changes nothing;
* `History.undo`, `History.redo` — one step back, one step forward;
* `History.start?` — a history needs room for at least one step.
-/
import Ontogram.Text.Basic
namespace Ontogram

structure History (α : Type) where
  limit : Nat
  /-- Values before the current one, latest first. -/
  past : List α
  current : Option α
  /-- Undone values, the next one to redo first. -/
  future : List α
deriving DecidableEq

namespace History

/-- A limit that leaves no room for a step back. -/
inductive LimitError where
  | tooSmall
deriving DecidableEq

def LimitError.message : LimitError → Text
  | .tooSmall => "history limit must be at least 1"

/-- The number of steps back that are kept unless said otherwise. -/
def defaultLimit : Int := 100

variable {α : Type}

/-- A history without past and future. -/
def start? (limit : Int) (initial : Option α) : Except LimitError (History α) :=
  if limit < 1 then .error .tooSmall else .ok ⟨limit.toNat, [], initial, []⟩

def canUndo (h : History α) : Bool := !h.past.isEmpty

def canRedo (h : History α) : Bool := !h.future.isEmpty

/-- The number of values held. -/
def size (h : History α) : Nat := h.past.length + h.future.length + h.current.toList.length

/-- The values before a new one: the current value joins them, and if they are too many then the oldest
goes. -/
def extendedPast (h : History α) : List α :=
  match h.current with
  | none => h.past
  | some value =>
    let past := value :: h.past
    if h.limit < past.length then past.dropLast else past

/-- Make a value current; answers whether it was not so already. -/
def push [DecidableEq α] (value : α) (h : History α) : Bool × History α :=
  if h.current = some value then (false, h)
  else (true, ⟨h.limit, h.extendedPast, some value, []⟩)

/-- The value before the current one becomes current. -/
def undo (h : History α) : Option α × History α :=
  match h.past with
  | [] => (none, h)
  | value :: past => (some value, ⟨h.limit, past, some value, h.current.toList ++ h.future⟩)

/-- The value undone last becomes current again. -/
def redo (h : History α) : Option α × History α :=
  match h.future with
  | [] => (none, h)
  | value :: future => (some value, ⟨h.limit, h.current.toList ++ h.past, some value, future⟩)

/-- Only the current value stays. -/
def clear (h : History α) : History α := ⟨h.limit, [], h.current, []⟩

end History

end Ontogram

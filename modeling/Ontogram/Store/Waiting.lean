/-
Waiting for a change.

A task waits for a version above the one it knows. It looks at the version, and parks if that is not
above its own; a change releases every parked task, which then looks again:

* `Waiter.look` — one look at the version;
* `WaitingRoom.announce` — a change of the version;
* `WaitingRoom.join` — a further task.
-/
import Ontogram.Store.Basic
namespace Ontogram

/-- Where a waiting task stands. -/
inductive WaitPhase where
  /-- About to look at the version, either first or after a release. -/
  | looking
  | parked
  | finished (version : Nat)
deriving DecidableEq

/-- A task that waits for a version above `since`. -/
structure Waiter where
  since : Int
  phase : WaitPhase
deriving DecidableEq

namespace Waiter

/-- A task that looks ends with the version if that is above its own, and parks if not. -/
def look (version : Nat) (w : Waiter) : Waiter :=
  match w.phase with
  | .looking => { w with phase := if w.since < version then .finished version else .parked }
  | _ => w

def release (w : Waiter) : Waiter :=
  match w.phase with
  | .parked => { w with phase := .looking }
  | _ => w

/-- The version that a task ended with. -/
def result? (w : Waiter) : Option Nat :=
  match w.phase with
  | .finished version => some version
  | _ => none

end Waiter

/-- The version and the tasks that wait for it to change. -/
structure WaitingRoom where
  version : Nat
  waiters : List Waiter
deriving DecidableEq

namespace WaitingRoom

def join (since : Int) (r : WaitingRoom) : WaitingRoom :=
  { r with waiters := r.waiters ++ [⟨since, .looking⟩] }

/-- The `i`-th task looks. -/
def run (i : Nat) (r : WaitingRoom) : WaitingRoom :=
  { r with waiters := r.waiters.modify i (Waiter.look r.version) }

/-- A change: the version grows and every parked task is released. -/
def announce (r : WaitingRoom) : WaitingRoom :=
  ⟨r.version + 1, r.waiters.map Waiter.release⟩

end WaitingRoom

namespace Store

/-- Does a wait for a version above the given one end, and with which version? -/
def awaited (since : Int) (s : Store) : Option Nat :=
  (Waiter.look s.version ⟨since, .looking⟩).result?

/-- Put a document while a task waits for a version above the present one; answers also what that task
ended with, if it did. -/
def putWhileWaiting (id : Text) (v : Json) (s : Store) :
    Answer ((Text × Bool) × Option Nat) :=
  let waiter := Waiter.look s.version ⟨s.version, .looking⟩
  match s.put id v with
  | (.error e, s) => (.error e, s)
  | (.ok answer, s) =>
    let waiter := if answer.2 then Waiter.look s.version waiter.release else waiter
    (.ok (answer, waiter.result?), s)

end Store

end Ontogram

/-
Tasks that wait for a change.

All tasks that wait at a store share one event. A task that finds no version above its own clears the event
and then waits for it, a change sets it, and between the two any other task may come and clear it again. No
task sleeps through a change for that:

* `Event` — what is set, cleared and waited for;
* `Lobby`, `Move` — a store with its event and its tasks, and what can happen there, one thing at a time;
* `Lobby.room_resume`, `Lobby.room_operate` — without the event the tasks behave alike: a waiting room shows
  everything;
* `Waiter.IsSettled` — a parked task waits for a version that has not come, and a finished one has its
  version; looking and being released keep that so;
* `no_wake_up_lost` — it holds whatever happens, and a task whose version has come ends when it next goes on.
-/
import Ontogram.Proofs.Effects
import Ontogram.Store.Waiting
namespace Ontogram

/-- An event that tasks wait for. -/
structure Event where
  isSet : Bool
deriving DecidableEq

namespace Event

def set (_ : Event) : Event := ⟨true⟩

def clear (_ : Event) : Event := ⟨false⟩

/-- A task that waits for the event goes on at once if it is set, and is parked if not. -/
def wait (w : Waiter) (e : Event) : Waiter := if e.isSet then w else { w with phase := .parked }

end Event

/-- A task goes on until it ends or is parked. While the version is not above its own, it clears the event and
waits for it. -/
def Waiter.goOn (version : Nat) (e : Event) (w : Waiter) : Waiter × Event :=
  if w.since < version then ({ w with phase := .finished version }, e) else (e.clear.wait w, e.clear)

/-- A store with all tasks that wait for a change of it. -/
structure Lobby where
  store : Store
  /-- The event that the tasks share; the first one that looks makes it. -/
  event : Option Event
  waiters : List Waiter

/-- What can happen in a lobby. -/
inductive Move where
  /-- A task begins to wait for a version above the given one. -/
  | join (since : Int)
  /-- The task goes on, if it is not parked and has not ended. -/
  | resume (i : Nat)
  /-- The task is given up. -/
  | leave (i : Nat)
  | operate (op : Store.Operation)

namespace Lobby

/-- No task has come yet. -/
def new (s : Store) : Lobby := ⟨s, none, []⟩

def join (since : Int) (l : Lobby) : Lobby := { l with waiters := l.waiters ++ [⟨since, .looking⟩] }

def resume (i : Nat) (l : Lobby) : Lobby :=
  match l.waiters[i]? with
  | some ⟨since, .looking⟩ =>
    let (w, e) := Waiter.goOn l.store.version (l.event.getD ⟨false⟩) ⟨since, .looking⟩
    { l with event := some e, waiters := l.waiters.set i w }
  | _ => l

def leave (i : Nat) (l : Lobby) : Lobby := { l with waiters := l.waiters.eraseIdx i }

/-- If there is an event, it is set, and all tasks that are parked go on. -/
def notify (l : Lobby) : Lobby :=
  match l.event with
  | none => l
  | some e => { l with event := some e.set, waiters := l.waiters.map Waiter.release }

/-- A change of the version is made known. -/
def operate (op : Store.Operation) (l : Lobby) : Lobby :=
  if (op.run l.store).version = l.store.version then { l with store := op.run l.store }
  else notify { l with store := op.run l.store }

def run : Move → Lobby → Lobby
  | .join since => join since
  | .resume i => resume i
  | .leave i => leave i
  | .operate op => operate op

/-- The lobby after moves one after another. -/
def runAll (moves : List Move) (l : Lobby) : Lobby := moves.foldl (fun l move => run move l) l

/-- The lobby without its event. -/
def room (l : Lobby) : WaitingRoom := ⟨l.store.version, l.waiters⟩

end Lobby

namespace Waiter

variable {w : Waiter} {version : Nat}

/-- As the event was just cleared, a task that waits is parked. -/
theorem goOn_fst (since : Int) (version : Nat) (e : Event) :
    (goOn version e ⟨since, .looking⟩).1 = look version ⟨since, .looking⟩ := by
  by_cases h : since < version
  · rw [goOn, if_pos h, look, if_pos h]
  · rw [goOn, if_neg h, look, if_neg h]
    rfl

theorem look_eq_self (h : w.phase ≠ .looking) : w.look version = w := by
  obtain ⟨since, phase⟩ := w
  cases phase with
  | looking => exact absurd rfl h
  | parked => rfl
  | finished _ => rfl

theorem release_eq_self (h : w.phase ≠ .parked) : w.release = w := by
  obtain ⟨since, phase⟩ := w
  cases phase with
  | looking => rfl
  | parked => exact absurd rfl h
  | finished _ => rfl

/-- A parked task waits for a version that has not come; one that has ended did so with a version above its
own that had come. -/
def IsSettled (version : Nat) (w : Waiter) : Prop :=
  match w.phase with
  | .looking => True
  | .parked => version ≤ w.since
  | .finished v => w.since < v ∧ v ≤ version

theorem IsSettled.look (h : w.IsSettled version) : (w.look version).IsSettled version := by
  obtain ⟨since, phase⟩ := w
  cases phase with
  | looking =>
    by_cases hsince : since < version
    · rw [Waiter.look, if_pos hsince]
      exact ⟨hsince, Nat.le_refl _⟩
    · rw [Waiter.look, if_neg hsince]
      exact Int.not_lt.mp hsince
  | parked => exact h
  | finished v => exact h

/-- With a further version nobody may stay parked. -/
theorem IsSettled.release (h : w.IsSettled version) : w.release.IsSettled (version + 1) := by
  obtain ⟨since, phase⟩ := w
  cases phase with
  | looking => trivial
  | parked => trivial
  | finished v => exact ⟨h.1, Nat.le_succ_of_le h.2⟩

end Waiter

namespace Lobby

variable {l : Lobby}

/-! ### The lobby without its event -/

/-- A task that goes on does what a look at the version does. -/
theorem room_resume (i : Nat) : (l.resume i).room = l.room.run i := by
  -- a task that is parked or has ended is not moved by a look
  have hwaiters : (l.resume i).waiters = l.waiters.modify i (Waiter.look l.store.version) := by
    apply List.ext_getElem?
    intro j
    rw [List.getElem?_modify]
    unfold resume
    split
    · rename_i since hw
      show (l.waiters.set i (Waiter.goOn _ _ _).1)[j]? = _
      rw [List.getElem?_set, Waiter.goOn_fst]
      by_cases hij : i = j
      · subst hij
        have hi : i < l.waiters.length := (List.getElem?_eq_some_iff.mp hw).1
        simp only [if_pos hi, hw, Option.map_eq_map, Option.map_some, if_true]
      · simp [hij]
    · rename_i hnot
      by_cases hij : i = j
      · subst hij
        cases hw : l.waiters[i]? with
        | none => rfl
        | some w =>
          have hphase : w.phase ≠ .looking := by
            rintro hlooking
            exact hnot w.since (hw.trans (by rw [← hlooking]))
          simp [Waiter.look_eq_self hphase]
      · simp [hij]
  have hstore : (l.resume i).store = l.store := by
    unfold resume
    split <;> rfl
  rw [room, room, hwaiters, hstore]
  rfl

/-- Nobody is parked before there is an event, and every task is where it should be. -/
structure Invariant (l : Lobby) : Prop where
  settled : ∀ w ∈ l.room.waiters, w.IsSettled l.room.version
  nobody_parked : l.event = none → ∀ w ∈ l.waiters, w.phase ≠ .parked

/-- An operation that is no change leaves the tasks alone, any other is announced to all of them: without an
event there is nobody to release. -/
theorem room_operate (h : l.Invariant) (op : Store.Operation) :
    (l.operate op).room = l.room ∨ (l.operate op).room = l.room.announce := by
  unfold operate
  split
  · rename_i hversion
    exact .inl (congrArg (WaitingRoom.mk · l.waiters) hversion)
  · rename_i hversion
    have hnext : (op.run l.store).version = l.store.version + 1 :=
      (Store.version_run op l.store).resolve_left hversion
    refine .inr ?_
    cases hevent : l.event with
    | none =>
      -- all tasks are still to look for the first time, or ended with that look
      have hwaiters : l.waiters.map Waiter.release = l.waiters := by
        refine (List.map_congr_left fun w hw => ?_).trans (List.map_id _)
        exact Waiter.release_eq_self (h.nobody_parked hevent w hw)
      simp only [notify, room, WaitingRoom.announce, hnext, hwaiters]
    | some e => simp only [notify, room, WaitingRoom.announce, hnext]

/-! ### Whatever happens in a lobby -/

theorem settled_announce {r : WaitingRoom} (h : ∀ w ∈ r.waiters, w.IsSettled r.version) :
    ∀ w ∈ r.announce.waiters, w.IsSettled r.announce.version := by
  intro w hw
  obtain ⟨u, hu, rfl⟩ := List.mem_map.mp hw
  exact (h u hu).release

theorem settled_run {r : WaitingRoom} (h : ∀ w ∈ r.waiters, w.IsSettled r.version) (i : Nat) :
    ∀ w ∈ (r.run i).waiters, w.IsSettled (r.run i).version := by
  intro w hw
  obtain ⟨j, hj⟩ := List.mem_iff_getElem?.mp hw
  have hmodify : (r.run i).waiters = r.waiters.modify i (Waiter.look r.version) := rfl
  rw [hmodify, List.getElem?_modify] at hj
  obtain ⟨u, hu, rfl⟩ := Option.map_eq_some_iff.mp hj
  have hsettled := h u (List.mem_of_getElem? hu)
  split
  · exact hsettled.look
  · exact hsettled

theorem Invariant.resume (h : l.Invariant) (i : Nat) : (l.resume i).Invariant := by
  refine ⟨?_, fun hevent => ?_⟩
  · rw [room_resume]
    exact settled_run h.settled i
  · unfold Lobby.resume at hevent ⊢
    split at hevent
    · cases hevent
    · exact h.nobody_parked hevent

theorem Invariant.operate (h : l.Invariant) (op : Store.Operation) : (l.operate op).Invariant := by
  refine ⟨?_, fun hevent => ?_⟩
  · rcases room_operate h op with hroom | hroom
    · rw [hroom]
      exact h.settled
    · rw [hroom]
      exact settled_announce h.settled
  · unfold Lobby.operate at hevent ⊢
    by_cases hversion : (op.run l.store).version = l.store.version
    · rw [if_pos hversion] at hevent ⊢
      exact h.nobody_parked hevent
    · rw [if_neg hversion] at hevent ⊢
      unfold notify at hevent ⊢
      split at hevent
      · exact h.nobody_parked hevent
      · cases hevent

theorem Invariant.run (h : l.Invariant) (move : Move) : (Lobby.run move l).Invariant := by
  cases move with
  | join since =>
    have hmem : ∀ w ∈ (l.join since).waiters, w ∈ l.waiters ∨ w = ⟨since, .looking⟩ := fun w hw =>
      (List.mem_append.mp hw).imp_right List.mem_singleton.mp
    refine ⟨fun w hw => ?_, fun hevent w hw => ?_⟩
    · rcases hmem w hw with hw | rfl
      · exact h.settled w hw
      · trivial
    · rcases hmem w hw with hw | rfl
      · exact h.nobody_parked hevent w hw
      · exact WaitPhase.noConfusion
  | resume i => exact h.resume i
  | leave i =>
    exact ⟨fun w hw => h.settled w (List.mem_of_mem_eraseIdx hw),
      fun hevent w hw => h.nobody_parked hevent w (List.mem_of_mem_eraseIdx hw)⟩
  | operate op => exact h.operate op

theorem invariant_new (s : Store) : (new s).Invariant :=
  ⟨List.forall_mem_nil _, fun _ => List.forall_mem_nil _⟩

theorem Invariant.runAll (h : l.Invariant) (moves : List Move) : (runAll moves l).Invariant := by
  induction moves generalizing l with
  | nil => exact h
  | cons move rest ih => exact ih (h.run move)

/-- A task whose version has come is not parked, and ends when it goes on. -/
theorem Invariant.ends (h : l.Invariant) {i : Nat} {w : Waiter} (hw : l.waiters[i]? = some w)
    (hgoing : w.result? = none) (hcome : w.since < l.store.version) :
    w.phase = .looking ∧ (l.resume i).waiters[i]? = some ⟨w.since, .finished l.store.version⟩ := by
  have hsettled := h.settled w (List.mem_of_getElem? hw)
  obtain ⟨since, phase⟩ := w
  cases phase with
  | looking =>
    have hwaiters : (l.resume i).waiters = l.waiters.modify i (Waiter.look l.store.version) :=
      congrArg WaitingRoom.waiters (room_resume (l := l) i)
    refine ⟨rfl, ?_⟩
    rw [hwaiters, List.getElem?_modify_eq, hw, Option.map_eq_map, Option.map_some, Waiter.look, if_pos hcome]
  | parked =>
    -- a parked task would have been released when its version came
    exact absurd hsettled (Int.not_le.mpr hcome)
  | finished v => cases hgoing

theorem version_of_put {s t : Store} {id : Text} {v : Json} {text : Text} {isNew : Bool}
    (h : s.put id v = (.ok (text, isNew), t)) : t.version = if isNew then s.version + 1 else s.version := by
  rcases Store.put_cases (s := s) id v with ⟨_, -, hput⟩ | ⟨c, hist, -, -, ⟨-, hput⟩ | ⟨-, hput⟩⟩
  · cases hput.symm.trans h
  · cases hput.symm.trans h
    rfl
  · rcases Store.changed_cases (c.canonical, true)
        (s.withRecord (.text id) (hist.push (.str c.canonical)).2 (.str c.canonical)) with
      ⟨-, hchanged⟩ | ⟨-, fault, hchanged⟩
    · cases (hput.trans hchanged).symm.trans h
      rfl
    · cases (hput.trans hchanged).symm.trans h

/-- What is answered about one task during which a document is put is what the task gets in a lobby, where it
goes on before and after. -/
theorem result_putWhileWaiting {s t : Store} {id : Text} {v : Json} {answer : Text × Bool}
    {ended : Option Nat} (h : s.putWhileWaiting id v = (.ok (answer, ended), t)) :
    (runAll [.join s.version, .resume 0, .operate (.put id v), .resume 0] (new s)).waiters.map
      Waiter.result? = [ended] := by
  have hparked : runAll [.join s.version, .resume 0] (new s) = ⟨s, some ⟨false⟩, [⟨s.version, .parked⟩]⟩ := by
    show resume 0 ⟨s, none, [⟨s.version, .looking⟩]⟩ = _
    simp [resume, Waiter.goOn, Event.wait, Event.clear]
  show (runAll [.operate (.put id v), .resume 0]
    (runAll [.join s.version, .resume 0] (new s))).waiters.map _ = _
  rw [hparked]
  unfold Store.putWhileWaiting at h
  split at h
  · cases h
  · rename_i found u hput
    obtain ⟨text, isNew⟩ := found
    have hversion := version_of_put hput
    have hstore : (Store.Operation.put id v).run s = u := congrArg Prod.snd hput
    have hlook : Waiter.look s.version ⟨s.version, .looking⟩ = ⟨s.version, .parked⟩ := by simp [Waiter.look]
    simp only [hlook, Prod.mk.injEq, Except.ok.injEq] at h
    obtain ⟨⟨rfl, rfl⟩, rfl⟩ := h
    show List.map _ (resume 0 (operate (.put id v) ⟨s, some ⟨false⟩, [⟨s.version, .parked⟩]⟩)).waiters = _
    cases isNew with
    | false =>
      have hsame : u.version = s.version := hversion
      rw [operate, hstore, if_pos hsame]
      rfl
    | true =>
      have hnext : u.version = s.version + 1 := hversion
      have hcome : (s.version : Int) < u.version := by omega
      rw [operate, hstore, if_neg (by rw [hnext]; exact Nat.succ_ne_self _)]
      simp [notify, resume, Waiter.release, Waiter.goOn, Waiter.look, hcome]

/-- Nobody sleeps through a change. -/
structure MissesNothing (l : Lobby) : Prop where
  /-- Whoever is parked waits for a version that has not come. -/
  parked : ∀ w ∈ l.waiters, w.phase = .parked → l.store.version ≤ w.since
  /-- Whoever has ended has a version above its own, and that has come. -/
  ended : ∀ w ∈ l.waiters, ∀ version, w.phase = .finished version →
    w.since < version ∧ version ≤ l.store.version
  /-- Whoever has not ended though its version has come does so when it goes on, and it can go on. -/
  ends : ∀ (i : Nat) (w : Waiter), l.waiters[i]? = some w → w.result? = none → w.since < l.store.version →
    w.phase = .looking ∧ (l.resume i).waiters[i]? = some ⟨w.since, .finished l.store.version⟩

/-- **No wake-up is lost.** Any number of tasks wait at a store for versions above any numbers. They come, go
on and are given up one at a time, between operations of the store and in any order. Nobody sleeps through a
change. -/
theorem no_wake_up_lost (s : Store) (moves : List Move) : (runAll moves (new s)).MissesNothing := by
  have h := (invariant_new s).runAll moves
  refine ⟨fun w hw hphase => ?_, fun w hw version hphase => ?_, fun i w hw hgoing hcome => ?_⟩
  · have hsettled := h.settled w hw
    rw [Waiter.IsSettled, hphase] at hsettled
    exact hsettled
  · have hsettled := h.settled w hw
    rw [Waiter.IsSettled, hphase] at hsettled
    exact hsettled
  · exact h.ends hw hgoing hcome

/-- Two tasks wait, and the canvas is moved. The one that waits for more goes on first, and clears the event
that the other one was released by. -/
def sharedEvent : List Move :=
  [.join 0, .join 1, .resume 0, .resume 1,
    .operate (.setScene (.obj [("x", .int 1), ("y", .int 0), ("k", .int 1)])), .resume 1, .resume 0]

theorem no_wake_up_lost_shared :
    let l := runAll sharedEvent (new ⟨100, [], [], StateFile.defaultScene, 0, none⟩)
    l.event = some ⟨false⟩ ∧ l.waiters = [⟨0, .finished 1⟩, ⟨1, .parked⟩] ∧ l.MissesNothing := by
  exact ⟨by decide +kernel, by decide +kernel, no_wake_up_lost _ sharedEvent⟩

end Lobby

end Ontogram

/-
What an event stream tells its client about changes.

Between two messages a stream stands still twice: while its client has the last message and has not asked for
another, and while it waits for a change. Changes may fall into either. The stream notes the version only when
the client asks, so those of the first kind are left out:

* `Session` — a store and a stream, with a count of the changes that the client was not waiting for;
* `Session.IsReachable` — operations of the store in any order with the steps of the stream;
* `invariant_of_isReachable` — where the noted version stands between the announced and the present one;
* `announced_eq_version_iff` — a stream that waits has announced the present version iff nothing was left out.
-/
import Ontogram.Proofs.Effects
import Ontogram.Service.EventStream
namespace Ontogram.Service

/-- A store and a stream of its events. -/
structure Session where
  store : Store
  stream : EventStream
  /-- The changes since the last message that came before the client asked for the next one. -/
  unasked : Nat

namespace Session

/-- The session after an operation on the store. -/
def operate (op : Store.Operation) (σ : Session) : Session where
  store := op.run σ.store
  stream := σ.stream
  unasked :=
    match σ.stream.phase with
    | .handedOut => σ.unasked + ((op.run σ.store).version - σ.store.version)
    | .waiting _ => σ.unasked

/-- The session after the client has asked for the next message. -/
def ask (σ : Session) : Session := { σ with stream := σ.stream.resume σ.store }

/-- One step: of the store, of the client, or of the stream that hands out a message. -/
inductive Step : Session → Session → Prop
  | operate (op : Store.Operation) (σ : Session) : Step σ (σ.operate op)
  | ask (σ : Session) : Step σ σ.ask
  | wake {σ : Session} {message : Text} {stream : EventStream} {store : Store}
      (h : σ.stream.wake σ.store = (.ok (some message, stream), store)) : Step σ ⟨store, stream, 0⟩

/-- A session that was opened on any store, and any number of steps. -/
inductive IsReachable : Session → Prop
  | opened {s store : Store} {message : Text} {stream : EventStream}
      (h : EventStream.open s = (.ok (message, stream), store)) : IsReachable ⟨store, stream, 0⟩
  | step {σ τ : Session} (h : IsReachable σ) (hstep : Step σ τ) : IsReachable τ

/-- The stream waits for a change and has none to look at. -/
def IsSuspended (σ : Session) : Prop :=
  ∃ since, σ.stream.phase = .waiting since ∧ σ.store.awaited since = none

end Session

theorem awaited_eq_none_iff {s : Store} {since : Int} : s.awaited since = none ↔ ↑s.version ≤ since := by
  unfold Store.awaited Waiter.look Waiter.result?
  by_cases h : since < ↑s.version
  · simp [h]
  · simpa [h] using Int.not_lt.mp h

/-- A message holds the version of the store that it leaves behind. -/
theorem announce_eq_ok {s store : Store} {message : Text} {stream : EventStream}
    (h : EventStream.announce s = (.ok (message, stream), store)) : stream = ⟨store.version, .handedOut⟩ := by
  unfold EventStream.announce at h
  split at h
  · cases h
    rfl
  · cases h

theorem wake_eq_ok {s store : Store} {message : Text} {stream stream' : EventStream}
    (h : stream.wake s = (.ok (some message, stream'), store)) :
    stream' = ⟨store.version, .handedOut⟩ := by
  unfold EventStream.wake at h
  split at h
  · cases h
  · split at h
    · cases h
    · split at h
      · rename_i heq
        cases h
        exact announce_eq_ok heq
      · cases h

namespace Session

/-- The announced version and the changes that were left out make up the present version, or the one that
was noted when the client asked. -/
def Invariant (σ : Session) : Prop :=
  match σ.stream.phase with
  | .handedOut => σ.store.version = σ.stream.announced + σ.unasked
  | .waiting since => since = σ.stream.announced + σ.unasked ∧ since ≤ σ.store.version

theorem invariant_of_handedOut (store : Store) : Invariant ⟨store, ⟨store.version, .handedOut⟩, 0⟩ := rfl

theorem invariant_of_step {σ τ : Session} (h : σ.Invariant) (hstep : Step σ τ) : τ.Invariant := by
  cases hstep with
  | operate op =>
    have hle := Store.version_le_run op σ.store
    revert h
    unfold Invariant operate
    cases σ.stream.phase with
    | handedOut =>
      intro h
      simp only at h ⊢
      omega
    | waiting since =>
      rintro ⟨hsince, hversion⟩
      exact ⟨hsince, Nat.le_trans hversion hle⟩
  | ask =>
    unfold Invariant at h
    unfold Invariant ask EventStream.resume
    cases hphase : σ.stream.phase with
    | handedOut =>
      simp only [hphase] at h ⊢
      exact ⟨h, Nat.le_refl _⟩
    | waiting since =>
      simp only [hphase] at h ⊢
      exact h
  | wake hwake =>
    obtain rfl := wake_eq_ok hwake
    exact invariant_of_handedOut _

theorem invariant_of_isReachable {σ : Session} (h : σ.IsReachable) : σ.Invariant := by
  induction h with
  | opened h =>
    obtain rfl := announce_eq_ok h
    exact invariant_of_handedOut _
  | step _ hstep ih => exact invariant_of_step ih hstep

/-- What a suspended stream has not announced are the changes that came before the client asked. -/
theorem version_of_isSuspended {σ : Session} (h : σ.IsReachable) (hs : σ.IsSuspended) :
    σ.store.version = σ.stream.announced + σ.unasked := by
  obtain ⟨since, hphase, hnone⟩ := hs
  have hle := awaited_eq_none_iff.mp hnone
  have hinv := invariant_of_isReachable h
  rw [Invariant, hphase] at hinv
  obtain ⟨hsince, hversion⟩ := hinv
  omega

/-- A stream that waits for a version that has come hands it out at once, unless the documents cannot be
listed. -/
theorem wake_of_not_isSuspended {σ : Session} {since : Nat} (hphase : σ.stream.phase = .waiting since)
    (hs : ¬ σ.IsSuspended) {listings : List (Key × Listing)} {store : Store}
    (hlist : σ.store.list = (.ok listings, store)) :
    ∃ message, σ.stream.wake σ.store = (.ok (some message, ⟨σ.store.version, .handedOut⟩), store) := by
  have hversion : store.version = σ.store.version := by
    have h := (Store.unchanged_list (s := σ.store)).version_eq
    rwa [hlist] at h
  refine ⟨EventStream.message store.version listings, ?_⟩
  unfold EventStream.wake
  rw [hphase]
  cases hawaited : σ.store.awaited since with
  | none => exact absurd ⟨since, hphase, hawaited⟩ hs
  | some version =>
    simp only [hawaited, EventStream.announce, hlist, hversion]

/-- **What a stream leaves out.** Whenever a stream waits and has no change to look at, its last message has
the present version iff no change came between that message and the client's asking for the next. What
changes later is handed out as soon as the stream looks. -/
theorem announced_eq_version_iff {σ : Session} (h : σ.IsReachable) :
    (σ.IsSuspended → (σ.stream.announced = σ.store.version ↔ σ.unasked = 0)) ∧
      ∀ since, σ.stream.phase = .waiting since → ¬ σ.IsSuspended →
        ∀ listings store, σ.store.list = (.ok listings, store) →
          ∃ message, σ.stream.wake σ.store =
            (.ok (some message, ⟨σ.store.version, .handedOut⟩), store) := by
  constructor
  · intro hs
    have hversion := version_of_isSuspended h hs
    omega
  · intro since hphase hs listings store hlist
    exact wake_of_not_isSuspended hphase hs hlist

/-- A stream that was just opened on a store without documents. -/
def fresh : Session := ⟨⟨100, [], [], StateFile.defaultScene, 0, none⟩, ⟨0, .handedOut⟩, 0⟩

theorem list_of_documents_eq_nil {s : Store} (h : s.documents = []) : s.list = (.ok [], s) := by
  have hkeys : s.keys = .ok [] := by
    simp [Store.keys, h, Assoc.keys, Key.sortOn?, Key.areComparable, Key.areOrdered]
  unfold Store.list
  rw [hkeys]
  rfl

theorem isReachable_fresh : fresh.IsReachable := by
  have hopen : EventStream.open fresh.store =
      (.ok (EventStream.message 0 [], fresh.stream), fresh.store) := by
    unfold EventStream.open EventStream.announce
    rw [list_of_documents_eq_nil rfl]
    rfl
  exact .opened hopen

/-- The canvas moved to the right. -/
def movedScene : Json := .obj [("x", .int 1), ("y", .int 0), ("k", .int 1)]

theorem setScene_movedScene {s : Store} (h : s.documents.IsWritable) :
    (s.setScene movedScene).2.version = s.version + 1 ∧
      (s.setScene movedScene).2.documents = s.documents := by
  have hscene : Schema.scene movedScene = .ok [("x", .int 1), ("y", .int 0), ("k", .int 1)] := by
    have hextra : Schema.extraKey? Schema.sceneKeys [("x", .int 1), ("y", .int 0), ("k", .int 1)] = none := by
      simp [Schema.extraKey?, Schema.sceneKeys, Assoc.keys]
    rw [movedScene, Schema.scene, Schema.noExtraField, hextra]
    rfl
  have hwritable :
      { s with scene := Entries.ofFields [("x", .int 1), ("y", .int 0), ("k", .int 1)] }.contents.IsWritable :=
    StateFile.isWritable_iff.mpr ⟨h, Entries.isWritable_ofFields rfl rfl⟩
  unfold Store.setScene
  rw [hscene]
  show (Store.changed _ _).2.version = _ ∧ (Store.changed _ _).2.documents = _
  rw [Store.changed_of_isWritable _ _ hwritable]
  exact ⟨rfl, rfl⟩

/-- The client asks, and only then the canvas is moved: nothing is left out before, and the change is handed
out after. -/
theorem announced_eq_version_fresh :
    fresh.ask.IsSuspended ∧ fresh.ask.stream.announced = fresh.ask.store.version ∧
      ∃ message store, (fresh.ask.operate (.setScene movedScene)).stream.wake
        (fresh.ask.operate (.setScene movedScene)).store =
          (.ok (some message, ⟨1, .handedOut⟩), store) := by
  have hasked : fresh.ask.IsReachable := isReachable_fresh.step (.ask _)
  have hmoved : (fresh.ask.operate (.setScene movedScene)).IsReachable := hasked.step (.operate _ _)
  obtain ⟨hversion, hdocuments⟩ := setScene_movedScene (s := fresh.ask.store) (List.forall_mem_nil _)
  have hs : fresh.ask.IsSuspended := ⟨0, rfl, rfl⟩
  have hnot : ¬ (fresh.ask.operate (.setScene movedScene)).IsSuspended := by
    rintro ⟨since, hphase, hnone⟩
    cases hphase
    have hle := awaited_eq_none_iff.mp hnone
    exact absurd (hversion ▸ hle) (by decide)
  obtain ⟨message, hwake⟩ := (announced_eq_version_iff hmoved).2 0 rfl hnot _ _
    (list_of_documents_eq_nil hdocuments)
  have hone : (fresh.ask.operate (.setScene movedScene)).store.version = 1 := hversion
  rw [hone] at hwake
  exact ⟨hs, ((announced_eq_version_iff hasked).1 hs).mpr rfl, message, _, hwake⟩

/-- The canvas is moved before the client asks, and the stream waits without having said so. -/
theorem stream_left_behind :
    ∃ σ : Session, σ.IsReachable ∧ σ.IsSuspended ∧ σ.stream.announced = 0 ∧ σ.store.version = 1 := by
  have hmoved : (fresh.operate (.setScene movedScene)).IsReachable :=
    isReachable_fresh.step (.operate _ _)
  obtain ⟨hversion, -⟩ := setScene_movedScene (s := fresh.store) (List.forall_mem_nil _)
  refine ⟨_, hmoved.step (.ask _), ⟨_, rfl, ?_⟩, rfl, hversion⟩
  exact awaited_eq_none_iff.mpr (Int.le_refl _)

end Session

end Ontogram.Service

/-
A store from one operation to the next.

* `Store.Operation`, `Store.Operation.run` — what a store can be asked to do, and the store afterwards;
* `Operation.FailsToSave` — the operation begins to write the file and does not come to the end;
* `Store.IsReachable` — a store that was opened and then asked to do things, one after another;
* `changed_cases` — a change that is written, and one that cannot be;
* `list_snd` — a list of documents leaves nothing behind but histories.
-/
import Ontogram.Proofs.StateText
import Ontogram.Store.Basic
namespace Ontogram.Store

/-- What a store can be asked to do. -/
inductive Operation where
  | put (id : Text) (value : Json)
  | get (id : Text)
  | list
  | undo (id : Text)
  | redo (id : Text)
  | remove (id : Text)
  | setScene (scene : Json)
  | save

/-- The store after the operation, whatever its answer is. -/
def Operation.run : Operation → Store → Store
  | .put id v, s => (s.put id v).2
  | .get _, s => s
  | .list, s => s.list.2
  | .undo id, s => (s.undo id).2
  | .redo id, s => (s.redo id).2
  | .remove id, s => (s.remove id).2
  | .setScene v, s => (s.setScene v).2
  | .save, s => s.save.2

/-- The error that an operation ends with, if it does. -/
def errorOf? {α : Type} : Except StoreError α → Option StoreError
  | .ok _ => none
  | .error e => some e

theorem errorOf?_eq_some_iff {α : Type} {x : Except StoreError α} {e : StoreError} :
    errorOf? x = some e ↔ x = .error e := by
  cases x <;> simp [errorOf?]

def Operation.error? : Operation → Store → Option StoreError
  | .put id v, s => errorOf? (s.put id v).1
  | .get _, _ => none
  | .list, s => errorOf? s.list.1
  | .undo id, s => errorOf? (s.undo id).1
  | .redo id, s => errorOf? (s.redo id).1
  | .remove id, s => errorOf? (s.remove id).1
  | .setScene v, s => errorOf? (s.setScene v).1
  | .save, s => errorOf? s.save.1

/-- The operation begins to write the file and does not come to the end. -/
def Operation.FailsToSave (op : Operation) (s : Store) : Prop :=
  ∃ fault, op.error? s = some (.notWritten fault)

/-- A store that was opened, on a state file or on none, and used since. -/
inductive IsReachable : Store → Prop
  | opened {limit : Int} {file : Option ByteArray} {s : Store} (h : Store.open limit file = .ok s) :
      IsReachable s
  | next {s : Store} (h : IsReachable s) (op : Operation) : IsReachable (op.run s)

/-! ### Changes -/

section Changed

variable {α : Type} (answer : α) (s : Store)

theorem save_fst_eq_ok_iff : s.save.1 = .ok () ↔ s.contents.IsWritable := by
  rw [← StateFile.dump_isOk_iff]
  exact Traversal.mapError_eq_ok_iff

/-- A change is counted if it is written. If it is not, it stays, and the file holds a beginning. -/
theorem changed_cases :
    (s.contents.IsWritable ∧ s.changed answer = (.ok answer, { s.save.2 with version := s.version + 1 })) ∨
      ¬ s.contents.IsWritable ∧ ∃ fault, s.changed answer = (.error (.notWritten fault), s.save.2) := by
  rw [← save_fst_eq_ok_iff, changed]
  cases hsave : (StateFile.dump s.contents).1 with
  | ok u =>
    have hfst : s.save = (.ok (), s.save.2) := Prod.ext (by rw [save, hsave]; rfl) rfl
    rw [hfst]
    exact .inl ⟨rfl, rfl⟩
  | error fault =>
    have hfst : s.save = (.error (.notWritten fault), s.save.2) := Prod.ext (by rw [save, hsave]; rfl) rfl
    rw [hfst]
    exact .inr ⟨by rintro ⟨⟩, fault, rfl⟩

theorem changed_of_isWritable (h : s.contents.IsWritable) :
    s.changed answer = (.ok answer, { s.save.2 with version := s.version + 1 }) := by
  rcases changed_cases answer s with ⟨-, hchanged⟩ | ⟨hnot, -⟩
  · exact hchanged
  · exact absurd h hnot

/-- Written or not, a change leaves behind what was changed, and a file. -/
theorem changed_snd : ∃ version, (version = s.version ∨ version = s.version + 1) ∧
    (s.changed answer).2 = { s.save.2 with version } := by
  rcases changed_cases answer s with ⟨-, hchanged⟩ | ⟨-, fault, hchanged⟩
  · exact ⟨_, .inr rfl, by rw [hchanged]⟩
  · refine ⟨_, .inl rfl, ?_⟩
    rw [hchanged]
    rfl

@[simp]
theorem documents_changed : (s.changed answer).2.documents = s.documents := by
  obtain ⟨_, -, h⟩ := changed_snd answer s
  rw [h]
  rfl

@[simp]
theorem scene_changed : (s.changed answer).2.scene = s.scene := by
  obtain ⟨_, -, h⟩ := changed_snd answer s
  rw [h]
  rfl

@[simp]
theorem file_changed : (s.changed answer).2.file = some (StateFile.encode s.contents) := by
  obtain ⟨_, -, h⟩ := changed_snd answer s
  rw [h]
  rfl

theorem version_changed :
    (s.changed answer).2.version = s.version ∨ (s.changed answer).2.version = s.version + 1 := by
  obtain ⟨_, hversion, h⟩ := changed_snd answer s
  rw [h]
  exact hversion

variable {answer s}

/-- Only a change that is not written ends with an error, and it is not counted. -/
theorem changed_eq_error {e : StoreError} {t : Store} (h : s.changed answer = (.error e, t)) :
    ¬ s.contents.IsWritable ∧ (∃ fault, e = .notWritten fault) ∧ t = s.save.2 := by
  rcases changed_cases answer s with ⟨-, hchanged⟩ | ⟨hnot, fault, hchanged⟩
  · cases hchanged.symm.trans h
  · cases hchanged.symm.trans h
    exact ⟨hnot, ⟨fault, rfl⟩, rfl⟩

theorem changed_fst_eq_ok_iff {a : α} :
    (s.changed answer).1 = .ok a ↔ s.contents.IsWritable ∧ a = answer := by
  rcases changed_cases answer s with ⟨hwritable, hchanged⟩ | ⟨hnot, fault, hchanged⟩
  · rw [hchanged, and_iff_right hwritable, Except.ok.injEq, eq_comm]
  · rw [hchanged]
    exact iff_of_false (by rintro ⟨⟩) fun h => hnot h.1

/-- A change is counted, or it ends with that error. -/
theorem version_changed_eq_iff : (s.changed answer).2.version = s.version ↔
    ∃ fault, (s.changed answer).1 = .error (.notWritten fault) := by
  rcases changed_cases answer s with ⟨-, hchanged⟩ | ⟨-, fault, hchanged⟩
  · rw [hchanged]
    exact iff_of_false (Nat.succ_ne_self _) (by rintro ⟨_, ⟨⟩⟩)
  · rw [hchanged]
    exact iff_of_true rfl ⟨fault, rfl⟩

end Changed

/-! ### Operations -/

variable {s : Store}

/-- Listing documents makes histories and nothing else. -/
theorem listFrom_snd (keys : List Key) : ∃ histories, (listFrom keys s).2 = { s with histories } := by
  induction keys generalizing s with
  | nil => exact ⟨s.histories, rfl⟩
  | cons key rest ih =>
    rw [listFrom]
    split
    · exact ⟨s.histories, rfl⟩
    · rename_i h _
      obtain ⟨histories, hrest⟩ := ih (s := s.withHistory key h)
      simp only
      split
      · exact ⟨_, rfl⟩
      · split <;> rename_i heq <;> rw [heq] at hrest <;> exact ⟨histories, hrest⟩

theorem list_snd : ∃ histories, s.list.2 = { s with histories } := by
  unfold list
  split
  · exact ⟨s.histories, rfl⟩
  · exact listFrom_snd _

end Ontogram.Store

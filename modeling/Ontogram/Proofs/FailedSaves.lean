/-
Operations that fail to save.

A change is made before it is written, and it stays when the writing fails. The operation then ends with an error that
no other failure gives, and the change is not counted:

* `not_isWritable_of_failsToSave` — what an operation failed to save cannot be written;
* `Operation.IsUncounted` — the operation made a change that failed to be saved;
* `IsSavable`, `IsSavable.edit` — a store that can be written, also after steps back and forth, and what keeps it so;
* `not_failsToSave_runAll` — a store that can be written, and into which nothing else is brought, goes on so.
-/
import Ontogram.Proofs.StoreHistories
namespace Ontogram.Store

variable {s t : Store}

/-! ### What cannot be written -/

/-- What could not be saved cannot be written. -/
theorem not_isWritable_of_failsToSave {op : Operation} (h : op.FailsToSave s) : ¬ (op.run s).contents.IsWritable := by
  obtain ⟨fault, hfault⟩ := h
  cases effect_run op s with
  | unchanged _ hsaves => exact absurd ⟨fault, hfault⟩ hsaves
  | @edited _ answer u _ hrun herror =>
    have hchanged : u.changed answer = (.error (.notWritten fault), (u.changed answer).2) :=
      Prod.ext (errorOf?_eq_some_iff.mp (herror.symm.trans hfault)) rfl
    obtain ⟨hnot, -, hsnd⟩ := changed_eq_error hchanged
    rw [hrun, hsnd]
    exact hnot
  | saved hsave =>
    subst hsave
    intro hwritable
    have hwritten := (save_fst_eq_ok_iff s).mpr hwritable
    cases hwritten.symm.trans (errorOf?_eq_some_iff.mp hfault)

/-- The operation makes a change, and fails to save it. -/
def Operation.IsUncounted (op : Operation) (s : Store) : Prop := op ≠ .save ∧ op.FailsToSave s

/-! ### Where nothing fails to be saved -/

/-- What an operation brings in can be written. -/
structure Operation.IsWritable (op : Operation) : Prop where
  puts : ∀ key v, op.Puts key v → key.fieldName.isEncodable = true ∧ v.isEncodable = true
  scene : ∀ fields, op = .setScene (.obj fields) → Entries.IsWritable (.ofFields fields)

/-- An operation that neither puts a document nor sets the scene brings in nothing. -/
theorem Operation.IsWritable.of_ne {op : Operation} (hput : ∀ id v, op ≠ .put id v) (hscene : ∀ v, op ≠ .setScene v) :
    op.IsWritable := by
  refine ⟨fun key v hputs => ?_, fun fields heq => absurd heq (hscene _)⟩
  cases hputs
  exact absurd rfl (hput _ _)

theorem Operation.IsWritable.put {id : Text} {fields : Assoc Json} (hid : id.isEncodable = true)
    (h : (Json.obj fields).isEncodable = true) : (Operation.put id (.obj fields)).IsWritable := by
  refine ⟨fun key v hputs => ?_, by rintro _ ⟨⟩⟩
  cases hputs with
  | put hc =>
    have hcompile : compile (.obj fields) = .ok _ := hc
    refine ⟨hid, ?_⟩
    rw [canonical_of_compile hcompile]
    exact (Json.isEncodable_canonical _).trans h

theorem Operation.IsWritable.setScene {fields : Assoc Json} (h : Entries.IsWritable (.ofFields fields)) :
    (Operation.setScene (.obj fields)).IsWritable := by
  refine ⟨fun key v hputs => ?_, ?_⟩
  · cases hputs
  · rintro _ ⟨⟩
    exact h

/-- The documents and the scene can be written, and so can everything that a history could bring back. -/
structure IsSavable (s : Store) : Prop where
  linked : s.Invariant fun key v =>
    key.fieldName.isEncodable = true ∧ v.hasShortNumbers = true ∧ v.isEncodable = true
  documents : s.documents.IsWritable
  scene : s.scene.IsWritable

theorem IsSavable.isWritable (h : s.IsSavable) : s.contents.IsWritable :=
  StateFile.isWritable_iff.mpr ⟨h.documents, h.scene⟩

/-- A store without histories has nothing else to bring back. -/
theorem isSavable_of_isWritable (hlimit : 1 ≤ s.limit) (hhistories : s.histories = [])
    (hcontents : s.contents.IsWritable) : s.IsSavable := by
  obtain ⟨hdocuments, hscene⟩ := StateFile.isWritable_iff.mp hcontents
  refine ⟨⟨hlimit, fun key v hv => hdocuments _ (Assoc.mem_of_lookup hv), fun key hist hhist => ?_⟩, hdocuments, hscene⟩
  rw [hhistories] at hhist
  cases hhist

theorem IsSavable.of_alike (h : s.IsSavable) (halike : s.Alike t) : t.IsSavable :=
  ⟨h.linked.of_alike halike, halike.documents_eq ▸ h.documents, halike.scene_eq ▸ h.scene⟩

theorem Operation.IsWritable.of_puts {op : Operation} (hop : op.IsWritable) {key : Key} {v : Json} (h : op.Puts key v) :
    key.fieldName.isEncodable = true ∧ v.hasShortNumbers = true ∧ v.isEncodable = true := by
  obtain ⟨hkey, hv⟩ := hop.puts key v h
  cases h
  exact ⟨hkey, rfl, hv⟩

theorem IsSavable.edit (h : s.IsSavable) {op : Operation} (hop : op.IsWritable) (hedit : s.Edit op t) :
    t.IsSavable := by
  refine ⟨(h.linked.edit hedit).mono fun key v hv => hv.elim id hop.of_puts, ?_, ?_⟩
  · cases hedit with
    | put hc =>
      obtain ⟨hkey, hshort, hv⟩ := hop.of_puts (.put hc)
      exact h.documents.insert hkey hshort hv
    | step hmoves hhist hv =>
      obtain ⟨hkey, hshort, hv⟩ := h.linked.allowed_of_move hhist hmoves.isMove hv
      exact h.documents.insert hkey hshort hv
    | remove => exact fun e he => h.documents e (List.mem_of_mem_filter he)
    | setScene => exact h.documents
  · cases hedit with
    | setScene hscene => exact hop.scene _ (by rw [Schema.eq_of_scene hscene])
    | _ => exact h.scene

theorem isSavable_run (h : s.IsSavable) {op : Operation} (hop : op.IsWritable) : (op.run s).IsSavable :=
  run_of_edit (fun halike hsavable => hsavable.of_alike halike) h fun _ hedit => h.edit hop hedit

theorem isSavable_runAll (h : s.IsSavable) {ops : List Operation} (hops : ∀ op ∈ ops, op.IsWritable) :
    (runAll ops s).IsSavable := by
  induction ops generalizing s with
  | nil => exact h
  | cons op rest ih =>
    obtain ⟨hop, hrest⟩ := List.forall_mem_cons.mp hops
    exact ih (isSavable_run h hop) hrest

/-- However a store is used, nothing fails to be saved, if all that it has and all that is brought in can be written. -/
theorem not_failsToSave_runAll (h : s.IsSavable) {ops : List Operation} (hops : ∀ op ∈ ops, op.IsWritable)
    {op : Operation} (hop : op.IsWritable) : ¬ op.FailsToSave (runAll ops s) := fun hfails =>
  not_isWritable_of_failsToSave hfails (isSavable_run (isSavable_runAll h hops) hop).isWritable

end Ontogram.Store

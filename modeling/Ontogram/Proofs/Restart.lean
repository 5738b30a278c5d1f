/-
A store and its file.

A change is written to the file before it is answered, and nothing else is. So the file has the documents and the
scene that the store had then, and a store that is opened on it goes on where the other ended. Only where something
cannot be written the file is left with a beginning of it:

* `Entries.IsObject` — entries that come back from a file;
* `Store.IsStorable` — such documents and such a scene, and histories of nothing else;
* `Store.leaves_run` — an operation that reports a change saves it, and any other leaves the file alone, unless it
  fails to save;
* `Store.isStorable_runAll` — a store stays such from one operation to the next, whether they are saved or not;
* `Store.survives_restart` — what a new store has after a run of operations;
* `Store.survives_restart_lost` — for a file of another hand and a scene that is at no number;
* `Store.failed_put_spoils_file` — a document that cannot be written, and what it leaves in the file.
-/
import Ontogram.Proofs.FailedSaves
import Ontogram.Proofs.StateText
namespace Ontogram

open Json (hasDistinctKeys_obj_iff hasDistinctKeys_of_parse)
open Traversal (mapError_eq_error_iff)

namespace Entries

/-- The entries of a JSON object. -/
def IsObject (entries : Entries) : Prop :=
  ∃ fields, (Json.obj fields).HasDistinctKeys ∧ entries = ofFields fields

variable {entries : Entries} {v : Json}

theorem IsObject.value (h : entries.IsObject) {key : Key} (hv : entries.lookup key = some v) :
    v.HasDistinctKeys := by
  obtain ⟨fields, hfields, rfl⟩ := h
  obtain ⟨e, he, heq⟩ := List.mem_map.mp (Assoc.mem_of_lookup hv)
  cases heq
  exact (hasDistinctKeys_obj_iff.mp hfields).2 e he

theorem insert_ofFields (name : Text) (v : Json) (fields : Assoc Json) :
    Assoc.insert (.text name) v (ofFields fields) = ofFields (Assoc.insert name v fields) := by
  induction fields with
  | nil => rfl
  | cons e rest ih =>
    obtain ⟨k, w⟩ := e
    unfold ofFields at ih ⊢
    by_cases hk : name = k
    · simp [Assoc.insert, hk]
    · simp [Assoc.insert, hk, ih]

/-- A field more, or another value in a field. -/
theorem IsObject.insert (h : entries.IsObject) (hv : v.HasDistinctKeys) (name : Text) :
    IsObject (Assoc.insert (.text name) v entries) := by
  obtain ⟨fields, hfields, rfl⟩ := h
  obtain ⟨hkeys, hvalues⟩ := hasDistinctKeys_obj_iff.mp hfields
  refine ⟨_, hasDistinctKeys_obj_iff.mpr ⟨Assoc.nodup_keys_insert hkeys, fun e he => ?_⟩,
    insert_ofFields name v fields⟩
  rcases Assoc.mem_of_mem_insert he with rfl | he
  · exact hv
  · exact hvalues e he

/-- A field less. -/
theorem IsObject.erase (h : entries.IsObject) (name : Text) :
    IsObject (Assoc.erase (.text name) entries) := by
  obtain ⟨fields, hfields, rfl⟩ := h
  obtain ⟨hkeys, hvalues⟩ := hasDistinctKeys_obj_iff.mp hfields
  refine ⟨fields.filter fun e => e.1 ≠ name, hasDistinctKeys_obj_iff.mpr ⟨?_, ?_⟩, ?_⟩
  · exact hkeys.sublist (List.filter_sublist.map _)
  · exact fun e he => hvalues e (List.mem_of_mem_filter he)
  · rw [Assoc.erase, ofFields, ofFields, List.filter_map]
    simp [Function.comp_def]

end Entries

namespace StateFile

/-- There is no file, or it can be read, and the documents and the scene in it, if it has any, are objects. -/
def HoldsObjects (file : Option ByteArray) : Prop :=
  ∀ bytes, file = some bytes → ∃ found, fields? bytes = .ok found ∧
    ∀ fields, found = some fields → ∀ key ∈ (["documents", "scene"] : List Text), ∀ v,
      fields.lookup key = some v → ∃ entries, v = .obj entries

theorem hasDistinctKeys_of_fields? {bytes : ByteArray} {fields : Assoc Json}
    (h : fields? bytes = .ok (some fields)) : (Json.obj fields).HasDistinctKeys := by
  unfold fields? at h
  cases hread : Text.ofFile? bytes with
  | none =>
    rw [hread] at h
    cases h
  | some text =>
    rw [hread, Option.map_some] at h
    split at h
    · rename_i hparse
      cases h
      exact hasDistinctKeys_of_parse (Option.some.inj hparse)
    · cases h
    · cases h

theorem isObject_defaultScene : Entries.IsObject defaultScene := by
  refine ⟨[("x", .int 0), ("y", .int 0), ("k", .int 1)], .obj (by decide) ?_, rfl⟩
  simp only [List.forall_mem_cons]
  exact ⟨.int _, .int _, .int _, List.forall_mem_nil _⟩

theorem isObject_nil : Entries.IsObject [] :=
  ⟨[], .obj List.nodup_nil (List.forall_mem_nil _), rfl⟩

/-- One part of a file, or what stands in for it. -/
theorem isObject_part {v? : Option Json} {absent : Entries} (habsent : absent.IsObject)
    (hv : ∀ v, v? = some v → v.HasDistinctKeys ∧ ∃ fields, v = .obj fields) :
    ∃ present, (v?.map entries).getD (.ok absent) = .ok present ∧ present.IsObject := by
  cases v? with
  | none => exact ⟨absent, rfl, habsent⟩
  | some v =>
    obtain ⟨hdistinct, fields, rfl⟩ := hv v rfl
    exact ⟨.ofFields fields, rfl, fields, hdistinct, rfl⟩

end StateFile

namespace Store

open StateFile (HoldsObjects)

theorem open_of_decode {bytes : ByteArray} {contents : StateFile.Contents}
    (h : StateFile.decode bytes = .ok contents) (limit : Int) :
    Store.open limit (some bytes) = .ok ⟨limit, contents.documents, [], contents.scene, 0, some bytes⟩ := by
  simp only [Store.open, h]
  rfl

/-- A file with objects opens, whatever the limit. -/
theorem open_of_holdsObjects {file : Option ByteArray} (h : HoldsObjects file) :
    ∃ documents scene : Entries, documents.IsObject ∧ scene.IsObject ∧
      ∀ limit, Store.open limit file = .ok ⟨limit, documents, [], scene, 0, file⟩ := by
  cases file with
  | none => exact ⟨[], _, StateFile.isObject_nil, StateFile.isObject_defaultScene, fun _ => rfl⟩
  | some bytes =>
    obtain ⟨found, hfields, hobjects⟩ := h bytes rfl
    cases found with
    | none =>
      have hdecode : StateFile.decode bytes = .ok ⟨[], StateFile.defaultScene⟩ := by
        rw [StateFile.decode, hfields]
        rfl
      exact ⟨[], _, StateFile.isObject_nil, StateFile.isObject_defaultScene, open_of_decode hdecode⟩
    | some fields =>
      have hvalues := (hasDistinctKeys_obj_iff.mp (StateFile.hasDistinctKeys_of_fields? hfields)).2
      have hpart : ∀ key ∈ (["documents", "scene"] : List Text), ∀ v, fields.lookup key = some v →
          v.HasDistinctKeys ∧ ∃ entries, v = .obj entries := fun key hkey v hv =>
        ⟨hvalues (key, v) (Assoc.mem_of_lookup hv), hobjects fields rfl key hkey v hv⟩
      obtain ⟨documents, hdocuments, hdocuments'⟩ :=
        StateFile.isObject_part StateFile.isObject_nil (hpart "documents" (by simp))
      obtain ⟨scene, hscene, hscene'⟩ :=
        StateFile.isObject_part StateFile.isObject_defaultScene (hpart "scene" (by simp))
      have hdecode : StateFile.decode bytes = .ok ⟨documents, scene⟩ := by
        rw [StateFile.decode, hfields]
        show (((fields.lookup ("documents" : Text)).map StateFile.entries).getD (.ok []) >>= fun documents => _) = _
        rw [hdocuments]
        show (((fields.lookup ("scene" : Text)).map StateFile.entries).getD _ >>= fun scene => _) = _
        rw [hscene]
        rfl
      exact ⟨documents, scene, hdocuments', hscene', open_of_decode hdecode⟩

/-! ### One operation -/

/-- The documents and the scene are objects, and so is everything that a history could bring back. -/
structure IsStorable (s : Store) : Prop where
  linked : s.Invariant fun _ v => v.HasDistinctKeys
  documents : s.documents.IsObject
  scene : s.scene.IsObject

/-- The file is the one that the store would write, and it is written in full. -/
structure IsSaved (s : Store) : Prop where
  file_eq : s.file = some (StateFile.encode s.contents)
  isWritable : s.contents.IsWritable

/-- A scene that is offered repeats no key. -/
def Operation.IsProper (op : Operation) : Prop := ∀ v, op = .setScene v → v.HasDistinctKeys

/-- The operation writes what the store holds, to the end. -/
def Operation.Writes (op : Operation) (s : Store) : Prop :=
  op.ReportsChange s ∨ op = .save ∧ ¬ op.FailsToSave s

/-- Either the store that it holds now is written, or the writing fails, or neither the file nor what belongs into it
is another than before. -/
inductive Leaves (s t : Store) (writes fails : Prop) : Prop
  | saved (hwrites : writes) (hsaved : t.IsSaved) (hdocuments : t.documents.IsObject) (hscene : t.scene.IsObject)
  | failed (hwrites : ¬ writes) (hfails : fails) (hdocuments : t.documents.IsObject) (hscene : t.scene.IsObject)
  | kept (hwrites : ¬ writes) (hdocuments : t.documents = s.documents) (hscene : t.scene = s.scene)
      (hfile : t.file = s.file)

variable {s t : Store}

theorem IsStorable.of_alike (h : s.IsStorable) (halike : s.Alike t) : t.IsStorable :=
  ⟨h.linked.of_alike halike, halike.documents_eq ▸ h.documents, halike.scene_eq ▸ h.scene⟩

/-- What is put is a text, and a scene that is set repeats no key. -/
theorem IsStorable.edit (h : s.IsStorable) {op : Operation} (hop : op.IsProper) (hedit : s.Edit op t) :
    t.IsStorable := by
  refine ⟨(h.linked.edit hedit).mono fun key v hv => ?_, ?_, ?_⟩
  · rcases hv with hv | hput
    · exact hv
    · cases hput
      exact .str _
  · cases hedit with
    | @put id => exact h.documents.insert (.str _) id
    | @step _ id _ _ _ hmoves hhist hv =>
      exact h.documents.insert (h.linked.allowed_of_move hhist hmoves.isMove hv) id
    | @remove id => exact h.documents.erase id
    | setScene => exact h.documents
  · cases hedit with
    | @setScene v fields hscene =>
      obtain rfl := Schema.eq_of_scene hscene
      exact ⟨fields, hop _ rfl, rfl⟩
    | _ => exact h.scene

theorem isStorable_run (h : s.IsStorable) {op : Operation} (hop : op.IsProper) : (op.run s).IsStorable :=
  run_of_edit (fun halike hstorable => hstorable.of_alike halike) h fun _ hedit => h.edit hop hedit

/-- A change is saved or fails to be. -/
theorem leaves_changed {α : Type} {answer : α} {u : Store} {writes fails : Prop} (hdocuments : u.documents.IsObject)
    (hscene : u.scene.IsObject) (hwrites : writes ↔ (u.changed answer).1 = .ok answer)
    (hfails : ∀ fault, (u.changed answer).1 = .error (.notWritten fault) → fails) :
    Leaves s (u.changed answer).2 writes fails := by
  rcases changed_cases answer u with ⟨hwritable, hchanged⟩ | ⟨-, fault, hchanged⟩
  · rw [hchanged] at hwrites ⊢
    exact .saved (hwrites.mpr rfl) ⟨rfl, hwritable⟩ hdocuments hscene
  · have hanswer : (u.changed answer).1 = .error (.notWritten fault) := by rw [hchanged]
    have hnot : ¬ writes := by
      rw [hwrites, hanswer]
      rintro ⟨⟩
    rw [hchanged]
    exact .failed hnot (hfails fault hanswer) hdocuments hscene

theorem leaves_save (h : s.IsStorable) :
    Leaves s s.save.2 (Operation.save.Writes s) (Operation.save.FailsToSave s) := by
  by_cases hfails : Operation.save.FailsToSave s
  · refine .failed (fun hwrites => ?_) hfails h.documents h.scene
    rcases hwrites with hreports | ⟨-, hnot⟩
    · exact hreports
    · exact hnot hfails
  · refine .saved (.inr ⟨rfl, hfails⟩) ⟨rfl, ?_⟩ h.documents h.scene
    show s.contents.IsWritable
    rw [← save_fst_eq_ok_iff]
    cases hsave : s.save.1 with
    | ok u => rfl
    | error e =>
      obtain ⟨fault, -, rfl⟩ := mapError_eq_error_iff.mp hsave
      exact (hfails ⟨fault, congrArg errorOf? hsave⟩).elim

/-- Whatever reports a change is written to the file, saving is, and nothing else, unless the writing fails. -/
theorem leaves_run (h : s.IsStorable) {op : Operation} (hop : op.IsProper) :
    Leaves s (op.run s) (op.Writes s) (op.FailsToSave s) := by
  by_cases hsave : op = .save
  · subst hsave
    exact leaves_save h
  · have hwrites : op.Writes s ↔ op.ReportsChange s := or_iff_left fun hboth => hsave hboth.1
    rw [hwrites]
    cases effect_run op s with
    | unchanged hsame _ hreports => exact .kept hreports hsame.documents_eq hsame.scene_eq hsame.file_eq
    | edited hedit hrun herror hreports =>
      obtain ⟨-, hdocuments, hscene⟩ := h.edit hop hedit
      rw [hrun]
      exact leaves_changed hdocuments hscene hreports fun fault hfault =>
        ⟨fault, herror.trans (errorOf?_eq_some_iff.mpr hfault)⟩
    | saved heq => exact absurd heq hsave

/-! ### Operations one after another -/

/-- However a store is used, its documents and scene are objects, and so is everything in its histories. -/
theorem isStorable_runAll (h : s.IsStorable) {ops : List Operation} (hops : ∀ op ∈ ops, op.IsProper) :
    (runAll ops s).IsStorable := by
  induction ops generalizing s with
  | nil => exact h
  | cons op rest ih =>
    obtain ⟨hop, hrest⟩ := List.forall_mem_cons.mp hops
    exact ih (isStorable_run h hop) hrest

/-- What was saved is found again. -/
theorem reopen_of_isSaved (h : s.IsStorable) (hsaved : s.IsSaved) (limit : Int) :
    ∃ u, Store.open limit s.file = .ok u ∧ u.documents = s.documents ∧ u.scene = s.scene := by
  obtain ⟨documents, hdistinct, hdocuments⟩ := h.documents
  obtain ⟨scene, hdistinct', hscene⟩ := h.scene
  obtain ⟨hfile, hwritable⟩ := hsaved
  have hcontents : s.contents = ⟨.ofFields documents, .ofFields scene⟩ := by rw [contents, hdocuments, hscene]
  rw [hcontents] at hfile hwritable
  rw [hdocuments, hscene, hfile]
  exact ⟨_, open_of_decode (StateFile.decode_encode hdistinct hdistinct' hwritable) limit, rfl, rfl⟩

/-- A store with the same documents and the same scene is saved as the same file. -/
theorem IsSaved.save_eq (h : s.IsSaved) {u : Store} (hdocuments : u.documents = s.documents)
    (hscene : u.scene = s.scene) : u.save.1 = .ok () ∧ u.save.2.file = s.file := by
  have hcontents : u.contents = s.contents := by rw [contents, contents, hdocuments, hscene]
  refine ⟨?_, ?_⟩
  · rw [save_fst_eq_ok_iff, hcontents]
    exact h.isWritable
  · rw [h.file_eq, ← hcontents]
    rfl

/-- **Restart.** A store is opened without a file, or on one with objects for the documents and the scene, and
used in any way. After an operation that reports a change, and after saving, a new store on the file has the
same documents with the same values in the same order, the same scene, and the same file if it is saved. All
other operations leave the file as it was, but for those that fail to save, and none does if all that was in the file
and was brought in since can be written. -/
theorem survives_restart {limit : Int} {file : Option ByteArray} (hlimit : 1 ≤ limit)
    (hfile : HoldsObjects file) :
    ∃ s, Store.open limit file = .ok s ∧ ∀ ops : List Operation, (∀ op ∈ ops, op.IsProper) →
      ∀ op : Operation, op.IsProper →
        (op.Writes (runAll ops s) → ∀ limit', ∃ u,
          Store.open limit' (op.run (runAll ops s)).file = .ok u ∧
            u.documents = (op.run (runAll ops s)).documents ∧
            u.scene = (op.run (runAll ops s)).scene ∧ u.save.1 = .ok () ∧
            u.save.2.file = (op.run (runAll ops s)).file) ∧
        (¬ op.Writes (runAll ops s) → ¬ op.FailsToSave (runAll ops s) →
          (op.run (runAll ops s)).file = (runAll ops s).file) ∧
        (s.contents.IsWritable → (∀ op' ∈ op :: ops, op'.IsWritable) → ¬ op.FailsToSave (runAll ops s)) := by
  obtain ⟨documents, scene, hdocuments, hscene, hopen⟩ := open_of_holdsObjects hfile
  have hlinked : (⟨limit, documents, [], scene, 0, file⟩ : Store).Invariant fun _ v => v.HasDistinctKeys :=
    ⟨hlimit, fun key v hv => hdocuments.value hv, fun key hist hhist => by cases hhist⟩
  refine ⟨_, hopen limit, fun ops hops op hop => ?_⟩
  have hstorable := isStorable_runAll ⟨hlinked, hdocuments, hscene⟩ hops
  have hsaves : (⟨limit, documents, [], scene, 0, file⟩ : Store).contents.IsWritable →
      (∀ op' ∈ op :: ops, op'.IsWritable) → ¬ op.FailsToSave (runAll ops ⟨limit, documents, [], scene, 0, file⟩) := by
    intro hcontents hwritable
    obtain ⟨hopw, hopsw⟩ := List.forall_mem_cons.mp hwritable
    exact not_failsToSave_runAll (isSavable_of_isWritable hlimit rfl hcontents) hopsw hopw
  refine and_assoc.mp ⟨?_, hsaves⟩
  cases leaves_run hstorable hop with
  | saved hwrites hsaved _ _ =>
    refine ⟨fun _ limit' => ?_, fun hnot => absurd hwrites hnot⟩
    obtain ⟨u, hu, hu', hu''⟩ := reopen_of_isSaved (isStorable_run hstorable hop) hsaved limit'
    obtain ⟨hsave, hsave'⟩ := hsaved.save_eq hu' hu''
    exact ⟨u, hu, hu', hu'', hsave, hsave'⟩
  | failed hnot hfails _ _ => exact ⟨fun hwrites => absurd hwrites hnot, fun _ hnotFails => absurd hfails hnotFails⟩
  | kept hnot _ _ hkept => exact ⟨fun hwrites => absurd hwrites hnot, fun _ _ => hkept⟩

/-- A file of another hand: null for a document, and a scene without fields. -/
def oddFile : ByteArray := StateFile.encode ⟨.ofFields [("é", .null)], .ofFields []⟩

theorem fields?_oddFile : StateFile.fields? oddFile =
    .ok (some [("documents", .obj [("é", .null)]), ("scene", .obj [])]) := by
  have hdocuments : (Json.obj [("é", .null)]).HasDistinctKeys :=
    .obj (by decide) (List.forall_mem_singleton.mpr .null)
  have hscene : (Json.obj []).HasDistinctKeys := .obj List.nodup_nil (List.forall_mem_nil _)
  exact StateFile.fields?_encode (StateFile.hasDistinctKeys_contents hdocuments hscene) (by decide)

theorem holdsObjects_oddFile : HoldsObjects (some oddFile) := by
  rintro _ ⟨⟩
  refine ⟨_, fields?_oddFile, ?_⟩
  rintro _ ⟨⟩ key hkey v hv
  rcases List.mem_pair.mp hkey with rfl | rfl
  · exact ⟨_, (Option.some.inj hv).symm⟩
  · exact ⟨_, (Option.some.inj hv).symm⟩

/-- A scene at a place that is no number. -/
def lostScene : Assoc Json := [("k", .int 1), ("x", .double .notANumber), ("y", .double (.infinite true))]

/-- A scene without numbers is stored and found again, after a document was put and taken back. -/
theorem survives_restart_lost :
    (1 : Int) ≤ 1 ∧ HoldsObjects (some oddFile) ∧ ∃ s, Store.open 1 (some oddFile) = .ok s ∧
      let t := (Operation.setScene (.obj lostScene)).run
        (runAll [.put "d" (rawDocument "p" "http://p/" ""), .remove "é", .undo "d"] s)
      ∃ u, Store.open 100 t.file = .ok u ∧ u.documents = t.documents ∧ u.scene = .ofFields lostScene ∧
        u.save.2.file = t.file := by
  have hlimit : (1 : Int) ≤ 1 := by decide
  have hscene : Schema.scene (.obj lostScene) = .ok lostScene := by decide +kernel
  have hproper : (Operation.setScene (.obj lostScene)).IsProper := by
    rintro _ ⟨⟩
    refine .obj (by decide) ?_
    simp only [lostScene, List.forall_mem_cons]
    exact ⟨.int _, .double _, .double _, List.forall_mem_nil _⟩
  have hops : ∀ op ∈ [Operation.put "d" (rawDocument "p" "http://p/" ""), .remove "é", .undo "d"],
      op.IsProper := by
    simp only [List.forall_mem_cons]
    exact ⟨by rintro _ ⟨⟩, by rintro _ ⟨⟩, by rintro _ ⟨⟩, List.forall_mem_nil _⟩
  have hwritable : ∀ op ∈ [Operation.setScene (.obj lostScene), .put "d" (rawDocument "p" "http://p/" ""),
      .remove "é", .undo "d"], op.IsWritable := by
    simp only [List.forall_mem_cons]
    exact ⟨.setScene (by decide), .put (by decide) (by decide), .of_ne (by rintro _ _ ⟨⟩) (by rintro _ ⟨⟩),
      .of_ne (by rintro _ _ ⟨⟩) (by rintro _ ⟨⟩), List.forall_mem_nil _⟩
  obtain ⟨s, hs, hrun⟩ := survives_restart hlimit holdsObjects_oddFile
  obtain ⟨hwrites, -, hsaves⟩ := hrun _ hops _ hproper
  have hcontents : s.contents.IsWritable := by
    have hdecode : StateFile.decode oddFile = .ok ⟨.ofFields [("é", .null)], .ofFields []⟩ := by
      rw [StateFile.decode, fields?_oddFile]
      rfl
    have hopen := open_of_decode hdecode 1
    cases hs.symm.trans hopen
    decide
  have hset (t : Store) : t.setScene (.obj lostScene) =
      { t with scene := .ofFields lostScene }.changed lostScene := by
    rw [setScene, hscene]
  -- the scene is stored, as it would fail to be saved otherwise
  have hreports : (Operation.setScene (.obj lostScene)).ReportsChange
      (runAll [.put "d" (rawDocument "p" "http://p/" ""), .remove "é", .undo "d"] s) := by
    refine ⟨lostScene, ?_⟩
    have hnot := hsaves hcontents hwritable
    generalize runAll [.put "d" (rawDocument "p" "http://p/" ""), .remove "é", .undo "d"] s = t at hnot ⊢
    rw [hset]
    rcases changed_cases lostScene { t with scene := .ofFields lostScene } with ⟨-, hchanged⟩ | ⟨-, fault, hchanged⟩
    · rw [hchanged]
    · refine absurd ⟨fault, ?_⟩ hnot
      rw [Operation.error?, hset, hchanged]
      rfl
  obtain ⟨u, hu, hdocuments, hscene', -, hfile⟩ := hwrites (.inl hreports) 100
  refine ⟨hlimit, holdsObjects_oddFile, s, hs, u, hu, hdocuments, hscene'.trans ?_, hfile⟩
  rw [Operation.run, hset, scene_changed]

/-- A document that UTF-8 cannot hold is put into a new store, which ends with an error and leaves a file that holds
another thing. -/
theorem failed_put_spoils_file : Store.open 100 none = .ok empty ∧
    ∃ e, errorOf? (empty.put "d" halfDocument).1 = some e ∧
      ((Operation.put "d" halfDocument).run empty).file ≠ empty.file := by
  have hopen : Store.open 100 none = .ok empty := rfl
  obtain ⟨fault, hist, hput⟩ := put_halfDocument (invariant_open (by decide) hopen) "d" rfl
  refine ⟨hopen, .notWritten fault, by rw [hput]; rfl, ?_⟩
  rw [Operation.run, hput]
  exact Option.some_ne_none _

end Store

end Ontogram

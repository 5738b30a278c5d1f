/-
Starting from any state file.

A file that cannot be read, or holds no JSON object, counts as an empty one. A file that does hold an object
is trusted: no whole number in it may be too long, its documents and its scene have to be maps, and its documents have
to be texts of objects with elements and have keys with an order. Otherwise the service does not start:

* `StateFile.IsMap`, `StateFile.entries_isOk_iff` — the values that are read as a map;
* `StateFile.HoldsMaps`, `Store.open_isOk_iff` — the files that a store is opened on;
* `StateFile.IsServable`, `Store.list_isOk_iff_of_open` — the files whose documents can be listed;
* `isServable_of_fields?`, `isServable_encode` — files without an object, and files that a store wrote;
* `Service.serves_iff` — for every file, whether the service starts, and whether it can show its documents.
-/
import Ontogram.Proofs.AtomicUpdate
import Ontogram.Proofs.DocumentLists
import Ontogram.Proofs.PageText
import Ontogram.Proofs.Responses
import Ontogram.Service.EventStream
namespace Ontogram

open Traversal (bind_eq_ok_iff exists_bind_iff exists_bind_pure_iff)

namespace StateFile

variable {bytes : ByteArray} {v : Json}

/-! ### What is read as a map -/

/-- A value that is read as a key and a value: two characters, two items of which the first has no parts, or
the keys of two fields. -/
inductive IsPair : Json → Prop
  | characters (k v : CodePoint) : IsPair (.str (Text.ofList [k, v]))
  | items (key : Key) (v : Json) : IsPair (.arr [key.toJson, v])
  | fields (e f : Text × Json) : IsPair (.obj [e, f])

/-- A value that is read as a map: the empty text is one as well. -/
inductive IsMap : Json → Prop
  | fields (fields : Assoc Json) : IsMap (.obj fields)
  | pairs {items : List Json} (h : ∀ v ∈ items, IsPair v) : IsMap (.arr items)
  | empty : IsMap (.str "")

theorem pair_isOk_iff : (∃ e, pair v = .ok e) ↔ IsPair v := by
  constructor
  · rintro ⟨e, he⟩
    unfold pair at he
    -- a text, an array of two, another array, an object of two, another object, and anything else
    split at he
    · rename_i s
      split at he
      · rename_i k v hs
        rw [← Text.ofList_toList (s := s), hs]
        exact .characters k v
      · cases he
    · rename_i k v
      cases hkey : Key.ofJson? k with
      | none =>
        rw [hkey] at he
        cases he
      | some key =>
        rw [Key.ofJson?_eq_some_iff.mp hkey]
        exact .items key v
    · cases he
    · exact .fields _ _
    · cases he
    · cases he
  · rintro (⟨k, v⟩ | ⟨key, v⟩ | ⟨e, f⟩)
    · exact ⟨_, by rw [pair, Text.toList_ofList]⟩
    · exact ⟨(key, v), by simp only [pair, Key.ofJson?_eq_some_iff.mpr rfl]⟩
    · exact ⟨_, rfl⟩

theorem entries_isOk_iff : (∃ es, entries v = .ok es) ↔ IsMap v := by
  constructor
  · rintro ⟨es, hes⟩
    unfold entries at hes
    split at hes
    · exact .fields _
    · obtain ⟨pairs, hpairs, -⟩ := bind_eq_ok_iff.mp hes
      exact .pairs fun v hv => pair_isOk_iff.mp (Traversal.mapM_isOk_iff.mp ⟨pairs, hpairs⟩ v hv)
    · rename_i s
      split at hes
      · rename_i hempty
        rw [Text.isEmpty_iff.mp hempty]
        exact .empty
      · cases hes
    · cases hes
  · rintro (fields | hpairs | _)
    · exact ⟨_, rfl⟩
    · obtain ⟨pairs, h⟩ := Traversal.mapM_isOk_iff.mpr fun v hv => pair_isOk_iff.mpr (hpairs v hv)
      exact ⟨_, bind_eq_ok_iff.mpr ⟨pairs, h, rfl⟩⟩
    · exact ⟨[], rfl⟩

/-- The file can be read. If it holds an object, then its documents and its scene are maps, as far as it has them. -/
def HoldsMaps (bytes : ByteArray) : Prop :=
  ∃ found, fields? bytes = .ok found ∧ ∀ fields, found = some fields →
    ∀ key ∈ (["documents", "scene"] : List Text), ∀ v, fields.lookup key = some v → IsMap v

theorem part_isOk_iff {v? : Option Json} {absent : Entries} :
    (∃ es, (v?.map entries).getD (.ok absent) = .ok es) ↔ ∀ v, v? = some v → IsMap v := by
  cases v? with
  | none => simp
  | some v => simpa using entries_isOk_iff

theorem decode_isOk_iff : (∃ contents, decode bytes = .ok contents) ↔ HoldsMaps bytes := by
  unfold decode HoldsMaps
  cases fields? bytes with
  | error e => simp [bind, Except.bind]
  | ok found =>
    simp only [Except.ok.injEq, exists_eq_left', bind, Except.bind]
    cases found with
    | none => simp [pure, Except.pure]
    | some fields =>
      have hparts := exists_bind_iff (x := ((fields.lookup ("documents" : Text)).map entries).getD (.ok []))
        (f := fun documents => ((fields.lookup ("scene" : Text)).map entries).getD (.ok defaultScene) >>= fun scene =>
          pure (Contents.mk documents scene)) fun _ => exists_bind_pure_iff
      refine hparts.trans ?_
      rw [part_isOk_iff, part_isOk_iff]
      simp

end StateFile

namespace Store

variable {s : Store} {limit : Int} {bytes : ByteArray}

theorem open_isOk_iff : (∃ s, Store.open limit (some bytes) = .ok s) ↔ StateFile.HoldsMaps bytes :=
  exists_bind_pure_iff.trans StateFile.decode_isOk_iff

end Store

/-! ### Files -/

namespace StateFile

/-- The service can start on the file: its documents and its scene are maps, the keys of its documents have an
order, and every document can be listed. -/
structure IsServable (bytes : ByteArray) : Prop where
  maps : HoldsMaps bytes
  comparable : ∀ c, decode bytes = .ok c → Key.areComparable (Assoc.keys c.documents) = true
  listable : ∀ c, decode bytes = .ok c → ∀ key v, c.documents.lookup key = some v → IsListable v

variable {bytes : ByteArray}

theorem isServable_iff_of_decode {c : Contents} (h : decode bytes = .ok c) : IsServable bytes ↔
    Key.areComparable (Assoc.keys c.documents) = true ∧
      ∀ key v, c.documents.lookup key = some v → IsListable v := by
  constructor
  · intro hservable
    exact ⟨hservable.comparable c h, hservable.listable c h⟩
  · rintro ⟨hcomparable, hlistable⟩
    refine ⟨decode_isOk_iff.mp ⟨c, h⟩, fun c' hc' => ?_, fun c' hc' => ?_⟩
    · cases h.symm.trans hc'
      exact hcomparable
    · cases h.symm.trans hc'
      exact hlistable

/-- A file that holds no object counts as one without documents. -/
theorem isServable_of_fields? (h : fields? bytes = .ok none) : IsServable bytes := by
  have hdecode : decode bytes = .ok ⟨[], defaultScene⟩ := by
    rw [decode, h]
    rfl
  exact (isServable_iff_of_decode hdecode).mpr ⟨rfl, fun _ _ hv => by cases hv⟩

theorem areComparable_keys_ofFields (fields : Assoc Json) :
    Key.areComparable (Assoc.keys (Entries.ofFields fields)) = true := by
  refine Key.areComparable_of_isText fun key hkey => ?_
  rw [Assoc.keys, Entries.ofFields, List.map_map] at hkey
  obtain ⟨e, -, rfl⟩ := List.mem_map.mp hkey
  rfl

/-- A store that has texts of documents, under texts, writes a file that it can be opened on again, if it comes to the
end of it. -/
theorem isServable_encode {documents scene : Assoc Json} (hdocuments : (Json.obj documents).HasDistinctKeys)
    (hscene : (Json.obj scene).HasDistinctKeys) (h : Contents.IsWritable ⟨.ofFields documents, .ofFields scene⟩)
    (htexts : ∀ e ∈ documents, IsDocumentText e.2) :
    IsServable (encode ⟨.ofFields documents, .ofFields scene⟩) := by
  refine (isServable_iff_of_decode (decode_encode hdocuments hscene h)).mpr
    ⟨areComparable_keys_ofFields documents, fun key v hv => ?_⟩
  obtain ⟨e, he, heq⟩ := List.mem_map.mp (Assoc.mem_of_lookup hv)
  cases heq
  exact (htexts e he).isListable

end StateFile

open StateFile (IsServable)

namespace Store

variable {s : Store} {limit : Int} {bytes : ByteArray}

theorem list_isOk_iff_of_open (hlimit : 1 ≤ limit) (h : Store.open limit (some bytes) = .ok s) :
    (∃ listings, s.list.1 = .ok listings) ↔ IsServable bytes := by
  obtain ⟨hlimit', hhistories⟩ := limit_and_histories_of_open h
  have hinvariant : s.Invariant fun _ _ => True :=
    invariant_of_stored (hlimit' ▸ hlimit) hhistories fun _ _ _ => trivial
  obtain ⟨contents, hdecode, hs⟩ := bind_eq_ok_iff.mp h
  cases hs
  exact (list_isOk_iff hinvariant).trans (StateFile.isServable_iff_of_decode hdecode).symm

end Store

namespace Service

variable {s : Store}

/-! ### Responses -/

/-- Beside a list, the page needs something that can be sent. -/
theorem status_getPage : (getPage s).1.status = 200 ↔
    (∃ listings, s.list.1 = .ok listings) ∧ Page.IsSendable (Assoc.keys s.documents) s.scene := by
  unfold getPage
  cases h : s.list with
  | mk answer t =>
    cases answer with
    | error e => simp [Response.failed]
    | ok listings =>
      have hperm := Store.map_fst_perm_of_list (s := s) (by rw [h])
      have hscene : t.scene = s.scene := by
        obtain ⟨_, hlist⟩ := Store.list_snd (s := s)
        rw [h] at hlist
        have hstore : t = _ := hlist
        rw [hstore]
      have hids : (∀ e ∈ listings, e.1.fieldName.isEncodable = true) ↔
          ∀ key ∈ Assoc.keys s.documents, key.fieldName.isEncodable = true := by
        simp only [← hperm.mem_iff, List.forall_mem_map]
      simp only [hscene, Except.ok.injEq, exists_eq', true_and]
      split
      · rename_i hshowable
        rw [Response.status_ofText (by decide), Page.isEncodable_page, hids]
        exact ⟨fun hsent => ⟨hshowable, hsent.1, hsent.2⟩, fun hsent => ⟨hsent.ids, hsent.texts⟩⟩
      · rename_i hlong
        exact iff_of_false (by simp [Response.failed]) fun hsent => hlong hsent.showable

theorem eventStream_open_isOk_iff :
    (∃ event, (EventStream.open s).1 = .ok event) ↔ ∃ listings, s.list.1 = .ok listings := by
  rw [EventStream.open, EventStream.announce]
  cases h : s.list with
  | mk answer t => cases answer <;> simp

/-- The service starts iff the documents are listed; what may fail then is to save them at the end. -/
theorem starts_iff : (∀ e, (runLifetime s).1 = .error e → ∃ fault, e = .notWritten fault) ↔
    ∃ listings, s.list.1 = .ok listings := by
  unfold runLifetime
  cases h : s.list with
  | mk answer t =>
    cases answer with
    | error e =>
      refine iff_of_false (fun hstarts => ?_) (by simp)
      obtain ⟨fault, rfl⟩ := hstarts e rfl
      exact Store.not_failsToSave_list ⟨fault, Store.errorOf?_eq_some_iff.mpr (congrArg Prod.fst h)⟩
    | ok listings =>
      refine iff_of_true (fun e he => ?_) ⟨listings, rfl⟩
      obtain ⟨fault, -, rfl⟩ := Traversal.mapError_eq_error_iff.mp he
      exact ⟨fault, rfl⟩

/-- The service comes to its end iff it starts, and what is saved then can be written. -/
theorem runLifetime_isOk_iff : (runLifetime s).1 = .ok () ↔
    (∃ listings, s.list.1 = .ok listings) ∧ s.contents.IsWritable := by
  unfold runLifetime
  cases h : s.list with
  | mk answer t =>
    cases answer with
    | error e => simp
    | ok listings =>
      have hcontents : t.contents = s.contents := by
        obtain ⟨_, hlist⟩ := Store.list_snd (s := s)
        rw [h] at hlist
        have hstore : t = _ := hlist
        rw [hstore]
        rfl
      simp only [Store.save_fst_eq_ok_iff, hcontents, Except.ok.injEq, exists_eq', true_and]

theorem isFinite_listingsJson (listings : List (Key × Listing)) :
    (listingsJson listings).isFinite = true ↔ ∀ e ∈ listings, e.1.toJson.isFinite = true := by
  rw [listingsJson, Json.isFinite, Json.all_obj_iff, List.forall_mem_map]
  refine forall₂_congr fun e _ => ?_
  simp [Listing.toJson, Json.isFinite, Json.all, Json.allFields]

theorem isEncodable_toJson (key : Key) : key.toJson.isEncodable = key.fieldName.isEncodable := by
  cases key with
  | text s => rfl
  | _ => exact (Json.isEncodable_text Json.isMarked_compact rfl _).symm

theorem isEncodable_listingsJson (listings : List (Key × Listing)) :
    (listingsJson listings).isEncodable = true ↔ ∀ e ∈ listings, e.1.fieldName.isEncodable = true := by
  rw [listingsJson, Json.isEncodable, Json.allTexts, Json.all_obj_iff, List.forall_mem_map]
  refine forall₂_congr fun e _ => ?_
  have hid := isEncodable_toJson e.1
  rw [Json.isEncodable, Json.allTexts] at hid
  simp [Listing.toJson, Json.all, Json.allFields, Json.onText, hid]

/-- Beside a list, the response needs keys that JSON has a spelling for and UTF-8 has. -/
theorem status_getDocuments : (getDocuments s).1.status = 200 ↔
    (∃ listings, s.list.1 = .ok listings) ∧
      ∀ key ∈ Assoc.keys s.documents, key.toJson.isFinite = true ∧ key.fieldName.isEncodable = true := by
  unfold getDocuments
  cases h : s.list with
  | mk answer t =>
    cases answer with
    | error e => simp [Response.failed]
    | ok listings =>
      have hperm := Store.map_fst_perm_of_list (s := s) (by rw [h])
      simp only [Response.status_json, isFinite_listingsJson, isEncodable_listingsJson, ← forall₂_and,
        ← hperm.mem_iff, List.forall_mem_map, Except.ok.injEq, exists_eq', true_and]

/-- **Starting from any file.** A store is opened on the file and lists its documents iff the file is servable.
A store that was opened can open a stream and start iff it is; its page needs ids and texts that can be sent besides,
the list of documents keys that can be sent, and saving at the end documents and a scene that can be written. -/
theorem serves_iff {limit : Int} (hlimit : 1 ≤ limit) (bytes : ByteArray) :
    ((∃ s listings, Store.open limit (some bytes) = .ok s ∧ s.list.1 = .ok listings) ↔ IsServable bytes) ∧
      ∀ s, Store.open limit (some bytes) = .ok s →
        ((getPage s).1.status = 200 ↔ IsServable bytes ∧ Page.IsSendable (Assoc.keys s.documents) s.scene) ∧
        ((getDocuments s).1.status = 200 ↔ IsServable bytes ∧
          ∀ key ∈ Assoc.keys s.documents, key.toJson.isFinite = true ∧ key.fieldName.isEncodable = true) ∧
        ((∃ event, (EventStream.open s).1 = .ok event) ↔ IsServable bytes) ∧
        ((∀ e, (runLifetime s).1 = .error e → ∃ fault, e = .notWritten fault) ↔ IsServable bytes) ∧
        ((runLifetime s).1 = .ok () ↔ IsServable bytes ∧ s.contents.IsWritable) := by
  refine ⟨?_, fun s hs => ?_⟩
  · constructor
    · rintro ⟨s, listings, hs, hlistings⟩
      exact (Store.list_isOk_iff_of_open hlimit hs).mp ⟨listings, hlistings⟩
    · intro hservable
      obtain ⟨s, hs⟩ := Store.open_isOk_iff.mpr hservable.maps
      obtain ⟨listings, hlistings⟩ := (Store.list_isOk_iff_of_open hlimit hs).mpr hservable
      exact ⟨s, listings, hs, hlistings⟩
  · have hlist := Store.list_isOk_iff_of_open hlimit hs
    exact ⟨status_getPage.trans (and_congr_left fun _ => hlist),
      status_getDocuments.trans (and_congr_left fun _ => hlist), eventStream_open_isOk_iff.trans hlist,
      starts_iff.trans hlist, runLifetime_isOk_iff.trans (and_congr_left fun _ => hlist)⟩

/-! ### Three files -/

/-- A file that holds an object. -/
def fileOf (fields : Assoc Json) : ByteArray := ((Json.obj fields).dump (.indented false)).2.toUTF8

theorem fields?_fileOf {fields : Assoc Json} (h : (Json.obj fields).HasDistinctKeys)
    (hshort : (Json.obj fields).hasShortNumbers = true) (hencodable : (Json.obj fields).isEncodable = true) :
    StateFile.fields? (fileOf fields) = .ok (some fields) := by
  have hmarked := Json.isMarked_indented false
  have htext := Json.dump_eq ((Json.dump_isOk_iff hmarked rfl).mpr ⟨hshort, hencodable⟩)
  rw [StateFile.fields?, fileOf, Json.parse_ofFile?_text Json.isReadable_indented hmarked ⟨h, hshort⟩ htext]

/-- The text of an object whose elements are a list. -/
def listedText : Text := "\x7b\"elements\":[]\x7d"

theorem isListable_listedText : IsListable (.str listedText) :=
  ⟨listedText, [("elements", .arr [])], .arr [], rfl, by decide +kernel, rfl, .arr []⟩

/-- Documents as pairs of a key and a text. -/
def pairsFields : Assoc Json :=
  [("documents", .arr [.arr [.str "b", .str listedText], .arr [.str "a", .str listedText]])]

theorem decode_pairsFields : StateFile.decode (fileOf pairsFields) =
    .ok ⟨[(.text "b", .str listedText), (.text "a", .str listedText)], StateFile.defaultScene⟩ := by
  have hdistinct : (Json.obj pairsFields).HasDistinctKeys := by
    simp [pairsFields, Assoc.keys, Json.hasDistinctKeys_obj_iff, Json.hasDistinctKeys_arr_iff,
      Json.HasDistinctKeys.str]
  rw [StateFile.decode, fields?_fileOf hdistinct (by decide) (by decide)]
  decide +kernel

theorem serves_iff_pairs : (1 : Int) ≤ 1 ∧ IsServable (fileOf pairsFields) ∧
    ∃ s, Store.open 1 (some (fileOf pairsFields)) = .ok s ∧ (∃ listings, s.list.1 = .ok listings) ∧
      (getPage s).1.status = 200 ∧ (getDocuments s).1.status = 200 ∧ (runLifetime s).1 = .ok () := by
  have hservable : IsServable (fileOf pairsFields) := by
    refine (StateFile.isServable_iff_of_decode decode_pairsFields).mpr ⟨by decide, fun key v hv => ?_⟩
    have hmem := Assoc.mem_of_lookup hv
    simp only [List.mem_cons, Prod.mk.injEq, List.not_mem_nil, or_false] at hmem
    rcases hmem with ⟨-, rfl⟩ | ⟨-, rfl⟩ <;> exact isListable_listedText
  have hopen := Store.open_of_decode decode_pairsFields 1
  obtain ⟨hserves, hresponses⟩ := serves_iff (le_refl (1 : Int)) (fileOf pairsFields)
  obtain ⟨s, listings, hs, hlist⟩ := hserves.mpr hservable
  obtain ⟨hpage, hdocuments, -, -, hlifetime⟩ := hresponses s hs
  cases hopen.symm.trans hs
  have hsendable : Page.IsSendable [.text "b", .text "a"] StateFile.defaultScene := by
    refine ⟨by decide, by decide, ?_⟩
    simp only [List.forall_mem_cons]
    exact ⟨by rintro _ ⟨⟩, by rintro _ ⟨⟩, by rintro _ ⟨⟩, List.forall_mem_nil _⟩
  exact ⟨le_refl _, hservable, _, hopen, ⟨listings, hlist⟩, hpage.mpr ⟨hservable, hsendable⟩,
    hdocuments.mpr ⟨hservable, by decide⟩, hlifetime.mpr ⟨hservable, by decide⟩⟩

/-- A document without elements. -/
def elementlessFields : Assoc Json := [("documents", .obj [("d", .str "\x7b\x7d")])]

theorem decode_elementlessFields : StateFile.decode (fileOf elementlessFields) =
    .ok ⟨[(.text "d", .str "\x7b\x7d")], StateFile.defaultScene⟩ := by
  have hdistinct : (Json.obj elementlessFields).HasDistinctKeys := by
    simp [elementlessFields, Assoc.keys, Json.hasDistinctKeys_obj_iff, Json.HasDistinctKeys.str]
  rw [StateFile.decode, fields?_fileOf hdistinct (by decide) (by decide)]
  rfl

theorem not_isServable_elementlessFields : ¬ IsServable (fileOf elementlessFields) := by
  intro h
  obtain ⟨text, fields, elements, heq, hparse, helements, -⟩ :=
    h.listable _ decode_elementlessFields (.text "d") _ List.lookup_cons_self
  cases heq
  have hempty : Json.parse "\x7b\x7d" = .ok (.obj []) := by decide +kernel
  cases hempty.symm.trans hparse
  cases helements

/-- Documents that are no map keep the store from being opened. One without elements leaves a store that can
show none, and a service that does not start. -/
theorem state_file_stops_service :
    Store.open 1 (some (fileOf [("documents", .null)])) = .error .notPairs ∧
      ∃ s, Store.open 1 (some (fileOf elementlessFields)) = .ok s ∧
        (∀ listings, s.list.1 ≠ .ok listings) ∧ (getPage s).1.status ≠ 200 ∧ (runLifetime s).1 ≠ .ok () := by
  have hnull : (Json.obj [("documents", .null)]).HasDistinctKeys := by
    simp [Assoc.keys, Json.hasDistinctKeys_obj_iff, Json.HasDistinctKeys.null]
  have hopen := Store.open_of_decode decode_elementlessFields 1
  have hlist : ¬ ∃ listings, _ = Except.ok listings :=
    (Store.list_isOk_iff_of_open (le_refl 1) hopen).not.mpr not_isServable_elementlessFields
  refine ⟨?_, _, hopen, not_exists.mp hlist, fun hpage => hlist (status_getPage.mp hpage).1,
    fun hend => hlist (runLifetime_isOk_iff.mp hend).1⟩
  rw [Store.open, StateFile.decode, fields?_fileOf hnull (by decide) (by decide)]
  rfl

end Service

end Ontogram

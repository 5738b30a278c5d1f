/-
Updates that fail.

An offered document or scene is refused before anything is stored, with two exceptions. A number without digits
passes every check, but the response that would show it to the client cannot be sent, so the client hears of a
failure after the store has changed. And half of a surrogate pair passes every check, but neither the file nor the
response can hold it:

* `put_error`, `setScene_error` — a store that refuses a value stays as it was, unless its file could not be written;
* `isWritable_put`, `isWritable_setScene` — what is offered can be written along with what is there;
* `status_documentResponse` — a stored document can be shown iff its numbers have digits and its texts are sent, as
  its text is read again as the value that was offered;
* `refused_update_keeps_store_iff` — whether an update is all or nothing, for every store that can be reached;
* `failed_update_changes_store` — a scene for which it is not.
-/
import Ontogram.Proofs.Effects
import Ontogram.Proofs.Recompilation
import Ontogram.Proofs.Responses
import Ontogram.Service.Endpoint
namespace Ontogram

open Traversal (bind_eq_ok_iff)

/-! ### The store -/

/-- A scene is stored as it was offered. -/
theorem Schema.eq_of_scene {v : Json} {fields : Assoc Json} (h : scene v = .ok fields) :
    v = .obj fields := by
  unfold scene at h
  split at h
  · split at h
    · obtain ⟨_, -, h⟩ := bind_eq_ok_iff.mp h
      obtain ⟨_, -, h⟩ := bind_eq_ok_iff.mp h
      obtain ⟨_, -, h⟩ := bind_eq_ok_iff.mp h
      obtain ⟨_, -, h⟩ := bind_eq_ok_iff.mp h
      cases h
      rfl
    · cases h
  · cases h

namespace Store

variable {s t : Store} {e : StoreError}

/-- A document that cannot be put leaves the store as it was, or its file could not be written. -/
theorem put_error {id : Text} {v : Json} (h : s.put id v = (.error e, t)) :
    ((∀ fault, e ≠ .notWritten fault) ∧ t = s) ∨
      ∃ c hist fault, compileValue v = .ok c ∧ s.historyOf (.text id) = .ok hist ∧
      hist.current ≠ some (.str c.canonical) ∧ e = .notWritten fault ∧
      ∃ u, u = s.withRecord (.text id) (hist.push (.str c.canonical)).2 (.str c.canonical) ∧
        ¬ u.contents.IsWritable ∧ t = u.save.2 := by
  rcases put_cases (s := s) id v with ⟨e', he, hput⟩ | ⟨c, hist, hc, hhist, ⟨-, hput⟩ | ⟨hnew, hput⟩⟩
  · cases hput.symm.trans h
    exact .inl ⟨he, rfl⟩
  · cases hput.symm.trans h
  · obtain ⟨hnot, ⟨fault, rfl⟩, rfl⟩ := changed_eq_error (hput.symm.trans h)
    exact .inr ⟨c, hist, fault, hc, hhist, hnew, rfl, _, rfl, hnot, rfl⟩

theorem setScene_error {v : Json} (h : s.setScene v = (.error e, t)) :
    ((∀ fault, e ≠ .notWritten fault) ∧ t = s) ∨ ∃ fields fault, Schema.scene v = .ok fields ∧ e = .notWritten fault ∧
      ¬ { s with scene := .ofFields fields }.contents.IsWritable ∧ t = { s with scene := .ofFields fields }.save.2 := by
  rcases setScene_cases (s := s) v with ⟨violation, hset⟩ | ⟨fields, hfields, hset⟩
  · cases hset.symm.trans h
    exact .inl ⟨by rintro _ ⟨⟩, rfl⟩
  · obtain ⟨hnot, ⟨fault, rfl⟩, rfl⟩ := changed_eq_error (hset.symm.trans h)
    exact .inr ⟨fields, fault, hfields, rfl, hnot, rfl⟩

/-- A canonical text of characters can be written along with what is there. -/
theorem isWritable_put (hs : s.contents.IsWritable) {id : Text} (hid : id.isEncodable = true) {v : Json}
    (hv : v.isEncodable = true) (hist : History Json) :
    (s.withRecord (.text id) hist (.str v.canonical)).contents.IsWritable := by
  obtain ⟨hdocuments, hscene⟩ := StateFile.isWritable_iff.mp hs
  have hvalue : (Json.str v.canonical).isEncodable = true := (Json.isEncodable_canonical v).trans hv
  exact StateFile.isWritable_iff.mpr ⟨hdocuments.insert hid rfl hvalue, hscene⟩

/-- So can a scene that was read. -/
theorem isWritable_setScene (hs : s.contents.IsWritable) (fields : Assoc Json)
    (hshort : (Json.obj fields).hasShortNumbers = true) (hv : (Json.obj fields).isEncodable = true) :
    { s with scene := .ofFields fields }.contents.IsWritable := by
  obtain ⟨hdocuments, -⟩ := StateFile.isWritable_iff.mp hs
  exact StateFile.isWritable_iff.mpr ⟨hdocuments, Entries.isWritable_ofFields hshort hv⟩

/-- What is stored is the canonical text of what was offered. -/
theorem put_eq_ok {id text value : Text} {isNew : Bool}
    (h : s.put id (.str text) = (.ok (value, isNew), t)) :
    ∃ v c, Json.parse text = .ok v ∧ compile v = .ok c ∧ value = v.canonical := by
  have hcanonical {c : Compilation} (hc : compileText text = .ok c) :
      ∃ v c', Json.parse text = .ok v ∧ compile v = .ok c' ∧ c.canonical = v.canonical := by
    obtain ⟨v, hv, hcompile⟩ := compileText_eq_ok_iff.mp hc
    exact ⟨v, c, hv, hcompile, canonical_of_compile hcompile⟩
  rcases put_cases (s := s) id (.str text) with ⟨_, -, hput⟩ | ⟨c, _, hc, -, ⟨-, hput⟩ | ⟨-, hput⟩⟩
  · cases hput.symm.trans h
  · cases hput.symm.trans h
    exact hcanonical hc
  · obtain ⟨-, heq⟩ := changed_fst_eq_ok_iff.mp (congrArg Prod.fst (hput.symm.trans h))
    cases heq
    exact hcanonical hc

theorem setScene_eq_ok {v : Json} {fields : Assoc Json} (h : s.setScene v = (.ok fields, t)) :
    Schema.scene v = .ok fields := by
  rcases setScene_cases (s := s) v with ⟨_, hset⟩ | ⟨_, hfields, hset⟩
  · cases hset.symm.trans h
  · obtain ⟨-, rfl⟩ := changed_fst_eq_ok_iff.mp (congrArg Prod.fst (hset.symm.trans h))
    exact hfields

/-- A store that was just opened without a state file. -/
def empty : Store := ⟨100, [], [], StateFile.defaultScene, 0, none⟩

theorem isReachable_empty : empty.IsReachable := by
  have hopen : Store.open 100 none = .ok empty := rfl
  exact .opened hopen

theorem isWritable_empty : empty.contents.IsWritable := by
  refine StateFile.isWritable_iff.mpr ⟨List.forall_mem_nil _, ?_⟩
  simp only [empty, contents, StateFile.defaultScene, Entries.IsWritable, List.forall_mem_cons]
  decide

/-- A document that compiles leaves a file behind. -/
theorem file_put_empty {id : Text} {v : Json} {c : Compilation} (hc : compileValue v = .ok c) :
    (empty.put id v).2.file ≠ none := by
  have hhistory : empty.historyOf (.text id) = .ok ⟨100, [], none, []⟩ := rfl
  have hnew : ((⟨100, [], none, []⟩ : History Json).push (.str c.canonical)).1 = true := rfl
  unfold put
  simp only [hc, hhistory, hnew, if_true, file_changed]
  exact Option.some_ne_none _

end Store

namespace Service

/-- A request to store a document or a scene. -/
def IsUpdate (r : Request) : Prop :=
  r.method.toUpper = "PUT" ∧
    (target r.path = .resource .scene ∨ ∃ id, target r.path = .resource (.document id))

/-- The value in the body of an update that passes every check before it is stored. -/
inductive Offers (r : Request) : Json → Prop
  | document {id text : Text} {v : Json} {c : Compilation}
      (hpath : target r.path = .resource (.document id)) (htext : Text.ofUtf8? r.body = some text)
      (hparse : Json.parse text = .ok v) (hcompile : compile v = .ok c) : Offers r v
  | scene {text : Text} {v : Json} {fields : Assoc Json}
      (hpath : target r.path = .resource .scene) (htext : Text.decodeAny r.body.data.toList = some text)
      (hparse : Json.parse text = .ok v) (hscene : Schema.scene v = .ok fields) : Offers r v

/-- An update offers one value at most. -/
theorem Offers.unique {r : Request} {v w : Json} (hv : Offers r v) (hw : Offers r w) : v = w := by
  cases hv with
  | document hpath htext hparse _ =>
    cases hw with
    | document _ htext' hparse' _ =>
      cases htext.symm.trans htext'
      cases hparse.symm.trans hparse'
      rfl
    | scene hpath' _ _ _ => cases hpath.symm.trans hpath'
  | scene hpath htext hparse _ =>
    cases hw with
    | document hpath' _ _ _ => cases hpath.symm.trans hpath'
    | scene _ htext' hparse' _ =>
      cases htext.symm.trans htext'
      cases hparse.symm.trans hparse'
      rfl

/-- The id in a path is one of characters, as the path is. -/
theorem isEncodable_of_target {path : String} {id : Text} (h : target path = .resource (.document id)) :
    id.isEncodable = true := by
  have hpath {path : String} (h : Resource.ofPath? path = some (.document id)) : id.isEncodable = true := by
    unfold Resource.ofPath? Resource.ofTopName? Resource.ofName? at h
    simp only at h
    repeat' split at h
    all_goals cases h
    exact Text.isEncodable_iff.mpr ⟨_, rfl⟩
  unfold target at h
  simp only at h
  split at h
  · rename_i resource hresource
    cases h
    exact hpath hresource
  · split at h <;> cases h

/-- A stored document can be shown iff its numbers have digits and its texts can be sent. -/
theorem status_documentResponse {v : Json} (hv : v.IsReadable) {id : Text} (hid : id.isEncodable = true)
    (isNew : Bool) :
    (documentResponse id (.str v.canonical) [("changed", .bool isNew)]).status = 200 ↔
      v.isFinite = true ∧ v.isEncodable = true := by
  have hfields : (Json.obj (("id", .str id) :: ("value", .str v.canonical) :: ("document", v.sortKeys) ::
      [("changed", .bool isNew)])).isFinite = v.isFinite := by
    simp [Json.isFinite, Json.all, Json.allFields, Json.all_sortKeys]
  have htexts : (Json.obj (("id", .str id) :: ("value", .str v.canonical) :: ("document", v.sortKeys) ::
      [("changed", .bool isNew)])).isEncodable = v.isEncodable := by
    have hname (s : String) : (Text.ofString s).isEncodable = true := Text.isEncodable_iff.mpr ⟨s, rfl⟩
    have hcanonical := Json.isEncodable_canonical v
    unfold Json.isEncodable Json.allTexts at hcanonical ⊢
    simp [Json.all, Json.allFields, Json.onText, Json.all_sortKeys, hid, hname, hcanonical]
  unfold documentResponse
  simp only [Json.parse_canonical hv]
  rw [Response.status_json, hfields, htexts]

theorem status_failed : Response.failed.status ≠ 200 := by decide

section Writable

variable {s : Store} (hs : s.contents.IsWritable)

include hs

/-- Either nothing was stored, or the body holds a document that compiles. -/
theorem putDocument_cases {id : Text} (hid : id.isEncodable = true) (body : ByteArray) :
    (putDocument id body s).2 = s ∨
      ∃ text v c, Text.ofUtf8? body = some text ∧ Json.parse text = .ok v ∧ compile v = .ok c ∧
        ((putDocument id body s).1.status = 200 ↔ v.isFinite = true ∧ v.isEncodable = true) := by
  unfold putDocument
  cases htext : Text.ofUtf8? body with
  | none => exact .inl rfl
  | some text =>
    simp only
    split
    · rename_i value isNew t hput
      obtain ⟨v, c, hparse, hcompile, rfl⟩ := Store.put_eq_ok hput
      exact .inr ⟨text, v, c, rfl, hparse, hcompile,
        status_documentResponse (Json.isReadable_of_parse hparse) hid isNew⟩
    · rename_i hput
      rcases Store.put_error hput with ⟨-, hsame⟩ | ⟨_, _, _, _, _, _, ⟨⟩, _⟩
      exact .inl hsame
    · rename_i hput
      rcases Store.put_error hput with ⟨-, hsame⟩ | ⟨c, hist, _, hc, -, -, -, _, rfl, hnot, -⟩
      · exact .inl hsame
      · -- the file could hold everything but what is offered
        obtain ⟨v, hparse, hcompile⟩ := compileText_eq_ok_iff.mp hc
        refine .inr ⟨text, v, c, rfl, hparse, hcompile, iff_of_false status_failed fun h => hnot ?_⟩
        rw [canonical_of_compile hcompile]
        exact Store.isWritable_put hs hid h.2 _

theorem putScene_cases (body : ByteArray) :
    (putScene body s).2 = s ∨
      ∃ text v fields, Text.decodeAny body.data.toList = some text ∧ Json.parse text = .ok v ∧
        Schema.scene v = .ok fields ∧
        ((putScene body s).1.status = 200 ↔ v.isFinite = true ∧ v.isEncodable = true) := by
  unfold putScene
  cases htext : Text.decodeAny body.data.toList with
  | none => exact .inl rfl
  | some text =>
    rw [Option.map_some]
    cases hparse : Json.parse text with
    | error fault => cases fault <;> exact .inl rfl
    | ok v =>
      simp only
      split
      · rename_i fields t hput
        have hscene := Store.setScene_eq_ok hput
        refine .inr ⟨text, v, fields, rfl, hparse, hscene, ?_⟩
        rw [Schema.eq_of_scene hscene]
        exact Response.status_json _
      · rename_i hput
        rcases Store.setScene_error hput with ⟨-, hsame⟩ | ⟨_, _, _, ⟨⟩, _⟩
        exact .inl hsame
      · rename_i hput
        rcases Store.setScene_error hput with ⟨-, hsame⟩ | ⟨fields, _, hscene, -, hnot, -⟩
        · exact .inl hsame
        · have hshort := (Json.isReadable_of_parse hparse).short
          refine .inr ⟨text, v, fields, rfl, hparse, hscene, iff_of_false status_failed fun h => hnot ?_⟩
          rw [Schema.eq_of_scene hscene] at hshort h
          exact Store.isWritable_setScene hs _ hshort h.2

end Writable

/-- A scene that passes every check and can be written is stored and shown. -/
theorem putScene_of_isWritable {body : ByteArray} {s : Store} {text : Text} {v : Json} {fields : Assoc Json}
    (htext : Text.decodeAny body.data.toList = some text) (hparse : Json.parse text = .ok v)
    (hscene : Schema.scene v = .ok fields) (hs : { s with scene := .ofFields fields }.contents.IsWritable) :
    putScene body s =
      (.json (.obj fields), { { s with scene := .ofFields fields }.save.2 with version := s.version + 1 }) := by
  unfold putScene
  simp only [htext, Option.map_some, hparse, Store.setScene, hscene, Store.changed_of_isWritable _ _ hs]

/-- A resource answers a request in its method's capital letters. -/
theorem respond_resource {r : Request} {resource : Resource} (hpath : target r.path = .resource resource)
    (s : Store) :
    (respond r s).1.status = (respondAt resource { r with method := r.method.toUpper } s).1.status ∧
      (respond r s).2 = (respondAt resource { r with method := r.method.toUpper } s).2 := by
  simp [respond, route, hpath, Response.status_forMethod]

theorem respond_document {r : Request} {id : Text} (hmethod : r.method.toUpper = "PUT")
    (hpath : target r.path = .resource (.document id)) (s : Store) :
    (respond r s).1.status = (putDocument id r.body s).1.status ∧
      (respond r s).2 = (putDocument id r.body s).2 := by
  have h := respond_resource hpath s
  rw [hmethod] at h
  exact h

theorem respond_scene {r : Request} (hmethod : r.method.toUpper = "PUT")
    (hpath : target r.path = .resource .scene) (s : Store) :
    (respond r s).1.status = (putScene r.body s).1.status ∧
      (respond r s).2 = (putScene r.body s).2 := by
  have h := respond_resource hpath s
  rw [hmethod] at h
  exact h

/-- Either an update stores nothing, or what it offers passes every check; then it succeeds iff the file and the
response can be written. -/
theorem respond_cases {r : Request} (h : IsUpdate r) {s : Store} (hs : s.contents.IsWritable) :
    (respond r s).2 = s ∨
      ∃ v, Offers r v ∧ ((respond r s).1.status = 200 ↔ v.isFinite = true ∧ v.isEncodable = true) := by
  obtain ⟨hmethod, hpath | ⟨id, hpath⟩⟩ := h
  · obtain ⟨hstatus, hstore⟩ := respond_scene hmethod hpath s
    rw [hstatus, hstore]
    rcases putScene_cases hs r.body with hsame | ⟨text, v, fields, htext, hparse, hscene, hiff⟩
    · exact .inl hsame
    · exact .inr ⟨v, .scene hpath htext hparse hscene, hiff⟩
  · obtain ⟨hstatus, hstore⟩ := respond_document hmethod hpath s
    rw [hstatus, hstore]
    rcases putDocument_cases hs (isEncodable_of_target hpath) r.body with
      hsame | ⟨text, v, c, htext, hparse, hcompile, hiff⟩
    · exact .inl hsame
    · exact .inr ⟨v, .document hpath htext hparse hcompile, hiff⟩

/-- What passes every check changes a store that holds nothing yet, whether or not it can be shown. -/
theorem respond_empty {r : Request} (h : IsUpdate r) {v : Json} (hv : Offers r v) :
    (respond r Store.empty).2.file ≠ none := by
  cases hv with
  | @document id text _ c hpath htext hparse hcompile =>
    obtain ⟨-, hstore⟩ := respond_document h.1 hpath Store.empty
    have hvalue : compileValue (.str text) = .ok _ := compileText_eq_ok_iff.mpr ⟨v, hparse, hcompile⟩
    have hfile : (Store.empty.put id (.str text)).2.file ≠ none := Store.file_put_empty hvalue
    rw [hstore]
    unfold putDocument
    simp only [htext]
    split <;> rename_i hput <;> rw [hput] at hfile <;> exact hfile
  | @scene text _ fields hpath htext hparse hscene =>
    obtain ⟨-, hstore⟩ := respond_scene h.1 hpath Store.empty
    have hfile : (Store.empty.setScene v).2.file ≠ none := by
      simp only [Store.setScene, hscene, Store.file_changed]
      exact Option.some_ne_none _
    rw [hstore]
    unfold putScene
    simp only [htext, Option.map_some, hparse]
    split <;> rename_i hput <;> rw [hput] at hfile <;> exact hfile

/-- Whatever store an update meets whose contents can be written, it is all or nothing, iff the value it offers, if
that passes every check, has digits for all its numbers and nothing but characters in its texts. -/
theorem refused_update_keeps_store_iff {r : Request} (h : IsUpdate r) :
    (∀ s : Store, s.IsReachable → s.contents.IsWritable → (respond r s).1.status ≠ 200 → (respond r s).2 = s) ↔
      ∀ v, Offers r v → v.isFinite = true ∧ v.isEncodable = true := by
  constructor
  · intro hatomic v hv
    have hfile := respond_empty h hv
    have hchanged : (respond r Store.empty).2 ≠ Store.empty := by
      intro hsame
      rw [hsame] at hfile
      exact hfile rfl
    rcases respond_cases h Store.isWritable_empty with hsame | ⟨w, hw, hiff⟩
    · exact absurd hsame hchanged
    · obtain rfl := hv.unique hw
      by_contra hnot
      exact hchanged (hatomic _ Store.isReachable_empty Store.isWritable_empty (hiff.not.mpr hnot))
  · intro hoffered s _ hs hstatus
    rcases respond_cases h hs with hsame | ⟨v, hv, hiff⟩
    · exact hsame
    · exact absurd (hiff.mpr (hoffered v hv)) hstatus

/-- A request to move the canvas. -/
def moveRequest (text : String) : Request := ⟨"PUT", "/api/scene", text.toUTF8⟩

theorem target_moveRequest (text : String) : target (moveRequest text).path = .resource .scene := by
  have htarget : target "/api/scene" = .resource .scene := by decide +kernel
  exact htarget

theorem isUpdate_moveRequest (text : String) : IsUpdate (moveRequest text) := by
  have hmethod : "PUT".toUpper = "PUT" := by decide +kernel
  exact ⟨hmethod, .inl (target_moveRequest text)⟩

/-- A scene without a zoom. -/
def zoomlessText : String := "\x7b\"x\":1,\"y\":0\x7d"

theorem not_offers_zoomless (v : Json) : ¬ Offers (moveRequest zoomlessText) v := by
  have htarget := target_moveRequest zoomlessText
  have hdecoded : Text.decodeAny (moveRequest zoomlessText).body.data.toList = some zoomlessText := by
    decide +kernel
  have hparsed : Json.parse zoomlessText = .ok (.obj [("x", .int 1), ("y", .int 0)]) := by decide +kernel
  have hrefused : Schema.scene (.obj [("x", .int 1), ("y", .int 0)]) = .error .missingSceneField := by
    decide +kernel
  intro h
  cases h with
  | document hpath =>
    rw [htarget] at hpath
    cases hpath
  | scene hpath htext hparse hscene =>
    rw [hdecoded] at htext
    cases htext
    rw [hparsed] at hparse
    cases hparse
    rw [hrefused] at hscene
    cases hscene

/-- A scene without a zoom leaves every store that refuses it as it was. -/
theorem refused_update_keeps_store_zoomless :
    IsUpdate (moveRequest zoomlessText) ∧
      ∀ s : Store, s.IsReachable → s.contents.IsWritable →
        (respond (moveRequest zoomlessText) s).1.status ≠ 200 → (respond (moveRequest zoomlessText) s).2 = s := by
  have h := isUpdate_moveRequest zoomlessText
  exact ⟨h, (refused_update_keeps_store_iff h).mpr fun v hv => absurd hv (not_offers_zoomless v)⟩

/-- A scene whose origin lies beyond all numbers. -/
def endlessText : String := "\x7b\"x\":1e999,\"y\":0,\"k\":1\x7d"

/-- The scene is stored, and the client hears of a failure. -/
theorem failed_update_changes_store :
    ∃ (r : Request) (s : Store), IsUpdate r ∧ s.IsReachable ∧ (respond r s).1.status ≠ 200 ∧
      s.version = 0 ∧ (respond r s).2.version = 1 := by
  have hdecoded : Text.decodeAny (moveRequest endlessText).body.data.toList = some endlessText := by
    decide +kernel
  have hparsed : Json.parse endlessText =
      .ok (.obj [("x", .double (.infinite false)), ("y", .int 0), ("k", .int 1)]) := by decide +kernel
  have hscene : Schema.scene (.obj [("x", .double (.infinite false)), ("y", .int 0), ("k", .int 1)]) =
      .ok [("x", .double (.infinite false)), ("y", .int 0), ("k", .int 1)] := by decide +kernel
  have hwritable := Store.isWritable_setScene Store.isWritable_empty
    [("x", .double (.infinite false)), ("y", .int 0), ("k", .int 1)] (by decide) (by decide)
  have hput := putScene_of_isWritable hdecoded hparsed hscene hwritable
  obtain ⟨hstatus, hstore⟩ := respond_scene (isUpdate_moveRequest endlessText).1 (target_moveRequest endlessText)
    Store.empty
  refine ⟨_, _, isUpdate_moveRequest endlessText, Store.isReachable_empty, ?_, rfl, ?_⟩
  · rw [hstatus, hput, ne_eq, Response.status_json]
    decide
  · rw [hstore, hput]
    exact Nat.zero_add 1

end Service

end Ontogram

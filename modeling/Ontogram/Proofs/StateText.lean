/-
The text of a state file.

A file is read with line feeds for line ends of any kind. That changes nothing in a file that a store has
written, as a carriage return only ever stands in a string there, where it is escaped:

* `joined_eq_self` — a text without carriage returns is read as it stands;
* `parse_ofFile?_text` — so a value that was written to a file is read from it;
* `dump_isOk_iff`, `isWritable_iff` — which documents and which scene are written in full;
* `decode_encode` — they come back, each under its key and in its place.
-/
import Ontogram.Proofs.PiecewiseText
import Ontogram.Store.StateFile
namespace Ontogram

/-! ### Text files -/

namespace Text

theorem joined_eq_self {cs : List CodePoint} (h : .char '\r' ∉ cs) : joined cs = cs := by
  fun_induction joined cs with
  | case1 => rfl
  | case2 => exact absurd List.mem_cons_self h
  | case3 => rfl
  | case4 => exact absurd List.mem_cons_self h
  | case5 => exact absurd List.mem_cons_self h
  | case6 c d rest hc ih => rw [ih fun hmem => h (List.mem_cons_of_mem _ hmem)]

/-- A text without carriage returns is read as it was written. -/
theorem ofFile?_toUTF8 {t : String} (h : .char '\r' ∉ (ofString t).toList) :
    ofFile? t.toUTF8 = some (ofString t) := by
  rw [ofFile?, ofUtf8?_toUTF8, Option.map_some, joined_eq_self h, ofList_toList]

end Text

/-! ### JSON text -/

namespace Json

theorem isReadable_indented : (Style.indented false).IsReadable :=
  ⟨⟨[], rfl, by simp⟩, ⟨[.char ' '], rfl, by simp [isSpace]⟩, rfl⟩

/-- What was written to a file is read from it. -/
theorem parse_ofFile?_text {style : Style} (hreadable : style.IsReadable) (hmarked : style.IsMarked) {v : Json}
    (hv : v.IsReadable) {t : String} (ht : Text.ofString t = v.text style) :
    (Text.ofFile? t.toUTF8).map parse = some (.ok v) := by
  have hmem : .char '\r' ∉ (Text.ofString t).toList := by
    rw [ht]
    exact notMem_text hmarked v
  rw [Text.ofFile?_toUTF8 hmem, Option.map_some, ht, parse_text hreadable hv]

end Json

/-! ### State files -/

theorem Entries.toJson_ofFields (fields : Assoc Json) : (ofFields fields).toJson = .obj fields := by
  have hname : ∀ e : Text × Json, (Key.fieldName (.text e.1), e.2) = e := fun _ => rfl
  rw [toJson, ofFields, List.map_map]
  exact congrArg Json.obj ((List.map_congr_left fun e _ => hname e).trans (List.map_id' fields))

/-- No whole number in the entries is too long to be written, and every text is one of characters. -/
def Entries.IsWritable (entries : Entries) : Prop :=
  ∀ e ∈ entries, e.1.fieldName.isEncodable = true ∧ e.2.hasShortNumbers = true ∧ e.2.isEncodable = true

instance : DecidablePred Entries.IsWritable := fun entries =>
  inferInstanceAs (Decidable (∀ e ∈ entries, e.1.fieldName.isEncodable = true ∧ e.2.hasShortNumbers = true ∧
    e.2.isEncodable = true))

theorem Entries.IsWritable.insert {entries : Entries} (h : entries.IsWritable) {key : Key} {v : Json}
    (hkey : key.fieldName.isEncodable = true) (hshort : v.hasShortNumbers = true) (hv : v.isEncodable = true) :
    IsWritable (Assoc.insert key v entries) := by
  intro e he
  rcases Assoc.mem_of_mem_insert he with rfl | he
  · exact ⟨hkey, hshort, hv⟩
  · exact h e he

theorem Entries.isWritable_ofFields {fields : Assoc Json} (hshort : (Json.obj fields).hasShortNumbers = true)
    (h : (Json.obj fields).isEncodable = true) : (ofFields fields).IsWritable := by
  rw [Json.hasShortNumbers, Json.all_obj_iff] at hshort
  rw [Json.isEncodable, Json.allTexts, Json.all_obj_iff] at h
  exact List.forall_mem_map.mpr fun e he => ⟨(h e he).1, (hshort e he).2, (h e he).2⟩

namespace StateFile

variable {documents scene : Assoc Json}

/-- No whole number is too long to be written, and every text is one of characters. -/
def Contents.IsWritable (c : Contents) : Prop := c.toJson.hasShortNumbers = true ∧ c.toJson.isEncodable = true

instance (c : Contents) : Decidable c.IsWritable := inferInstanceAs (Decidable (_ ∧ _))

theorem dump_isOk_iff {c : Contents} : (dump c).1 = .ok () ↔ c.IsWritable :=
  Json.dump_isOk_iff (Json.isMarked_indented false) rfl

/-- The documents and the scene are written in full iff every entry is. -/
theorem isWritable_iff {c : Contents} : c.IsWritable ↔ c.documents.IsWritable ∧ c.scene.IsWritable := by
  have hentries (entries : Entries) : entries.IsWritable ↔
      entries.toJson.hasShortNumbers = true ∧ entries.toJson.isEncodable = true := by
    rw [Entries.toJson, Json.hasShortNumbers, Json.isEncodable, Json.allTexts, Json.all_obj_iff, Json.all_obj_iff,
      List.forall_mem_map, List.forall_mem_map, ← forall₂_and]
    refine forall₂_congr fun e _ => ?_
    exact ⟨fun h => ⟨⟨rfl, h.2.1⟩, h.1, h.2.2⟩, fun h => ⟨h.2.1, h.1.2, h.2.2⟩⟩
  rw [Contents.IsWritable, Contents.toJson, Json.hasShortNumbers, Json.isEncodable, Json.allTexts, Json.all_obj_iff,
    Json.all_obj_iff, hentries, hentries]
  simp only [List.forall_mem_cons]
  constructor
  · rintro ⟨⟨⟨-, hdocuments⟩, ⟨-, hscene⟩, -⟩, ⟨-, hdocuments'⟩, ⟨-, hscene'⟩, -⟩
    exact ⟨⟨hdocuments, hdocuments'⟩, hscene, hscene'⟩
  · rintro ⟨⟨hdocuments, hdocuments'⟩, hscene, hscene'⟩
    exact ⟨⟨⟨trivial, hdocuments⟩, ⟨trivial, hscene⟩, List.forall_mem_nil _⟩, ⟨rfl, hdocuments'⟩, ⟨rfl, hscene'⟩,
      List.forall_mem_nil _⟩

/-- What an object is read as from the file that it was written to. -/
theorem fields?_encode {c : Contents} (hkeys : c.toJson.HasDistinctKeys) (h : c.IsWritable) :
    fields? (encode c) = .ok (some [("documents", c.documents.toJson), ("scene", c.scene.toJson)]) := by
  have htext := Json.dump_eq (dump_isOk_iff.mpr h)
  have hread := Json.parse_ofFile?_text Json.isReadable_indented (Json.isMarked_indented false) ⟨hkeys, h.1⟩ htext
  rw [fields?, encode, dump, hread]
  rfl

theorem hasDistinctKeys_contents (hdocuments : (Json.obj documents).HasDistinctKeys)
    (hscene : (Json.obj scene).HasDistinctKeys) :
    (Contents.toJson ⟨.ofFields documents, .ofFields scene⟩).HasDistinctKeys := by
  rw [Contents.toJson, Entries.toJson_ofFields, Entries.toJson_ofFields]
  refine .obj (show (["documents", "scene"] : List Text).Nodup by decide) ?_
  simp only [List.forall_mem_cons]
  exact ⟨hdocuments, hscene, List.forall_mem_nil _⟩

/-- Objects come back as they were saved. -/
theorem decode_encode (hdocuments : (Json.obj documents).HasDistinctKeys)
    (hscene : (Json.obj scene).HasDistinctKeys)
    (h : Contents.IsWritable ⟨.ofFields documents, .ofFields scene⟩) :
    decode (encode ⟨.ofFields documents, .ofFields scene⟩) =
      .ok ⟨.ofFields documents, .ofFields scene⟩ := by
  rw [decode, fields?_encode (hasDistinctKeys_contents hdocuments hscene) h, Entries.toJson_ofFields,
    Entries.toJson_ofFields]
  rfl

end StateFile

end Ontogram

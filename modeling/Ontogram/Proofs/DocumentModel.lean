/-
Documents as values and values as documents.

A document is read from a JSON value, written as one, and kept in a file as the value's canonical text. Nothing is
lost on the way: what is read from a value says all about it but the order of its keys:

* `Json.reorders_obj_of_alike` — objects with the same keys and like values differ only in the order of keys;
* `SpellsElement.reorders` — so do the objects that spell one element;
* `spellsElement_toJson`, `document_toJson` — an element and a document are read back from what they are written as;
* `reorders_of_document` — the values that are read as one document differ only in the order of keys;
* `document_comes_back_iff` — value, document, canonical text and file together;
* `half_document_has_no_file` — a document without a file.
-/
import Ontogram.Proofs.DocumentSchema
import Ontogram.Proofs.Recompilation
import Ontogram.Proofs.StateText
namespace Ontogram

open Json (Reorders HasDistinctKeys hasDistinctKeys_obj_iff hasDistinctKeys_arr_iff)
open Traversal (bind_eq_ok_iff mapError_eq_ok_iff forall₂_of_common)

/-! ### Values that differ in the order of keys -/

namespace Json

variable {fields fields' : Assoc Json}

/-- Both objects have a value under the key, and the values differ at most in the order of keys. -/
def Alike (fields fields' : Assoc Json) (key : Text) : Prop :=
  ∃ v v', fields.lookup key = some v ∧ fields'.lookup key = some v' ∧ v.Reorders v'

theorem Alike.of_eq {key : Text} {v : Json} (h : fields.lookup key = some v) (h' : fields'.lookup key = some v) :
    Alike fields fields' key := ⟨v, v, h, h', .refl v⟩

/-- The fields of an object in the order of the given keys. -/
theorem perm_of_hasExactly {names : List Text} (hnames : names.Nodup) (hkeys : (Assoc.keys fields).Nodup)
    (h : Schema.HasExactly names fields) :
    fields.Perm (names.map fun key => (key, (fields.lookup key).getD .null)) := by
  have hpairs : (names.map fun key => (key, (fields.lookup key).getD .null)).Nodup :=
    hnames.map fun _ _ heq => (Prod.mk.inj heq).1
  refine (List.perm_ext_iff_of_nodup (List.Nodup.of_map _ hkeys) hpairs).mpr fun e => ?_
  rw [List.mem_map]
  constructor
  · intro he
    refine ⟨e.1, (h e.1).mp (List.mem_map_of_mem he), ?_⟩
    rw [Assoc.lookup_of_mem hkeys he, Option.getD_some]
  · rintro ⟨key, hkey, rfl⟩
    obtain ⟨v, hv⟩ := Assoc.exists_lookup_iff_mem_keys.mpr ((h key).mpr hkey)
    rw [hv, Option.getD_some]
    exact Assoc.mem_of_lookup hv

/-- Objects with the same keys and like values differ only in the order of keys. -/
theorem reorders_obj_of_alike {names : List Text} (hnames : names.Nodup) (hkeys : (Assoc.keys fields).Nodup)
    (hkeys' : (Assoc.keys fields').Nodup) (h : Schema.HasExactly names fields) (h' : Schema.HasExactly names fields')
    (halike : ∀ key ∈ names, Alike fields fields' key) : Reorders (.obj fields) (.obj fields') := by
  -- both objects in the order of the names, and there field by field
  refine (Reorders.fields (perm_of_hasExactly hnames hkeys h)).trans (Reorders.trans ?_
    (Reorders.fields (perm_of_hasExactly hnames hkeys' h').symm))
  refine reorders_obj_of_forall₂ (List.forall₂_map_left_iff.mpr (List.forall₂_map_right_iff.mpr ?_))
  refine List.forall₂_same.mpr fun key hkey => ⟨rfl, ?_⟩
  obtain ⟨v, v', hv, hv', hreorders⟩ := halike key hkey
  rwa [hv, hv']

end Json

namespace Schema

open Json (Alike reorders_obj_of_alike reorders_arr_of_forall₂ reorders_obj_of_forall₂)

variable {fields fields' : Assoc Json} {v v' : Json}

/-! ### Elements -/

theorem SpellsItem.reorders {item : TreeItem} (h : SpellsItem v item) (h' : SpellsItem v' item)
    (hv : v.HasDistinctKeys) (hv' : v'.HasDistinctKeys) : v.Reorders v' := by
  obtain ⟨fields, rfl, hkeys, hparent, helement⟩ := h
  obtain ⟨fields', rfl, hkeys', hparent', helement'⟩ := h'
  refine reorders_obj_of_alike (by decide) (hasDistinctKeys_obj_iff.mp hv).1 (hasDistinctKeys_obj_iff.mp hv').1 hkeys
    hkeys' ?_
  rw [List.forall_mem_cons, List.forall_mem_singleton]
  exact ⟨.of_eq hparent hparent', .of_eq helement helement'⟩

theorem SpellsShape.alike {s : Shape} (h : SpellsShape fields s) (h' : SpellsShape fields' s)
    (htype : Alike fields fields' "type") : ∀ key ∈ Variant.rectangle.fields, Alike fields fields' key := by
  simp only [Variant.fields, List.forall_mem_cons]
  exact ⟨.of_eq h.id h'.id, htype, .of_eq h.x h'.x, .of_eq h.y h'.y, .of_eq h.width h'.width,
    .of_eq h.height h'.height, .of_eq h.text h'.text, List.forall_mem_nil _⟩

/-- Objects that spell the same element have like values under all its keys. -/
theorem SpellsElement.alike {e : Element} (h : SpellsElement fields e) (h' : SpellsElement fields' e)
    (hv : (Json.obj fields).HasDistinctKeys) (hv' : (Json.obj fields').HasDistinctKeys) :
    ∀ key ∈ e.variant.fields, Alike fields fields' key := by
  have htype : Alike fields fields' "type" := .of_eq h.type h'.type
  have hvalues := h.values
  have hvalues' := h'.values
  cases e with
  | rectangle s => exact SpellsShape.alike hvalues hvalues' htype
  | diamond s => exact SpellsShape.alike hvalues hvalues' htype
  | arrow a =>
    obtain ⟨hid, hx1, hy1, hx2, hy2, htext, hsource, htarget⟩ := hvalues
    obtain ⟨hid', hx1', hy1', hx2', hy2', htext', hsource', htarget'⟩ := hvalues'
    simp only [Element.variant, Variant.fields, List.forall_mem_cons]
    exact ⟨.of_eq hid hid', htype, .of_eq hx1 hx1', .of_eq hy1 hy1', .of_eq hx2 hx2', .of_eq hy2 hy2',
      .of_eq htext htext', .of_eq hsource hsource', .of_eq htarget htarget', List.forall_mem_nil _⟩
  | note n =>
    obtain ⟨hid, hx, hy, htext⟩ := hvalues
    obtain ⟨hid', hx', hy', htext'⟩ := hvalues'
    simp only [Element.variant, Variant.fields, List.forall_mem_cons]
    exact ⟨.of_eq hid hid', htype, .of_eq hx hx', .of_eq hy hy', .of_eq htext htext', List.forall_mem_nil _⟩
  | tree t =>
    obtain ⟨hid, hroot, vs, hvs, hitems⟩ := hvalues
    obtain ⟨hid', hroot', ws, hws, hitems'⟩ := hvalues'
    -- the edges are objects themselves
    have hedges : Reorders (.arr vs) (.arr ws) := by
      refine reorders_arr_of_forall₂ (forall₂_of_common (R := SpellsItem) (fun _ _ _ => SpellsItem.reorders)
        hitems hitems' ?_ ?_)
      · exact hasDistinctKeys_arr_iff.mp ((hasDistinctKeys_obj_iff.mp hv).2 _ (Assoc.mem_of_lookup hvs))
      · exact hasDistinctKeys_arr_iff.mp ((hasDistinctKeys_obj_iff.mp hv').2 _ (Assoc.mem_of_lookup hws))
    simp only [Element.variant, Variant.fields, List.forall_mem_cons]
    exact ⟨.of_eq hid hid', htype, .of_eq hroot hroot', ⟨_, _, hvs, hws, hedges⟩, List.forall_mem_nil _⟩

theorem nodup_variantFields (variant : Variant) : variant.fields.Nodup := by
  cases variant <;> simp [Variant.fields]

/-- Objects that spell the same element differ only in the order of keys. -/
theorem SpellsElement.reorders {e : Element} (h : SpellsElement fields e) (h' : SpellsElement fields' e)
    (hv : (Json.obj fields).HasDistinctKeys) (hv' : (Json.obj fields').HasDistinctKeys) :
    Reorders (.obj fields) (.obj fields') :=
  reorders_obj_of_alike (nodup_variantFields _) (hasDistinctKeys_obj_iff.mp hv).1 (hasDistinctKeys_obj_iff.mp hv').1
    h.keys h'.keys (h.alike h' hv hv')

/-- An element is written as an object that spells it, with its fields in the order of its variant. -/
theorem spellsElement_toJson (e : Element) :
    ∃ fields, e.toJson = .obj fields ∧ Assoc.keys fields = e.variant.fields ∧ SpellsElement fields e := by
  cases e with
  | rectangle s => exact ⟨_, rfl, rfl, hasExactly_of_keys_eq rfl, rfl, ⟨rfl, rfl, rfl, rfl, rfl, rfl⟩⟩
  | diamond s => exact ⟨_, rfl, rfl, hasExactly_of_keys_eq rfl, rfl, ⟨rfl, rfl, rfl, rfl, rfl, rfl⟩⟩
  | arrow a => exact ⟨_, rfl, rfl, hasExactly_of_keys_eq rfl, rfl, ⟨rfl, rfl, rfl, rfl, rfl, rfl, rfl, rfl⟩⟩
  | note n => exact ⟨_, rfl, rfl, hasExactly_of_keys_eq rfl, rfl, ⟨rfl, rfl, rfl, rfl⟩⟩
  | tree t =>
    have hitems : List.Forall₂ SpellsItem
        (t.items.map fun i => .obj [("parent", .str i.parent), ("element", .str i.element)]) t.items := by
      refine List.forall₂_map_left_iff.mpr (List.forall₂_same.mpr fun i _ => ?_)
      exact ⟨_, rfl, hasExactly_of_keys_eq rfl, rfl, rfl⟩
    exact ⟨_, rfl, rfl, hasExactly_of_keys_eq rfl, rfl, ⟨rfl, rfl, _, rfl, hitems⟩⟩

theorem hasDistinctKeys_number (n : Number) : n.toJson.HasDistinctKeys := by
  cases n with
  | int k => exact .int k
  | double x => exact .double x

theorem hasDistinctKeys_endJson (s : Option Text) : (Element.endJson s).HasDistinctKeys := by
  cases s with
  | none => exact .null
  | some s => exact .str s

theorem hasDistinctKeys_toJson (e : Element) : e.toJson.HasDistinctKeys := by
  cases e <;> simp [Element.toJson, Assoc.keys, hasDistinctKeys_obj_iff, hasDistinctKeys_arr_iff,
    HasDistinctKeys.str, hasDistinctKeys_number, hasDistinctKeys_endJson]

/-! ### Maps and documents -/

/-- The elements of a map are read back under their ids, and their trees are as sound as before. -/
theorem elements_toJson {es : Elements} (h : elements v = .ok es) :
    elements (.obj (es.map fun e => (e.1, e.2.toJson))) = .ok es := by
  obtain ⟨entries, -, hentries, hsound⟩ := elements_eq_ok_iff.mp h
  refine elements_eq_ok_iff.mpr ⟨_, rfl, ?_, hsound⟩
  rw [elementEntries_eq_ok_iff] at hentries ⊢
  refine List.forall₂_map_left_iff.mpr (List.forall₂_same.mpr fun e he => ?_)
  obtain ⟨entry, -, hentry⟩ := Traversal.exists_of_mem_right hentries he
  obtain ⟨fields, hobj, -, hspells⟩ := spellsElement_toJson e.2
  exact ⟨rfl, hentry.id.trans hentry.key.symm, ⟨fields, hobj, hspells⟩, hentry.size⟩

/-- A document that was read from anything is read back from the value that it is written as. -/
theorem document_toJson {d : Document} (h : document v = .ok d) : document d.toJson = .ok d := by
  cases v with
  | obj fields =>
    obtain ⟨-, -, -, ⟨_, -, helements⟩, -⟩ := document_obj_eq_ok_iff.mp h
    exact document_obj_eq_ok_iff.mpr ⟨hasExactly_of_keys_eq rfl, ⟨_, rfl, namespaces_eq_ok_iff.mpr rfl⟩, rfl,
      ⟨_, rfl, elements_toJson helements⟩, rfl⟩
  | _ => cases h

/-- Entries that spell the same element have one key and values that differ only in the order of keys. -/
theorem SpellsEntry.reorders {entry entry' : Text × Json} {e : Text × Element} (h : SpellsEntry entry e)
    (h' : SpellsEntry entry' e) (hv : entry.2.HasDistinctKeys) (hv' : entry'.2.HasDistinctKeys) :
    entry.1 = entry'.1 ∧ entry.2.Reorders entry'.2 := by
  obtain ⟨fields, hobj, hspells⟩ := h.object
  obtain ⟨fields', hobj', hspells'⟩ := h'.object
  rw [hobj] at hv ⊢
  rw [hobj'] at hv' ⊢
  exact ⟨h.key.symm.trans h'.key, hspells.reorders hspells' hv hv'⟩

theorem reorders_of_elements {es : Elements} (h : elements v = .ok es) (h' : elements v' = .ok es)
    (hv : v.HasDistinctKeys) (hv' : v'.HasDistinctKeys) : v.Reorders v' := by
  obtain ⟨entries, rfl, hentries, -⟩ := elements_eq_ok_iff.mp h
  obtain ⟨entries', rfl, hentries', -⟩ := elements_eq_ok_iff.mp h'
  rw [elementEntries_eq_ok_iff] at hentries hentries'
  exact reorders_obj_of_forall₂ (forall₂_of_common (R := SpellsEntry) (fun _ _ _ => SpellsEntry.reorders)
    hentries hentries' (hasDistinctKeys_obj_iff.mp hv).2 (hasDistinctKeys_obj_iff.mp hv').2)

/-- The values that are read as one document differ only in the order of keys. -/
theorem reorders_of_document {d : Document} (h : document v = .ok d) (h' : document v' = .ok d)
    (hv : v.HasDistinctKeys) (hv' : v'.HasDistinctKeys) : v.Reorders v' := by
  cases v with
  | obj fields =>
    cases v' with
    | obj fields' =>
      obtain ⟨hnames, ⟨_, hprefixes, hns⟩, hdomain, ⟨es, helements, hes⟩, hraw⟩ := document_obj_eq_ok_iff.mp h
      obtain ⟨hnames', ⟨_, hprefixes', hns'⟩, hdomain', ⟨es', helements', hes'⟩, hraw'⟩ :=
        document_obj_eq_ok_iff.mp h'
      obtain ⟨hkeys, hvalues⟩ := hasDistinctKeys_obj_iff.mp hv
      obtain ⟨hkeys', hvalues'⟩ := hasDistinctKeys_obj_iff.mp hv'
      rw [namespaces_eq_ok_iff] at hns hns'
      subst hns hns'
      -- the other three parts are equal as they stand
      have hmap : es.Reorders es' := reorders_of_elements hes hes' (hvalues _ (Assoc.mem_of_lookup helements))
        (hvalues' _ (Assoc.mem_of_lookup helements'))
      refine reorders_obj_of_alike (by decide) hkeys hkeys' hnames hnames' ?_
      simp only [documentKeys, List.forall_mem_cons]
      exact ⟨.of_eq hprefixes hprefixes', .of_eq hdomain hdomain', ⟨_, _, helements, helements', hmap⟩,
        .of_eq hraw hraw', List.forall_mem_nil _⟩
    | _ => cases h'
  | _ => cases h

theorem hasDistinctKeys_of_document {d : Document} (h : document v = .ok d) (hv : v.HasDistinctKeys) :
    d.toJson.HasDistinctKeys := by
  cases v with
  | obj fields =>
    obtain ⟨-, ⟨_, hprefixes, hns⟩, -, ⟨_, helements, hes⟩, -⟩ := document_obj_eq_ok_iff.mp h
    obtain ⟨-, hvalues⟩ := hasDistinctKeys_obj_iff.mp hv
    have hnamespaces := hvalues _ (Assoc.mem_of_lookup hprefixes)
    rw [namespaces_eq_ok_iff.mp hns] at hnamespaces
    have hmap := hvalues _ (Assoc.mem_of_lookup helements)
    obtain ⟨entries, rfl, hentries, -⟩ := elements_eq_ok_iff.mp hes
    have hids : (Assoc.keys d.elements).Nodup := by
      rw [keys_elementEntries hentries]
      exact (hasDistinctKeys_obj_iff.mp hmap).1
    have helements' : (Json.obj (d.elements.map fun e => (e.1, e.2.toJson))).HasDistinctKeys := by
      refine .obj ?_ (List.forall_mem_map.mpr fun e _ => hasDistinctKeys_toJson e.2)
      rw [Assoc.keys, List.map_map]
      exact hids
    refine .obj (show (["prefixes", "domain", "elements", "rawStatements"] : List Text).Nodup by decide) ?_
    simp only [List.forall_mem_cons]
    exact ⟨hnamespaces, .str _, helements', .str _, List.forall_mem_nil _⟩
  | _ => cases h

end Schema

/-! ### Texts and files -/

namespace Document

variable {v w : Json} {d : Document}

/-- The canonical text of a value depends neither on the order of its keys nor, for a document, on anything else. -/
theorem canonicalize_eq_of_reorders (hv : v.HasDistinctKeys) (h : ofJson v = .ok d) (hw : v.Reorders w) :
    canonicalize w = canonicalize v := by
  obtain ⟨d', h'⟩ := (Schema.document_isOk_iff_of_reorders hv hw).mp ⟨d, h⟩
  have hcanonical : v.canonical? = w.canonical? := by
    rw [Json.canonical?, Json.canonical?, Json.hasShortNumbers, Json.hasShortNumbers, hw.all_eq hv,
      hw.canonical_eq hv]
  unfold canonicalize
  rw [h, show ofJson w = .ok d' from h', hcanonical]
  rfl

theorem canonicalize_isOk_iff (h : ofJson v = .ok d) : (∃ c, canonicalize v = .ok c) ↔ v.hasShortNumbers = true := by
  simp only [canonicalize_eq_ok_iff, exists_and_left, exists_eq', and_true]
  exact and_iff_right ⟨d, h⟩

/-- The canonical text of a value, with a line feed behind it or not, is read as the document of the value with its
maps in another order. -/
theorem parse_canonical_append (hv : v.IsReadable) (h : ofJson v = .ok d) :
    ∃ d', d.Rearranges d' ∧ ∀ blanks : Text, (∀ c ∈ blanks.toList, Json.isSpace c = true) →
      parse (v.canonical ++ blanks) = .ok d' := by
  have hagree := Schema.agree_document_sortKeys hv.keys
  rw [show Schema.document v = .ok d from h] at hagree
  obtain ⟨d', hd', hrearranges⟩ := hagree.exists_of_ok
  refine ⟨d', hrearranges, fun blanks hblanks => bind_eq_ok_iff.mpr ⟨v.sortKeys, ?_, mapError_eq_ok_iff.mpr hd'⟩⟩
  exact decode_eq_ok_iff.mpr (Json.parse_text_append Json.isReadable_compact hv.sortKeys hblanks)

/-- A file with a canonical text can be written iff every text inside is one of characters. -/
theorem toUtf8?_canonical_isSome_iff :
    (∃ bytes, (v.canonical ++ "\n").toUtf8? = some bytes) ↔ v.isEncodable = true := by
  have hline : (v.canonical ++ "\n").isEncodable = v.isEncodable := by
    rw [Text.isEncodable_append, Json.isEncodable_canonical]
    exact Bool.and_true _
  rw [← hline, Text.isEncodable_iff]
  simp only [Text.toUtf8?_eq_some_iff]
  exact ⟨fun ⟨_, t, ht, _⟩ => ⟨t, ht⟩, fun ⟨t, ht⟩ => ⟨_, t, ht, rfl⟩⟩

/-- What was written to a file is read from it. -/
theorem ofFile?_canonical {bytes : ByteArray} (h : (v.canonical ++ "\n").toUtf8? = some bytes) :
    Text.ofFile? bytes = some (v.canonical ++ "\n") := by
  obtain ⟨t, ht, rfl⟩ := Text.toUtf8?_eq_some_iff.mp h
  rw [ht]
  refine Text.ofFile?_toUTF8 ?_
  rw [← ht, Text.toList_append, List.mem_append, not_or]
  exact ⟨Json.notMem_text Json.isMarked_compact _, by decide⟩

theorem fileText_eq_ok {c : Text} (h : canonicalize d.toJson = .ok c) : fileText d = .ok (c ++ "\n") :=
  bind_eq_ok_iff.mpr ⟨c, h, rfl⟩

theorem fileBytes_eq_ok {c : Text} (h : canonicalize d.toJson = .ok c) :
    fileBytes d = .ok (c ++ "\n").toUtf8? :=
  bind_eq_ok_iff.mpr ⟨_, fileText_eq_ok h, rfl⟩

end Document

/-- What is kept of the value that a document is read from. What the document is written as differs from the value in
the order of keys at most, and the value, any text of it and the document have the same canonical text, which they have
iff no whole number inside is too long. The document is read from that text, up to the order of its maps. It has a file
iff every text inside is one of characters, and the file is that text with a line feed and is read as the same
document. -/
theorem document_comes_back_iff {v : Json} {d : Document} (hv : v.HasDistinctKeys) (h : Document.ofJson v = .ok d) :
    v.Reorders d.toJson ∧ Document.canonicalize d.toJson = Document.canonicalize v ∧
      (∀ text w, Json.parse text = .ok w → v.Reorders w →
        Document.canonicalizeText text = Document.canonicalize v) ∧
      ((∃ c, Document.canonicalize v = .ok c) ↔ v.hasShortNumbers = true) ∧
      ∀ c, Document.canonicalize v = .ok c →
        ∃ d', d.Rearranges d' ∧ Document.parse c = .ok d' ∧ Document.fileText d = .ok (c ++ "\n") ∧
          ((∃ bytes, Document.fileBytes d = .ok (some bytes)) ↔ v.isEncodable = true) ∧
          ∀ bytes, Document.fileBytes d = .ok (some bytes) →
            Text.ofFile? bytes = some (c ++ "\n") ∧ Document.parse (c ++ "\n") = .ok d' := by
  have hwritten : v.Reorders d.toJson :=
    Schema.reorders_of_document h (Schema.document_toJson h) hv (Schema.hasDistinctKeys_of_document h hv)
  have hsame : Document.canonicalize d.toJson = Document.canonicalize v :=
    Document.canonicalize_eq_of_reorders hv h hwritten
  refine ⟨hwritten, hsame, fun text w htext hw => ?_, Document.canonicalize_isOk_iff h, fun c hc => ?_⟩
  · rw [← Document.canonicalize_eq_of_reorders hv h hw, Document.canonicalizeText,
      Document.decode_eq_ok_iff.mpr htext]
    rfl
  · obtain ⟨-, hshort, rfl⟩ := Document.canonicalize_eq_ok_iff.mp hc
    obtain ⟨d', hrearranges, hread⟩ := Document.parse_canonical_append ⟨hv, hshort⟩ h
    have hplain := hread "" (by simp)
    rw [Text.append_empty] at hplain
    have hbytes := Document.fileBytes_eq_ok (hsame.trans hc)
    refine ⟨d', hrearranges, hplain, Document.fileText_eq_ok (hsame.trans hc), ?_, fun bytes h => ?_⟩
    · simp only [hbytes, Except.ok.injEq]
      exact Document.toUtf8?_canonical_isSome_iff
    · rw [hbytes, Except.ok.injEq] at h
      exact ⟨Document.ofFile?_canonical h, hread "\n" (by simp [Json.isSpace])⟩

/-- A tree and its diamonds come back from their file, and also from a text on several lines. -/
theorem document_comes_back_tree :
    let v := Json.obj (Schema.plainFields Schema.treeEntries)
    v.HasDistinctKeys ∧ Document.ofJson v = .ok Schema.readTree ∧ v.Reorders Schema.readTree.toJson ∧
      ∃ c d' bytes, Document.canonicalizeText (v.text (.indented false)) = .ok c ∧
        Schema.readTree.Rearranges d' ∧ Document.parse c = .ok d' ∧
        Document.fileBytes Schema.readTree = .ok (some bytes) ∧ Text.ofFile? bytes = some (c ++ "\n") := by
  have hv := Schema.hasDistinctKeys_treeEntries
  have h : Document.ofJson _ = .ok _ := Schema.document_treeEntries
  have hshort : (Json.obj (Schema.plainFields Schema.treeEntries)).hasShortNumbers = true := by decide +kernel
  obtain ⟨hwritten, -, htext, hcanonical, hfile⟩ := document_comes_back_iff hv h
  obtain ⟨c, hc⟩ := hcanonical.mpr hshort
  obtain ⟨d', hrearranges, hread, -, hbytes, hback⟩ := hfile c hc
  obtain ⟨bytes, hwrite⟩ := hbytes.mpr (by decide +kernel)
  have hlines := Json.parse_text Json.isReadable_indented ⟨hv, hshort⟩
  exact ⟨hv, h, hwritten, c, d', bytes, (htext _ _ hlines (.refl _)).trans hc, hrearranges, hread, hwrite,
    (hback bytes hwrite).1⟩

/-- A document with half of a surrogate pair inside is accepted and has a canonical text, but no file. -/
theorem half_document_has_no_file :
    halfDocument.HasDistinctKeys ∧ ∃ d c, Document.ofJson halfDocument = .ok d ∧
      Document.canonicalize halfDocument = .ok c ∧ Document.fileText d = .ok (c ++ "\n") ∧
      Document.fileBytes d = .ok none := by
  have hkeys := hasDistinctKeys_halfDocument
  have h : Document.ofJson halfDocument = .ok ⟨[(halfLabel, "http://p/")], "", [], ""⟩ :=
    document_rawDocument halfLabel "http://p/" ""
  have hwritten := Schema.reorders_of_document h (Schema.document_toJson h) hkeys
    (Schema.hasDistinctKeys_of_document h hkeys)
  have hcanonical := Document.canonicalize_eq_ok_iff.mpr
    ⟨⟨_, h⟩, (by decide : halfDocument.hasShortNumbers = true), rfl⟩
  have hdocument := (Document.canonicalize_eq_of_reorders hkeys h hwritten).trans hcanonical
  refine ⟨hkeys, _, _, h, hcanonical, Document.fileText_eq_ok hdocument, ?_⟩
  rw [Document.fileBytes_eq_ok hdocument]
  have hnone : ¬ ∃ bytes, (halfDocument.canonical ++ "\n").toUtf8? = some bytes := by
    rw [Document.toUtf8?_canonical_isSome_iff]
    decide
  rw [← Option.isSome_iff_exists, Option.not_isSome_iff_eq_none] at hnone
  rw [hnone]

end Ontogram

/-
What is read from the fields of an object.

The readers of a document take an object apart field by field, and stop at the first violation. A reader that
has not stopped has found in each field a value that says what is answered:

* `numberField_eq_ok_iff`, `stringField_eq_ok_iff`, `endField_eq_ok_iff` — what a single field holds;
* `HasExactly` — an object with the given keys and no others;
* `SpellsItem`, `treeItems_eq_ok_iff` — objects that spell the edges of a tree;
* `SpellsFields`, `variantFields_eq_ok_iff` — the fields of each variant;
* `SpellsElement`, `element_eq_ok_iff` — an element is read from the objects that spell it, if it is large
  enough;
* `SpellsEntry`, `elements_eq_ok_iff` — an element map is read entry by entry;
* `namespaces_eq_ok_iff` — a map of namespaces is read from one value only;
* `document_obj_eq_ok_iff` — the four parts of a document.
-/
import Ontogram.Document.Schema
import Ontogram.Proofs.Traversal
namespace Ontogram.Schema

open Traversal (bind_eq_ok_iff mapM_eq_ok_iff)

variable {place key : Text} {fields : Assoc Json} {v : Json}

/-! ### Values -/

theorem number_eq_ok_iff {n : Number} : number place v = .ok n ↔ v = n.toJson := by
  cases v <;> cases n <;> simp [number, Number.ofJson?, Number.toJson]

theorem string_eq_ok_iff {s : Text} : string place v = .ok s ↔ v = .str s := by
  cases v <;> simp [string]

theorem stringOrNull_eq_ok_iff {s : Option Text} :
    stringOrNull place v = .ok s ↔ v = Element.endJson s := by
  cases v <;> cases s <;> simp [stringOrNull, Element.endJson]

theorem variant_eq_ok_iff {variant : Variant} :
    Schema.variant place v = .ok variant ↔ v = .str variant.name := by
  cases v with
  | str s =>
    have hname : Variant.ofName? s = some variant ↔ s = variant.name := by
      constructor
      · intro h
        have hname := List.find?_some (p := fun v : Variant => v.name == s) h
        exact (beq_iff_eq.mp hname).symm
      · rintro rfl
        exact Variant.ofName?_name variant
    rw [Json.str.injEq, ← hname, Schema.variant]
    cases Variant.ofName? s <;> simp
  | _ => simp [Schema.variant]

/-! ### Fields -/

theorem field_eq_ok_iff : field place key fields = .ok v ↔ fields.lookup key = some v := by
  unfold field
  cases fields.lookup key <;> simp

theorem numberField_eq_ok_iff {n : Number} :
    numberField place key fields = .ok n ↔ fields.lookup key = some n.toJson := by
  simp only [numberField, bind_eq_ok_iff, field_eq_ok_iff, number_eq_ok_iff, exists_eq_right]

theorem stringField_eq_ok_iff {s : Text} :
    stringField place key fields = .ok s ↔ fields.lookup key = some (.str s) := by
  simp only [stringField, bind_eq_ok_iff, field_eq_ok_iff, string_eq_ok_iff, exists_eq_right]

theorem endField_eq_ok_iff {s : Option Text} :
    endField place key fields = .ok s ↔ fields.lookup key = some (Element.endJson s) := by
  simp only [endField, bind_eq_ok_iff, field_eq_ok_iff, stringOrNull_eq_ok_iff, exists_eq_right]

/-! ### Keys -/

theorem requireAll_eq_ok_iff {keys : List Text} {u : Unit} :
    requireAll place keys fields = .ok u ↔ ∀ key ∈ keys, Assoc.has fields key = true := by
  unfold requireAll
  split
  · rename_i key hkey
    have hmissing := List.find?_some hkey
    simp only [reduceCtorEq, false_iff]
    intro h
    rw [h key (List.mem_of_find?_eq_some hkey)] at hmissing
    cases hmissing
  · rename_i hnone
    simpa using List.find?_eq_none.mp hnone

theorem extraKey?_eq_none_iff {allowed : List Text} :
    extraKey? allowed fields = none ↔ ∀ key ∈ Assoc.keys fields, key ∈ allowed := by
  rw [extraKey?, List.head?_eq_none_iff, ← List.length_eq_zero_iff, List.length_mergeSort,
    List.length_eq_zero_iff, List.filter_eq_nil_iff]
  simp

theorem noExtraField_eq_ok_iff {allowed : List Text} {u : Unit} :
    noExtraField place allowed fields = .ok u ↔ ∀ key ∈ Assoc.keys fields, key ∈ allowed := by
  rw [← extraKey?_eq_none_iff, noExtraField]
  cases extraKey? allowed fields <;> simp

/-- The object has a field under each of the names and under nothing else. -/
def HasExactly (names : List Text) (fields : Assoc Json) : Prop :=
  ∀ key, key ∈ Assoc.keys fields ↔ key ∈ names

theorem hasExactly_iff {names : List Text} :
    HasExactly names fields ↔
      (∀ key ∈ names, Assoc.has fields key = true) ∧ ∀ key ∈ Assoc.keys fields, key ∈ names := by
  simp only [HasExactly, Assoc.has_iff_mem_keys]
  constructor
  · exact fun h => ⟨fun key => (h key).mpr, fun key => (h key).mp⟩
  · exact fun ⟨hrequired, hallowed⟩ key => ⟨hallowed key, hrequired key⟩

theorem hasExactly_of_keys_eq {names : List Text} (h : Assoc.keys fields = names) : HasExactly names fields := by
  intro key
  rw [h]

/-! ### The items of a tree -/

/-- The object spells the edge. -/
def SpellsItem (v : Json) (item : TreeItem) : Prop :=
  ∃ fields, v = .obj fields ∧ HasExactly ["parent", "element"] fields ∧
    fields.lookup ("parent" : Text) = some (.str item.parent) ∧
      fields.lookup ("element" : Text) = some (.str item.element)

theorem treeItem_eq_ok_iff {item : TreeItem} : treeItem place v = .ok item ↔ SpellsItem v item := by
  cases v with
  | obj fields =>
    have hspells : SpellsItem (.obj fields) item ↔ HasExactly ["parent", "element"] fields ∧
        fields.lookup ("parent" : Text) = some (.str item.parent) ∧
        fields.lookup ("element" : Text) = some (.str item.element) := by
      simp [SpellsItem]
    rw [hspells, hasExactly_iff, treeItem]
    split
    · rename_i hrequired
      simp only [bind_eq_ok_iff, stringField_eq_ok_iff, noExtraField_eq_ok_iff]
      constructor
      · rintro ⟨parent, hparent, element, helement, _, hextra, ⟨⟩⟩
        exact ⟨⟨by simpa using hrequired, hextra⟩, hparent, helement⟩
      · rintro ⟨⟨-, hextra⟩, hparent, helement⟩
        exact ⟨_, hparent, _, helement, (), hextra, rfl⟩
    · rename_i hmissing
      simp only [reduceCtorEq, false_iff]
      rintro ⟨⟨hrequired, -⟩, -⟩
      exact hmissing (by simpa using hrequired)
  | _ => simp [treeItem, SpellsItem]

theorem treeItemsFrom_eq_ok_iff {i : Nat} {vs : List Json} {items : List TreeItem} :
    treeItemsFrom place i vs = .ok items ↔ List.Forall₂ SpellsItem vs items := by
  induction vs generalizing i items with
  | nil =>
    rw [treeItemsFrom, List.forall₂_nil_left_iff]
    simp [eq_comm]
  | cons v rest ih =>
    rw [treeItemsFrom, List.forall₂_cons_left_iff]
    simp only [bind_eq_ok_iff, treeItem_eq_ok_iff, ih]
    constructor
    · rintro ⟨item, hitem, items, hitems, ⟨⟩⟩
      exact ⟨item, items, hitem, hitems, rfl⟩
    · rintro ⟨item, items, hitem, hitems, rfl⟩
      exact ⟨item, hitem, items, hitems, rfl⟩

theorem treeItems_eq_ok_iff {items : List TreeItem} :
    treeItems place v = .ok items ↔ ∃ vs, v = .arr vs ∧ List.Forall₂ SpellsItem vs items := by
  cases v <;> simp [treeItems, treeItemsFrom_eq_ok_iff]

/-! ### The fields of a variant -/

/-- The fields say what the shape is. -/
structure SpellsShape (fields : Assoc Json) (s : Shape) : Prop where
  id : fields.lookup ("id" : Text) = some (.str s.id)
  x : fields.lookup ("x" : Text) = some s.x.toJson
  y : fields.lookup ("y" : Text) = some s.y.toJson
  width : fields.lookup ("width" : Text) = some s.width.toJson
  height : fields.lookup ("height" : Text) = some s.height.toJson
  text : fields.lookup ("text" : Text) = some (.str s.text)

/-- The fields say what the arrow is. -/
structure SpellsArrow (fields : Assoc Json) (a : Arrow) : Prop where
  id : fields.lookup ("id" : Text) = some (.str a.id)
  x1 : fields.lookup ("x1" : Text) = some a.x1.toJson
  y1 : fields.lookup ("y1" : Text) = some a.y1.toJson
  x2 : fields.lookup ("x2" : Text) = some a.x2.toJson
  y2 : fields.lookup ("y2" : Text) = some a.y2.toJson
  text : fields.lookup ("text" : Text) = some (.str a.text)
  source : fields.lookup ("source" : Text) = some (Element.endJson a.source)
  target : fields.lookup ("target" : Text) = some (Element.endJson a.target)

/-- The fields say what the note is. -/
structure SpellsNote (fields : Assoc Json) (n : Note) : Prop where
  id : fields.lookup ("id" : Text) = some (.str n.id)
  x : fields.lookup ("x" : Text) = some n.x.toJson
  y : fields.lookup ("y" : Text) = some n.y.toJson
  text : fields.lookup ("text" : Text) = some (.str n.text)

/-- The fields say what the tree is. -/
structure SpellsTree (fields : Assoc Json) (t : Tree) : Prop where
  id : fields.lookup ("id" : Text) = some (.str t.id)
  root : fields.lookup ("root" : Text) = some (.str t.root)
  items : ∃ vs, fields.lookup ("items" : Text) = some (.arr vs) ∧ List.Forall₂ SpellsItem vs t.items

theorem shape_eq_ok_iff {s : Shape} : shape place fields = .ok s ↔ SpellsShape fields s := by
  simp only [shape, bind_eq_ok_iff, stringField_eq_ok_iff, numberField_eq_ok_iff]
  constructor
  · rintro ⟨_, hid, _, hx, _, hy, _, hwidth, _, hheight, _, htext, ⟨⟩⟩
    exact ⟨hid, hx, hy, hwidth, hheight, htext⟩
  · rintro ⟨hid, hx, hy, hwidth, hheight, htext⟩
    exact ⟨_, hid, _, hx, _, hy, _, hwidth, _, hheight, _, htext, rfl⟩

theorem arrow_eq_ok_iff {a : Arrow} : arrow place fields = .ok a ↔ SpellsArrow fields a := by
  simp only [arrow, bind_eq_ok_iff, stringField_eq_ok_iff, numberField_eq_ok_iff, endField_eq_ok_iff]
  constructor
  · rintro ⟨_, hid, _, hx1, _, hy1, _, hx2, _, hy2, _, htext, _, hsource, _, htarget, ⟨⟩⟩
    exact ⟨hid, hx1, hy1, hx2, hy2, htext, hsource, htarget⟩
  · rintro ⟨hid, hx1, hy1, hx2, hy2, htext, hsource, htarget⟩
    exact ⟨_, hid, _, hx1, _, hy1, _, hx2, _, hy2, _, htext, _, hsource, _, htarget, rfl⟩

theorem note_eq_ok_iff {n : Note} : note place fields = .ok n ↔ SpellsNote fields n := by
  simp only [note, bind_eq_ok_iff, stringField_eq_ok_iff, numberField_eq_ok_iff]
  constructor
  · rintro ⟨_, hid, _, hx, _, hy, _, htext, ⟨⟩⟩
    exact ⟨hid, hx, hy, htext⟩
  · rintro ⟨hid, hx, hy, htext⟩
    exact ⟨_, hid, _, hx, _, hy, _, htext, rfl⟩

theorem tree_eq_ok_iff {t : Tree} : tree place fields = .ok t ↔ SpellsTree fields t := by
  simp only [tree, bind_eq_ok_iff, stringField_eq_ok_iff, field_eq_ok_iff, treeItems_eq_ok_iff]
  constructor
  · rintro ⟨_, hid, _, hroot, _, hitems, _, ⟨vs, rfl, hspells⟩, ⟨⟩⟩
    exact ⟨hid, hroot, vs, hitems, hspells⟩
  · rintro ⟨hid, hroot, vs, hitems, hspells⟩
    exact ⟨_, hid, _, hroot, _, hitems, _, ⟨vs, rfl, hspells⟩, rfl⟩

/-- The fields say what the element is, its type apart. -/
def SpellsFields (fields : Assoc Json) : Element → Prop
  | .rectangle s | .diamond s => SpellsShape fields s
  | .arrow a => SpellsArrow fields a
  | .note n => SpellsNote fields n
  | .tree t => SpellsTree fields t

theorem SpellsFields.id {e : Element} (h : SpellsFields fields e) :
    fields.lookup ("id" : Text) = some (.str e.id) := by
  cases e with
  | rectangle s => exact SpellsShape.id h
  | diamond s => exact SpellsShape.id h
  | arrow a => exact SpellsArrow.id h
  | note n => exact SpellsNote.id h
  | tree t => exact SpellsTree.id h

theorem variantFields_eq_ok_iff {variant : Variant} {e : Element} :
    variantFields place variant fields = .ok e ↔ e.variant = variant ∧ SpellsFields fields e := by
  have hmap {α : Type} {x : Checked α} {f : α → Element} {P : α → Prop} (hx : ∀ a, x = .ok a ↔ P a) :
      f <$> x = .ok e ↔ ∃ a, P a ∧ f a = e := by
    simp only [← hx]
    exact Traversal.map_eq_ok_iff
  cases variant <;> simp only [variantFields, hmap fun _ => shape_eq_ok_iff, hmap fun _ => arrow_eq_ok_iff,
    hmap fun _ => note_eq_ok_iff, hmap fun _ => tree_eq_ok_iff] <;>
    cases e <;> simp [Element.variant, SpellsFields]

/-! ### Elements -/

/-- The object spells the element, with the fields of its variant and no others. -/
structure SpellsElement (fields : Assoc Json) (e : Element) : Prop where
  keys : HasExactly e.variant.fields fields
  type : fields.lookup ("type" : Text) = some (.str e.variant.name)
  values : SpellsFields fields e

theorem readElement_eq_ok_iff {e : Element} :
    readElement place v = .ok e ↔ ∃ fields, v = .obj fields ∧ SpellsElement fields e := by
  cases v with
  | obj fields =>
    simp only [Json.obj.injEq, exists_eq_left']
    rw [readElement]
    constructor
    · intro h
      split at h
      · rename_i type htype _
        obtain ⟨variant, hvariant, h⟩ := bind_eq_ok_iff.mp h
        obtain ⟨_, hrequired, h⟩ := bind_eq_ok_iff.mp h
        obtain ⟨e', hfields, h⟩ := bind_eq_ok_iff.mp h
        obtain ⟨_, hextra, h⟩ := bind_eq_ok_iff.mp h
        cases h
        obtain ⟨rfl, hvalues⟩ := variantFields_eq_ok_iff.mp hfields
        rw [variant_eq_ok_iff] at hvariant
        rw [requireAll_eq_ok_iff] at hrequired
        rw [noExtraField_eq_ok_iff] at hextra
        exact ⟨hasExactly_iff.mpr ⟨hrequired, hextra⟩, hvariant ▸ htype, hvalues⟩
      · cases h
    · rintro ⟨hkeys, htype, hvalues⟩
      have hid : Assoc.has fields "id" = true := by rw [Assoc.has, hvalues.id, Option.isSome_some]
      obtain ⟨hrequired, hextra⟩ := hasExactly_iff.mp hkeys
      rw [htype, hid]
      exact bind_eq_ok_iff.mpr ⟨_, variant_eq_ok_iff.mpr rfl,
        bind_eq_ok_iff.mpr ⟨(), requireAll_eq_ok_iff.mpr hrequired,
        bind_eq_ok_iff.mpr ⟨e, variantFields_eq_ok_iff.mpr ⟨rfl, hvalues⟩,
        bind_eq_ok_iff.mpr ⟨(), noExtraField_eq_ok_iff.mpr hextra, rfl⟩⟩⟩⟩
  | _ => simp [readElement]

/-- A shape is neither too narrow nor too low. -/
def IsLargeEnough : Element → Prop
  | .rectangle s | .diamond s =>
    s.width.absBelow Violation.leastExtent = false ∧ s.height.absBelow Violation.leastExtent = false
  | _ => True

theorem largeEnough_eq_ok_iff {s : Shape} {u : Unit} : largeEnough place s = .ok u ↔
    s.width.absBelow Violation.leastExtent = false ∧ s.height.absBelow Violation.leastExtent = false := by
  unfold largeEnough
  cases s.width.absBelow Violation.leastExtent <;> cases s.height.absBelow Violation.leastExtent <;> simp

theorem element_eq_ok_iff {e : Element} :
    element place v = .ok e ↔ ∃ fields, v = .obj fields ∧ SpellsElement fields e ∧ IsLargeEnough e := by
  have hsized {s : Shape} {e' : Element} : (do largeEnough place s; pure e' : Checked Element) = .ok e ↔
      e' = e ∧ s.width.absBelow Violation.leastExtent = false ∧
        s.height.absBelow Violation.leastExtent = false := by
    rw [bind_eq_ok_iff]
    simp only [largeEnough_eq_ok_iff]
    constructor
    · rintro ⟨_, hsize, ⟨⟩⟩
      exact ⟨rfl, hsize⟩
    · rintro ⟨rfl, hsize⟩
      exact ⟨(), hsize, rfl⟩
  rw [element, bind_eq_ok_iff]
  simp only [readElement_eq_ok_iff]
  constructor
  · rintro ⟨e', ⟨fields, rfl, hspells⟩, h⟩
    refine ⟨fields, rfl, ?_⟩
    cases e' with
    | rectangle s =>
      obtain ⟨rfl, hsize⟩ := hsized.mp h
      exact ⟨hspells, hsize⟩
    | diamond s =>
      obtain ⟨rfl, hsize⟩ := hsized.mp h
      exact ⟨hspells, hsize⟩
    | _ =>
      cases h
      exact ⟨hspells, trivial⟩
  · rintro ⟨fields, rfl, hspells, hsize⟩
    refine ⟨e, ⟨fields, rfl, hspells⟩, ?_⟩
    cases e with
    | rectangle s => exact hsized.mpr ⟨rfl, hsize⟩
    | diamond s => exact hsized.mpr ⟨rfl, hsize⟩
    | _ => rfl

/-! ### Maps and documents -/

/-- One entry of an element map. -/
def elementEntry (entry : Text × Json) : Checked (Text × Element) := do
  let e ← element ("elements['" ++ entry.1 ++ "']") entry.2
  if e.id = entry.1 then return (entry.1, e) else .error (.idMismatch entry.1)

theorem elementEntries_eq_mapM (fields : Assoc Json) :
    elementEntries fields = fields.mapM elementEntry := by
  induction fields with
  | nil => rfl
  | cons entry rest ih =>
    obtain ⟨id, v⟩ := entry
    rw [List.mapM_cons, elementEntries, elementEntry, ih, bind_assoc]
    refine bind_congr fun e => ?_
    by_cases hid : e.id = id
    · simp [hid]
    · simp [hid, bind, Except.bind]

/-- The value of the entry spells the element, under its own id. -/
structure SpellsEntry (entry : Text × Json) (e : Text × Element) : Prop where
  key : e.1 = entry.1
  id : e.2.id = entry.1
  object : ∃ fields, entry.2 = .obj fields ∧ SpellsElement fields e.2
  size : IsLargeEnough e.2

theorem elementEntry_eq_ok_iff {entry : Text × Json} {e : Text × Element} :
    elementEntry entry = .ok e ↔ SpellsEntry entry e := by
  simp only [elementEntry, bind_eq_ok_iff, element_eq_ok_iff]
  constructor
  · rintro ⟨x, ⟨fields, hobj, hspells, hsize⟩, h⟩
    split at h
    · rename_i hid
      cases h
      exact ⟨rfl, hid, ⟨fields, hobj, hspells⟩, hsize⟩
    · cases h
  · rintro ⟨hkey, hid, ⟨fields, hobj, hspells⟩, hsize⟩
    refine ⟨e.2, ⟨fields, hobj, hspells, hsize⟩, ?_⟩
    rw [if_pos hid, ← hkey]
    rfl

theorem elementEntries_eq_ok_iff {entries : Assoc Json} {es : Elements} :
    elementEntries entries = .ok es ↔ List.Forall₂ SpellsEntry entries es := by
  simp only [elementEntries_eq_mapM, Traversal.mapM_eq_ok_iff, elementEntry_eq_ok_iff]

theorem elements_eq_ok_iff {v : Json} {es : Elements} : elements v = .ok es ↔
    ∃ entries, v = .obj entries ∧ elementEntries entries = .ok es ∧ unsoundTree? es = none := by
  cases v with
  | obj entries =>
    simp only [elements, bind_eq_ok_iff, Json.obj.injEq, exists_eq_left']
    constructor
    · rintro ⟨es', hes, h⟩
      split at h
      · cases h
      · rename_i hnone
        cases h
        exact ⟨hes, hnone⟩
    · rintro ⟨hes, hnone⟩
      refine ⟨es, hes, ?_⟩
      rw [hnone]
      rfl
  | _ => simp [elements]

/-- One entry of a map of namespaces. -/
def namespaceEntry : Text × Json → Checked (Text × Text)
  | (label, .str ns) => .ok (label, ns)
  | (label, v) => .error (.namespaceNotString label v.kindName)

theorem namespaceEntries_eq_mapM (fields : Assoc Json) :
    namespaceEntries fields = fields.mapM namespaceEntry := by
  induction fields with
  | nil => rfl
  | cons entry rest ih =>
    obtain ⟨label, v⟩ := entry
    rw [List.mapM_cons, ← ih]
    cases v <;> rfl

theorem namespaceEntry_eq_ok_iff {entry : Text × Json} {e : Text × Text} :
    namespaceEntry entry = .ok e ↔ entry = (e.1, .str e.2) := by
  obtain ⟨label, v⟩ := entry
  obtain ⟨label', ns⟩ := e
  cases v <;> simp [namespaceEntry]

/-- A map of namespaces is read from one value only. -/
theorem namespaces_eq_ok_iff {namespaces : PrefixMap} :
    Schema.namespaces v = .ok namespaces ↔ v = .obj (namespaces.map fun e => (e.1, .str e.2)) := by
  cases v with
  | obj fields =>
    rw [Json.obj.injEq, Schema.namespaces, namespaceEntries_eq_mapM, mapM_eq_ok_iff, ← List.forall₂_eq_eq_eq,
      List.forall₂_map_right_iff]
    simp only [namespaceEntry_eq_ok_iff]
  | _ => simp [Schema.namespaces]

/-- The parts are read one after another, and the extra keys are looked for last. -/
theorem document_obj_eq_ok_iff {d : Document} : document (.obj fields) = .ok d ↔
    HasExactly documentKeys fields ∧
      (∃ v, fields.lookup ("prefixes" : Text) = some v ∧ namespaces v = .ok d.namespaces) ∧
      fields.lookup ("domain" : Text) = some (.str d.domain) ∧
      (∃ v, fields.lookup ("elements" : Text) = some v ∧ elements v = .ok d.elements) ∧
      fields.lookup ("rawStatements" : Text) = some (.str d.rawStatements) := by
  simp only [document, bind_eq_ok_iff, field_eq_ok_iff, requireAll_eq_ok_iff, domain, rawStatements,
    string_eq_ok_iff, hasExactly_iff, ← extraKey?_eq_none_iff]
  constructor
  · rintro ⟨_, hrequired, prefixes, hprefixes, namespaces, hnamespaces, _, hdomain, domain, rfl, _, helements,
      elements, hes, _, hraw, raw, rfl, h⟩
    split at h
    · cases h
    · rename_i hextra
      cases h
      exact ⟨⟨hrequired, hextra⟩, ⟨_, hprefixes, hnamespaces⟩, hdomain, ⟨_, helements, hes⟩, hraw⟩
  · rintro ⟨⟨hrequired, hextra⟩, ⟨_, hprefixes, hnamespaces⟩, hdomain, ⟨_, helements, hes⟩, hraw⟩
    refine ⟨(), hrequired, _, hprefixes, _, hnamespaces, _, hdomain, _, rfl, _, helements, _, hes, _, hraw, _,
      rfl, ?_⟩
    rw [hextra]
    rfl

end Ontogram.Schema

/-
The schema of a document.

A document is accepted by a series of checks, in a fixed order and over ten kinds of value. What they come to
can be said without them, as a table of fields and a few rules beside it:

* `Variant.kinds`, `FieldKind.Admits` — the fields of each variant, and what their values can be;
* `IsElement` — the object of an element: the fields of its variant, its own id, and extents that are not too
  small;
* `IsElementMap` — elements under their ids, whose trees are hierarchies of the diamonds among them;
* `IsDocument` — the whole schema;
* `elements_isOk_iff` — the checks of an element map pass iff it is one;
* `document_isOk_iff_isDocument` — and the same for a document, whatever the order of its keys.
-/
import Mathlib.Algebra.Order.Field.Rat
import Mathlib.Tactic.Positivity
import Ontogram.Proofs.DepthFirst
import Ontogram.Proofs.FieldOrder
namespace Ontogram

/-! ### The table -/

/-- What the value of a field has to be. -/
inductive FieldKind where
  | number
  | string
  | stringOrNull
  | items
deriving DecidableEq

/-- The values of each kind. Truth values are no numbers. -/
inductive FieldKind.Admits : FieldKind → Json → Prop
  | int (n : Int) : Admits .number (.int n)
  | double (x : Double) : Admits .number (.double x)
  | string (s : Text) : Admits .string (.str s)
  | null : Admits .stringOrNull .null
  | present (s : Text) : Admits .stringOrNull (.str s)
  | items {vs : List Json} (h : ∀ v ∈ vs, ∃ item, Schema.SpellsItem v item) : Admits .items (.arr vs)

namespace Variant

/-- The fields of a variant and their kinds. -/
def kinds : Variant → List (Text × FieldKind)
  | .rectangle | .diamond =>
    [("id", .string), ("type", .string), ("x", .number), ("y", .number), ("width", .number),
     ("height", .number), ("text", .string)]
  | .arrow =>
    [("id", .string), ("type", .string), ("x1", .number), ("y1", .number), ("x2", .number),
     ("y2", .number), ("text", .string), ("source", .stringOrNull), ("target", .stringOrNull)]
  | .note => [("id", .string), ("type", .string), ("x", .number), ("y", .number), ("text", .string)]
  | .tree => [("id", .string), ("type", .string), ("root", .string), ("items", .items)]

/-- The fields that hold the extents of a shape. -/
def extents : Variant → List Text
  | .rectangle | .diamond => ["width", "height"]
  | _ => []

theorem map_fst_kinds (variant : Variant) : variant.kinds.map (·.1) = variant.fields := by
  cases variant <;> rfl

end Variant

/-- The magnitude as a rational number. -/
def Magnitude.rational (x : Magnitude) : ℚ := x.units / (Nat.pow 2 1074 : ℕ)

/-- The rational number that a value is. An infinity is none, and neither is what is not a number. -/
def Json.rational? : Json → Option ℚ
  | .int n => some n
  | .double (.finite negative size) => some (if negative then -size.rational else size.rational)
  | _ => none

namespace Schema

/-- The object of an element of a variant, under an id. -/
structure IsElement (id : Text) (variant : Variant) (fields : Assoc Json) : Prop where
  keys : HasExactly (variant.kinds.map (·.1)) fields
  kinds : ∀ field ∈ variant.kinds, ∃ v, fields.lookup field.1 = some v ∧ field.2.Admits v
  type_eq : fields.lookup ("type" : Text) = some (.str variant.name)
  id_eq : fields.lookup ("id" : Text) = some (.str id)
  extent_ge : ∀ key ∈ variant.extents, ∀ v, fields.lookup key = some v →
    ∀ q, v.rational? = some q → 24 ≤ |q|

/-- Is the value under the id the object of a diamond? -/
def hasDiamond (entries : Assoc Json) (id : Text) : Bool :=
  match entries.lookup id with
  | some (.obj fields) => fields.lookup ("type" : Text) = some (.str "diamond")
  | _ => false

/-- Elements under their ids. Every tree among them is a hierarchy of the diamonds among them. -/
structure IsElementMap (entries : Assoc Json) : Prop where
  elements : ∀ e ∈ entries, ∃ variant fields, e.2 = .obj fields ∧ IsElement e.1 variant fields
  trees : ∀ e ∈ entries, ∀ fields t, e.2 = .obj fields → fields.lookup ("type" : Text) = some (.str "tree") →
    SpellsTree fields t → Hierarchy.isSound (hasDiamond entries) t.root t.items = true

/-- An object with the four parts of a document. -/
structure IsDocumentObject (fields : Assoc Json) : Prop where
  keys : HasExactly ["prefixes", "domain", "elements", "rawStatements"] fields
  prefixes : ∃ entries, fields.lookup ("prefixes" : Text) = some (.obj entries) ∧ ∀ e ∈ entries, ∃ ns, e.2 = .str ns
  domain : ∃ s, fields.lookup ("domain" : Text) = some (.str s)
  elements : ∃ entries, fields.lookup ("elements" : Text) = some (.obj entries) ∧ IsElementMap entries
  rawStatements : ∃ s, fields.lookup ("rawStatements" : Text) = some (.str s)

/-- The schema. -/
def IsDocument (v : Json) : Prop := ∃ fields, v = .obj fields ∧ IsDocumentObject fields

end Schema

/-! ### Kinds and extents -/

namespace FieldKind

variable {v : Json}

theorem admits_number_iff : number.Admits v ↔ ∃ n : Number, v = n.toJson := by
  constructor
  · intro h
    cases h with
    | int n => exact ⟨.int n, rfl⟩
    | double x => exact ⟨.double x, rfl⟩
  · rintro ⟨n | x, rfl⟩
    · exact .int n
    · exact .double x

theorem admits_string_iff : string.Admits v ↔ ∃ s, v = .str s := by
  constructor
  · intro h
    cases h with
    | string s => exact ⟨s, rfl⟩
  · rintro ⟨s, rfl⟩
    exact Admits.string s

theorem admits_stringOrNull_iff : stringOrNull.Admits v ↔ ∃ s, v = Element.endJson s := by
  constructor
  · intro h
    cases h with
    | null => exact ⟨none, rfl⟩
    | present s => exact ⟨some s, rfl⟩
  · rintro ⟨_ | s, rfl⟩
    · exact .null
    · exact .present s

theorem admits_items_iff :
    items.Admits v ↔ ∃ edges vs, v = .arr vs ∧ List.Forall₂ Schema.SpellsItem vs edges := by
  constructor
  · intro h
    cases h with
    | items h =>
      obtain ⟨edges, hedges⟩ := Traversal.exists_forall₂ h
      exact ⟨edges, _, rfl, hedges⟩
  · rintro ⟨edges, vs, rfl, h⟩
    refine Admits.items fun v hv => ?_
    obtain ⟨item, -, hitem⟩ := Traversal.exists_of_mem_left h hv
    exact ⟨item, hitem⟩

end FieldKind

theorem natCast_le_abs_div_iff {bound units d : ℕ} (hd : 0 < d) :
    (bound : ℚ) ≤ |(units : ℚ) / d| ↔ ¬ units < bound * d := by
  have hpos : (0 : ℚ) < d := Nat.cast_pos.mpr hd
  rw [abs_of_nonneg (by positivity), le_div_iff₀ hpos, not_lt, ← Nat.cast_mul, Nat.cast_le]

theorem Magnitude.le_abs_rational_iff {x : Magnitude} {bound : ℕ} :
    (bound : ℚ) ≤ |x.rational| ↔ ¬ x.units < bound * Nat.pow 2 1074 := by
  have hpow {e unit : ℕ} (h : Nat.pow 2 e = unit) : 0 < unit := h ▸ Nat.pow_pos Nat.two_pos
  unfold rational
  generalize hunit : Nat.pow 2 1074 = unit
  exact natCast_le_abs_div_iff (hpow hunit)

theorem Number.absBelow_eq_false_iff {n : Number} {bound : ℕ} :
    n.absBelow bound = false ↔ ∀ q, n.toJson.rational? = some q → (bound : ℚ) ≤ |q| := by
  cases n with
  | int n =>
    have habs : |(n : ℚ)| = (n.natAbs : ℚ) := by rw [Nat.cast_natAbs, Int.cast_abs]
    simp only [absBelow, toJson, Json.rational?, Option.some.injEq, forall_eq', habs, Nat.cast_le,
      decide_eq_false_iff_not, not_lt]
  | double x =>
    cases x with
    | finite negative size =>
      simp only [absBelow, Double.absBelow, toJson, Json.rational?, decide_eq_false_iff_not,
        ← Magnitude.le_abs_rational_iff]
      cases negative <;> simp
    -- an infinity lies below no bound, and what is not a number lies nowhere
    | _ => simp [absBelow, toJson, Json.rational?, Double.absBelow]

namespace Schema

open Traversal (bind_eq_ok_iff)

variable {fields : Assoc Json} {key id : Text}

/-! ### Elements -/

/-- The field is there and its value is of the kind. -/
def HoldsKind (fields : Assoc Json) (key : Text) (kind : FieldKind) : Prop :=
  ∃ v, fields.lookup key = some v ∧ kind.Admits v

theorem holdsKind_iff {α : Type} {kind : FieldKind} {f : α → Json}
    (h : ∀ v, kind.Admits v ↔ ∃ a, v = f a) :
    HoldsKind fields key kind ↔ ∃ a, fields.lookup key = some (f a) := by
  simp only [HoldsKind, h]
  constructor
  · rintro ⟨_, hv, a, rfl⟩
    exact ⟨a, hv⟩
  · rintro ⟨a, ha⟩
    exact ⟨_, ha, a, rfl⟩

theorem holdsKind_number_iff :
    HoldsKind fields key .number ↔ ∃ n : Number, fields.lookup key = some n.toJson :=
  holdsKind_iff fun _ => FieldKind.admits_number_iff

theorem holdsKind_string_iff : HoldsKind fields key .string ↔ ∃ s, fields.lookup key = some (.str s) :=
  holdsKind_iff fun _ => FieldKind.admits_string_iff

theorem holdsKind_stringOrNull_iff :
    HoldsKind fields key .stringOrNull ↔ ∃ s, fields.lookup key = some (Element.endJson s) :=
  holdsKind_iff fun _ => FieldKind.admits_stringOrNull_iff

theorem holdsKind_items_iff : HoldsKind fields key .items ↔
    ∃ edges vs, fields.lookup key = some (.arr vs) ∧ List.Forall₂ SpellsItem vs edges := by
  simp only [HoldsKind, FieldKind.admits_items_iff]
  constructor
  · rintro ⟨_, hv, edges, vs, rfl, hvs⟩
    exact ⟨edges, vs, hv, hvs⟩
  · rintro ⟨edges, vs, hv, hvs⟩
    exact ⟨_, hv, edges, vs, rfl, hvs⟩

theorem exists_spellsShape_iff (htype : HoldsKind fields "type" .string) :
    (∃ s, SpellsShape fields s) ↔
      ∀ field ∈ Variant.rectangle.kinds, HoldsKind fields field.1 field.2 := by
  simp only [Variant.kinds, List.forall_mem_cons, htype, holdsKind_string_iff, holdsKind_number_iff]
  constructor
  · rintro ⟨s, h⟩
    exact ⟨⟨_, h.id⟩, trivial, ⟨_, h.x⟩, ⟨_, h.y⟩, ⟨_, h.width⟩, ⟨_, h.height⟩, ⟨_, h.text⟩,
      List.forall_mem_nil _⟩
  · rintro ⟨⟨id, hid⟩, -, ⟨x, hx⟩, ⟨y, hy⟩, ⟨width, hwidth⟩, ⟨height, hheight⟩, ⟨text, htext⟩, -⟩
    exact ⟨⟨id, x, y, width, height, text⟩, hid, hx, hy, hwidth, hheight, htext⟩

theorem exists_spellsArrow_iff (htype : HoldsKind fields "type" .string) :
    (∃ a, SpellsArrow fields a) ↔ ∀ field ∈ Variant.arrow.kinds, HoldsKind fields field.1 field.2 := by
  simp only [Variant.kinds, List.forall_mem_cons, htype, holdsKind_string_iff, holdsKind_number_iff,
    holdsKind_stringOrNull_iff]
  constructor
  · rintro ⟨a, h⟩
    exact ⟨⟨_, h.id⟩, trivial, ⟨_, h.x1⟩, ⟨_, h.y1⟩, ⟨_, h.x2⟩, ⟨_, h.y2⟩, ⟨_, h.text⟩, ⟨_, h.source⟩,
      ⟨_, h.target⟩, List.forall_mem_nil _⟩
  · rintro ⟨⟨id, hid⟩, -, ⟨x1, hx1⟩, ⟨y1, hy1⟩, ⟨x2, hx2⟩, ⟨y2, hy2⟩, ⟨text, htext⟩, ⟨source, hsource⟩,
      ⟨target, htarget⟩, -⟩
    exact ⟨⟨id, x1, y1, x2, y2, text, source, target⟩, hid, hx1, hy1, hx2, hy2, htext, hsource, htarget⟩

theorem exists_spellsNote_iff (htype : HoldsKind fields "type" .string) :
    (∃ n, SpellsNote fields n) ↔ ∀ field ∈ Variant.note.kinds, HoldsKind fields field.1 field.2 := by
  simp only [Variant.kinds, List.forall_mem_cons, htype, holdsKind_string_iff, holdsKind_number_iff]
  constructor
  · rintro ⟨n, h⟩
    exact ⟨⟨_, h.id⟩, trivial, ⟨_, h.x⟩, ⟨_, h.y⟩, ⟨_, h.text⟩, List.forall_mem_nil _⟩
  · rintro ⟨⟨id, hid⟩, -, ⟨x, hx⟩, ⟨y, hy⟩, ⟨text, htext⟩, -⟩
    exact ⟨⟨id, x, y, text⟩, hid, hx, hy, htext⟩

theorem exists_spellsTree_iff (htype : HoldsKind fields "type" .string) :
    (∃ t, SpellsTree fields t) ↔ ∀ field ∈ Variant.tree.kinds, HoldsKind fields field.1 field.2 := by
  simp only [Variant.kinds, List.forall_mem_cons, htype, holdsKind_string_iff, holdsKind_items_iff]
  constructor
  · rintro ⟨t, h⟩
    exact ⟨⟨_, h.id⟩, trivial, ⟨_, h.root⟩, ⟨_, h.items⟩, List.forall_mem_nil _⟩
  · rintro ⟨⟨id, hid⟩, -, ⟨root, hroot⟩, ⟨edges, hedges⟩, -⟩
    exact ⟨⟨id, root, edges⟩, hid, hroot, hedges⟩

/-- The fields of a variant spell an element of it iff each of them is of its kind. -/
theorem exists_spellsFields_iff {variant : Variant} (htype : HoldsKind fields "type" .string) :
    (∃ e : Element, e.variant = variant ∧ SpellsFields fields e) ↔
      ∀ field ∈ variant.kinds, HoldsKind fields field.1 field.2 := by
  -- the elements of a variant are those that its constructor makes
  have hmade {α : Type} (make : α → Element) (hall : ∀ e : Element, e.variant = variant ↔ ∃ a, e = make a) :
      (∃ e : Element, e.variant = variant ∧ SpellsFields fields e) ↔ ∃ a, SpellsFields fields (make a) := by
    simp only [hall]
    constructor
    · rintro ⟨_, ⟨a, rfl⟩, h⟩
      exact ⟨a, h⟩
    · rintro ⟨a, h⟩
      exact ⟨_, ⟨a, rfl⟩, h⟩
  cases variant with
  | rectangle =>
    rw [hmade .rectangle fun e => by cases e <;> simp [Element.variant]]
    exact exists_spellsShape_iff htype
  | diamond =>
    rw [hmade .diamond fun e => by cases e <;> simp [Element.variant]]
    exact exists_spellsShape_iff htype
  | arrow =>
    rw [hmade .arrow fun e => by cases e <;> simp [Element.variant]]
    exact exists_spellsArrow_iff htype
  | note =>
    rw [hmade .note fun e => by cases e <;> simp [Element.variant]]
    exact exists_spellsNote_iff htype
  | tree =>
    rw [hmade .tree fun e => by cases e <;> simp [Element.variant]]
    exact exists_spellsTree_iff htype

/-- The extents of a shape are looked at in the fields that they are read from. -/
theorem isLargeEnough_iff {e : Element} (h : SpellsFields fields e) :
    IsLargeEnough e ↔ ∀ key ∈ e.variant.extents, ∀ v, fields.lookup key = some v →
      ∀ q, v.rational? = some q → 24 ≤ |q| := by
  have hshape {s : Shape} (hs : SpellsShape fields s) : (s.width.absBelow Violation.leastExtent = false ∧
      s.height.absBelow Violation.leastExtent = false) ↔ ∀ key ∈ (["width", "height"] : List Text), ∀ v,
        fields.lookup key = some v → ∀ q, v.rational? = some q → 24 ≤ |q| := by
    simp [hs.width, hs.height, Number.absBelow_eq_false_iff, Violation.leastExtent]
  cases e with
  | rectangle s => exact hshape h
  | diamond s => exact hshape h
  | _ => simp [IsLargeEnough, Element.variant, Variant.extents]

/-- The object of an element, by what is read from it. -/
theorem exists_spellsElement_iff {variant : Variant} :
    (∃ e : Element, e.variant = variant ∧ e.id = id ∧ SpellsElement fields e ∧ IsLargeEnough e) ↔
      IsElement id variant fields := by
  constructor
  · rintro ⟨e, rfl, rfl, ⟨hkeys, htype, hvalues⟩, hsize⟩
    have hkinds := (exists_spellsFields_iff (holdsKind_string_iff.mpr ⟨_, htype⟩)).mp ⟨e, rfl, hvalues⟩
    exact ⟨e.variant.map_fst_kinds ▸ hkeys, hkinds, htype, hvalues.id, (isLargeEnough_iff hvalues).mp hsize⟩
  · intro h
    obtain ⟨e, rfl, hvalues⟩ :=
      (exists_spellsFields_iff (holdsKind_string_iff.mpr ⟨_, h.type_eq⟩)).mpr h.kinds
    have hid : e.id = id := by
      have heq := hvalues.id.symm.trans h.id_eq
      injection heq with heq
      injection heq
    exact ⟨e, rfl, hid, ⟨e.variant.map_fst_kinds ▸ h.keys, h.type_eq, hvalues⟩,
      (isLargeEnough_iff hvalues).mpr h.extent_ge⟩

/-! ### Element maps -/

theorem exists_spellsEntry_iff {entry : Text × Json} :
    (∃ e, SpellsEntry entry e) ↔
      ∃ variant fields, entry.2 = .obj fields ∧ IsElement entry.1 variant fields := by
  constructor
  · rintro ⟨e, -, hid, ⟨fields, hobj, hspells⟩, hsize⟩
    exact ⟨e.2.variant, fields, hobj, exists_spellsElement_iff.mp ⟨e.2, rfl, hid, hspells, hsize⟩⟩
  · rintro ⟨variant, fields, hobj, h⟩
    obtain ⟨e, -, hid, hspells, hsize⟩ := exists_spellsElement_iff.mpr h
    exact ⟨(entry.1, e), rfl, hid, ⟨fields, hobj, hspells⟩, hsize⟩

theorem SpellsElement.isDiamond {e : Element} (h : SpellsElement fields e) :
    e.isDiamond = decide (fields.lookup ("type" : Text) = some (.str "diamond")) := by
  rw [h.type]
  cases e <;> rfl

/-- The diamonds that are read are the diamonds that were there. -/
theorem hasDiamond_eq {entries : Assoc Json} {es : Elements} (h : List.Forall₂ SpellsEntry entries es)
    (id : Text) : hasDiamond entries id = (es.lookup id).any Element.isDiamond := by
  induction h with
  | nil => rfl
  | @cons entry e rest _ he _ ih =>
    obtain ⟨key, e⟩ := e
    obtain ⟨key', v⟩ := entry
    obtain ⟨rfl, -, ⟨fields, rfl, hspells⟩, -⟩ := he
    unfold hasDiamond at ih ⊢
    rw [List.lookup_cons, List.lookup_cons]
    cases id == key with
    | true => exact hspells.isDiamond.symm
    | false => exact ih

theorem SpellsTree.unique {t t' : Tree} (h : SpellsTree fields t) (h' : SpellsTree fields t') : t = t' := by
  have hread : tree "" fields = .ok t := tree_eq_ok_iff.mpr h
  have hread' : tree "" fields = .ok t' := tree_eq_ok_iff.mpr h'
  exact Except.ok.inj (hread.symm.trans hread')

/-- The object of a tree is read as a tree and nothing else is. -/
theorem SpellsElement.tree_iff {e : Element} (h : SpellsElement fields e) {t : Tree} :
    e = .tree t ↔ fields.lookup ("type" : Text) = some (.str "tree") ∧ SpellsTree fields t := by
  obtain ⟨-, htype, hvalues⟩ := h
  rw [htype]
  constructor
  · rintro rfl
    exact ⟨rfl, hvalues⟩
  · rintro ⟨hname, ht⟩
    cases e with
    | tree t' => rw [SpellsTree.unique hvalues ht]
    | _ => simp [Element.variant, Variant.name] at hname

theorem unsoundTree?_eq_none_iff {es : Elements} :
    unsoundTree? es = none ↔ ∀ e ∈ es, ∀ t, e.2 = .tree t → t.isSound es = true := by
  rw [unsoundTree?, Option.map_eq_none_iff, List.find?_eq_none]
  refine forall₂_congr fun e _ => ?_
  obtain ⟨key, e⟩ := e
  cases e <;> simp

/-- The trees are looked at once every element has been read. -/
theorem unsoundTree?_eq_none_iff_of_spells {entries : Assoc Json} {es : Elements}
    (h : List.Forall₂ SpellsEntry entries es) :
    unsoundTree? es = none ↔ ∀ e ∈ entries, ∀ fields t, e.2 = .obj fields →
      fields.lookup ("type" : Text) = some (.str "tree") → SpellsTree fields t →
        Hierarchy.isSound (hasDiamond entries) t.root t.items = true := by
  have hsound (t : Tree) : t.isSound es = Hierarchy.isSound (hasDiamond entries) t.root t.items := by
    rw [Tree.isSound, funext (hasDiamond_eq h)]
  simp only [unsoundTree?_eq_none_iff, hsound]
  constructor
  · intro hall entry hentry fields t hobj htype ht
    obtain ⟨e, he, -, -, ⟨fields', hobj', hspells⟩, -⟩ := Traversal.exists_of_mem_left h hentry
    cases hobj.symm.trans hobj'
    exact hall e he t (hspells.tree_iff.mpr ⟨htype, ht⟩)
  · intro hall e he t heq
    obtain ⟨entry, hentry, -, -, ⟨fields, hobj, hspells⟩, -⟩ := Traversal.exists_of_mem_right h he
    obtain ⟨htype, ht⟩ := hspells.tree_iff.mp heq
    exact hall entry hentry fields t hobj htype ht

/-- The checks of an element map pass iff it is one. -/
theorem elements_isOk_iff {v : Json} :
    (∃ es, elements v = .ok es) ↔ ∃ entries, v = .obj entries ∧ IsElementMap entries := by
  simp only [elements_eq_ok_iff, elementEntries_eq_ok_iff]
  constructor
  · rintro ⟨es, entries, rfl, hspells, hsound⟩
    refine ⟨entries, rfl, fun e he => ?_, (unsoundTree?_eq_none_iff_of_spells hspells).mp hsound⟩
    obtain ⟨x, -, hx⟩ := Traversal.exists_of_mem_left hspells he
    exact exists_spellsEntry_iff.mp ⟨x, hx⟩
  · rintro ⟨entries, rfl, helements, htrees⟩
    obtain ⟨es, hspells⟩ := Traversal.exists_forall₂ fun e he => exists_spellsEntry_iff.mpr (helements e he)
    exact ⟨es, entries, rfl, hspells, (unsoundTree?_eq_none_iff_of_spells hspells).mpr htrees⟩

/-! ### Documents -/

theorem namespaceEntry_isOk_iff {entry : Text × Json} :
    (∃ e, namespaceEntry entry = .ok e) ↔ ∃ ns, entry.2 = .str ns := by
  obtain ⟨label, v⟩ := entry
  cases v <;> simp [namespaceEntry]

theorem namespaces_isOk_iff {v : Json} : (∃ namespaces, Schema.namespaces v = .ok namespaces) ↔
    ∃ entries, v = .obj entries ∧ ∀ e ∈ entries, ∃ ns, e.2 = .str ns := by
  cases v with
  | obj entries =>
    simp only [namespaces, namespaceEntries_eq_mapM, Traversal.mapM_isOk_iff, Json.obj.injEq, exists_eq_left',
      namespaceEntry_isOk_iff]
  | _ => simp [namespaces]

theorem document_obj_isOk_iff : (∃ d, document (.obj fields) = .ok d) ↔ IsDocumentObject fields := by
  simp only [document_obj_eq_ok_iff]
  constructor
  · rintro ⟨d, hkeys, ⟨_, hprefixes, hnamespaces⟩, hdomain, ⟨_, helements, hes⟩, hraw⟩
    obtain ⟨prefixes, rfl, hstrings⟩ := namespaces_isOk_iff.mp ⟨_, hnamespaces⟩
    obtain ⟨entries, rfl, hmap⟩ := elements_isOk_iff.mp ⟨_, hes⟩
    exact ⟨hkeys, ⟨prefixes, hprefixes, hstrings⟩, ⟨_, hdomain⟩, ⟨entries, helements, hmap⟩, ⟨_, hraw⟩⟩
  · rintro ⟨hkeys, ⟨prefixes, hprefixes, hstrings⟩, ⟨domain, hdomain⟩, ⟨entries, helements, hmap⟩, raw, hraw⟩
    obtain ⟨namespaces, hnamespaces⟩ := namespaces_isOk_iff.mpr ⟨prefixes, rfl, hstrings⟩
    obtain ⟨es, hes⟩ := elements_isOk_iff.mpr ⟨entries, rfl, hmap⟩
    exact ⟨⟨namespaces, domain, es, raw⟩, hkeys, ⟨_, hprefixes, hnamespaces⟩, hdomain, ⟨_, helements, hes⟩,
      hraw⟩

/-- A document is accepted iff it follows the schema, and the order of keys has no part in it at any depth. -/
theorem document_isOk_iff_isDocument :
    (∀ v, (∃ d, document v = .ok d) ↔ IsDocument v) ∧
      ∀ v w, v.HasDistinctKeys → v.Reorders w → ((∃ d, document v = .ok d) ↔ ∃ d, document w = .ok d) := by
  refine ⟨fun v => ?_, fun v w => document_isOk_iff_of_reorders⟩
  cases v with
  | obj fields => simpa [IsDocument] using document_obj_isOk_iff
  | _ => simp [document, IsDocument]

/-- A diamond of the least size, with its width to the left. -/
def leastDiamond (id : Text) : Json :=
  .obj [("id", .str id), ("type", .str "diamond"), ("x", .int 0), ("y", .int 0), ("width", .int (-24)),
    ("height", .int 24), ("text", .str "")]

/-- A tree that stands before its two diamonds. -/
def treeEntries : Assoc Json :=
  [("t", .obj [("id", .str "t"), ("type", .str "tree"), ("root", .str "c"),
    ("items", .arr [.obj [("parent", .str "c"), ("element", .str "d")]])]),
    ("c", leastDiamond "c"), ("d", leastDiamond "d")]

/-- A document of an element map and nothing else. -/
def plainFields (entries : Assoc Json) : Assoc Json :=
  [("prefixes", .obj []), ("domain", .str ""), ("elements", .obj entries), ("rawStatements", .str "")]

def readTree : Document where
  namespaces := []
  domain := ""
  elements := [("t", .tree ⟨"t", "c", [⟨"c", "d"⟩]⟩),
    ("c", .diamond ⟨"c", .int 0, .int 0, .int (-24), .int 24, ""⟩),
    ("d", .diamond ⟨"d", .int 0, .int 0, .int (-24), .int 24, ""⟩)]
  rawStatements := ""

theorem elementEntries_treeEntries : elementEntries treeEntries = .ok readTree.elements := by
  decide +kernel

theorem isSound_tree : Tree.isSound readTree.elements ⟨"t", "c", [⟨"c", "d"⟩]⟩ = true := by
  have hc : (readTree.elements.lookup ("c" : Text)).any Element.isDiamond = true := rfl
  have hd : (readTree.elements.lookup ("d" : Text)).any Element.isDiamond = true := rfl
  -- the only edge leads from the root to where no edge begins
  have hedge {x y : Text} (h : Hierarchy.IsEdge [⟨"c", "d"⟩] x y) : x = "c" ∧ y = "d" := by
    simpa [Hierarchy.IsEdge] using h
  refine Hierarchy.isSound_iff.mpr ⟨hc, ?_, ?_, ?_, ?_, fun x hx => ?_⟩
  · exact List.forall_mem_singleton.mpr hd
  · exact List.forall_mem_singleton.mpr (.inl rfl)
  · exact List.forall_mem_singleton.mpr (by decide)
  · exact List.forall_mem_singleton.mpr (.single List.mem_cons_self)
  · obtain ⟨y, hxy, hyx⟩ := Relation.TransGen.head'_iff.mp hx
    obtain ⟨rfl, rfl⟩ := hedge hxy
    rcases Relation.ReflTransGen.cases_head hyx with heq | ⟨z, hdz, -⟩
    · exact absurd heq (by decide)
    · exact absurd (hedge hdz).1 (by decide)

theorem document_treeEntries : document (.obj (plainFields treeEntries)) = .ok readTree := by
  have hsound : unsoundTree? readTree.elements = none := by
    refine unsoundTree?_eq_none_iff.mpr (List.forall_mem_cons.mpr ⟨?_, by simp⟩)
    rintro t ⟨⟩
    exact isSound_tree
  have helements := elements_eq_ok_iff.mpr ⟨_, rfl, elementEntries_treeEntries, hsound⟩
  exact document_obj_eq_ok_iff.mpr ⟨hasExactly_iff.mpr (by decide), ⟨_, rfl, rfl⟩, rfl, ⟨_, rfl, helements⟩, rfl⟩

theorem hasDistinctKeys_treeEntries : (Json.obj (plainFields treeEntries)).HasDistinctKeys := by
  simp [plainFields, treeEntries, leastDiamond, Assoc.keys, Json.hasDistinctKeys_obj_iff,
    Json.hasDistinctKeys_arr_iff, Json.HasDistinctKeys.str, Json.HasDistinctKeys.int]

/-- The tree may stand before its diamonds or behind them. -/
theorem document_isOk_iff_isDocument_tree :
    let before := Json.obj (plainFields treeEntries)
    let behind := Json.obj (plainFields treeEntries.reverse)
    before.HasDistinctKeys ∧ before.Reorders behind ∧ IsDocument before ∧ ∃ d, document behind = .ok d := by
  obtain ⟨hschema, hreorders⟩ := document_isOk_iff_isDocument
  have hperm := Json.Reorders.value [("prefixes", .obj []), ("domain", .str "")] [("rawStatements", .str "")]
    "elements" (.fields (List.reverse_perm treeEntries).symm)
  have hok : ∃ d, document (.obj (plainFields treeEntries)) = .ok d := ⟨_, document_treeEntries⟩
  exact ⟨hasDistinctKeys_treeEntries, hperm, (hschema _).mp hok,
    (hreorders _ _ hasDistinctKeys_treeEntries hperm).mp hok⟩

end Schema

end Ontogram

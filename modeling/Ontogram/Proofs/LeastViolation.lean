/-
The violation that is reported.

An element can break many rules at once, and what is said of it is fixed: the message is that of the first stage,
and inside a stage that of the first field, or of the least extra key. The rules are listed with their ranks and
their messages, without the checks, and the checks are then shown to report the least of what is broken:

* `BreaksItem`, `reports_treeItem` — what can be wrong with an item of a tree;
* `BreaksKind`, `reports_checkKind` — with the value of a field;
* `outcome_variantFields` — the fields of a variant are checked in the order of its table;
* `BreaksFields`, `reports_fields` — what can be wrong with the fields of a variant;
* `Breaks`, `reports_element` — and with an element;
* `element_reports_least` — the report is that of the least rank, and the order of keys has no part in it.
-/
import Ontogram.Proofs.DocumentSchema
import Ontogram.Proofs.Precedence
namespace Ontogram

/-- What is asked of the values of the kind. -/
def FieldKind.demand : FieldKind → Text
  | .number => " must be a number"
  | .string => " must be a string"
  | .stringOrNull => " must be a string or null"
  | .items => " must be an array"

namespace Schema

variable {place : Text} {fields : Assoc Json}

/-! ### Items -/

/-- What is wrong with a value as an item of a tree: the rank of the rule, for an extra key also the key, and what
is said of it. -/
inductive BreaksItem (place : Text) : Json → ℕ → Text → Text → Prop
  | notObject {v : Json} (h : ∀ fields, v ≠ .obj fields) :
    BreaksItem place v 0 "" (place ++ " must be an object")
  | missing {fields : Assoc Json} (h : ("parent" : Text) ∉ Assoc.keys fields ∨ ("element" : Text) ∉ Assoc.keys fields) :
    BreaksItem place (.obj fields) 1 "" (place ++ " must have parent and element properties")
  | parent {fields : Assoc Json} {v : Json} (hv : fields.lookup ("parent" : Text) = some v) (h : ∀ s, v ≠ .str s) :
    BreaksItem place (.obj fields) 2 "" (place ++ ".parent must be a string")
  | element {fields : Assoc Json} {v : Json} (hv : fields.lookup ("element" : Text) = some v) (h : ∀ s, v ≠ .str s) :
    BreaksItem place (.obj fields) 3 "" (place ++ ".element must be a string")
  | extra {fields : Assoc Json} {key : Text} (hkey : key ∈ Assoc.keys fields)
      (h : key ∉ (["parent", "element"] : List Text)) :
    BreaksItem place (.obj fields) 4 key (place ++ "." ++ key ++ " is not a valid field")

theorem append_dot_append (place key rule : Text) :
    place ++ "." ++ key ++ rule = place ++ ("." ++ key ++ rule) := by
  rw [Text.append_assoc, Text.append_assoc, Text.append_assoc]

section Items

variable {r m : Text}

theorem breaksItem_parent_iff {v : Json} (hv : fields.lookup ("parent" : Text) = some v) :
    BreaksItem place (.obj fields) 2 r m ↔
      r = "" ∧ (∀ s, v ≠ .str s) ∧ m = place ++ "." ++ "parent" ++ " must be a string" := by
  rw [append_dot_append]
  constructor
  · rintro (_ | _ | ⟨hv', h⟩)
    cases hv.symm.trans hv'
    exact ⟨rfl, h, rfl⟩
  · rintro ⟨rfl, h, rfl⟩
    exact .parent hv h

theorem breaksItem_element_iff {v : Json} (hv : fields.lookup ("element" : Text) = some v) :
    BreaksItem place (.obj fields) 3 r m ↔
      r = "" ∧ (∀ s, v ≠ .str s) ∧ m = place ++ "." ++ "element" ++ " must be a string" := by
  rw [append_dot_append]
  constructor
  · rintro (_ | _ | _ | ⟨hv', h⟩)
    cases hv.symm.trans hv'
    exact ⟨rfl, h, rfl⟩
  · rintro ⟨rfl, h, rfl⟩
    exact .element hv h

theorem breaksItem_extra_iff : BreaksItem place (.obj fields) 4 r m ↔
    ∃ key, r = id key ∧ key ∈ Assoc.keys fields ∧ key ∉ (["parent", "element"] : List Text) ∧
      m = place ++ "." ++ key ++ " is not a valid field" := by
  constructor
  · rintro (_ | _ | _ | _ | ⟨hkey, h⟩)
    exact ⟨r, rfl, hkey, h, rfl⟩
  · rintro ⟨key, rfl, hkey, h, rfl⟩
    exact .extra hkey h

end Items

/-- The check of a text, wherever in the order of faults it stands. -/
theorem reports_string {ρ : Type} [LinearOrder ρ] {start : ρ} (place : Text) (v : Json) :
    Reports (fun r m => r = start ∧ (∀ s, v ≠ .str s) ∧ m = place ++ " must be a string") (string place v) := by
  refine reports_of_iff (by simp [string_eq_ok_iff]) fun e h => ?_
  cases v <;> cases h <;> rfl

theorem bind_field {α : Type} {key : Text} {v : Json} {f : Json → Checked α} (hv : fields.lookup key = some v) :
    (field place key fields >>= f) = f v := by
  rw [field, hv]
  rfl

theorem reports_treeItem (place : Text) (v : Json) :
    Reports (Onward (BreaksItem place v) 0) (treeItem place v) := by
  cases v with
  | obj fields =>
    refine Reports.skip (by rintro _ _ ⟨h⟩; exact h _ rfl) ?_
    rw [treeItem]
    split
    · rename_i hhas
      rw [Bool.and_eq_true, Assoc.has_iff_mem_keys, Assoc.has_iff_mem_keys] at hhas
      obtain ⟨p, hp⟩ := Assoc.exists_lookup_iff_mem_keys.mpr hhas.1
      obtain ⟨e, he⟩ := Assoc.exists_lookup_iff_mem_keys.mpr hhas.2
      rw [stringField, stringField, bind_field hp, bind_field he]
      refine Reports.skip (by rintro _ _ (_ | h); exact not_and_or.mpr h hhas) ?_
      refine ((reports_string _ p).congr fun _ _ => (breaksItem_parent_iff hp).symm).bind fun _ _ => ?_
      refine ((reports_string _ e).congr fun _ _ => (breaksItem_element_iff he).symm).bind fun _ _ => ?_
      refine ((reports_noExtraField strictMono_id).congr fun _ _ => breaksItem_extra_iff.symm).bind fun _ _ => ?_
      refine reports_pure ?_
      rintro k hk _ _ ⟨⟩ <;> omega
    · rename_i hhas
      rw [Bool.and_eq_true, Assoc.has_iff_mem_keys, Assoc.has_iff_mem_keys, not_and_or] at hhas
      refine Reports.stop (.only (.missing hhas) ?_)
      rintro _ _ ⟨⟩
      exact ⟨rfl, rfl⟩
  | _ =>
    refine Reports.stop (.only (.notObject (by simp)) ?_)
    rintro _ _ ⟨⟩
    exact ⟨rfl, rfl⟩

/-! ### Values of fields -/

/-- Where in the value of a field: at which item of a tree, by which rule, and at which extra key. -/
abbrev Spot := ℕ ×ₗ ℕ ×ₗ Text

/-- The value as a whole, and what has no parts to tell apart. -/
def Spot.whole : Spot := toLex (0, toLex (0, ""))

/-- What is wrong with the value of a field, where, and what is said of it. -/
inductive BreaksKind (place : Text) : FieldKind → Json → Spot → Text → Prop
  | value {kind : FieldKind} {v : Json} (hkind : kind ≠ .items) (h : ¬ kind.Admits v) :
    BreaksKind place kind v .whole (place ++ kind.demand)
  | notArray {v : Json} (h : ∀ vs, v ≠ .arr vs) : BreaksKind place .items v .whole (place ++ FieldKind.items.demand)
  | item {vs : List Json} {i rule : ℕ} {v : Json} {key m : Text} (hv : vs[i]? = some v)
      (h : BreaksItem (place ++ "[" ++ Text.ofNat i ++ "]") v rule key m) :
    BreaksKind place .items (.arr vs) (toLex (i, toLex (rule, key))) m

/-- The check of a field of the kind, without the value that it reads. -/
def checkKind (place : Text) : FieldKind → Json → Checked Unit
  | .number, v => outcome (number place v)
  | .string, v => outcome (string place v)
  | .stringOrNull, v => outcome (stringOrNull place v)
  | .items, v => outcome (treeItems place v)

theorem outcome_treeItemsFrom (vs : List Json) (i : ℕ) : outcome (treeItemsFrom place i vs) =
    forM (vs.zipIdx i) fun v => outcome (treeItem (place ++ "[" ++ Text.ofNat v.2 ++ "]") v.1) := by
  induction vs generalizing i with
  | nil => rfl
  | cons v rest ih =>
    rw [List.zipIdx_cons, List.forM_cons, ← ih, treeItemsFrom]
    simp only [outcome, bind_assoc, pure_bind]

theorem reports_treeItems (place : Text) (v : Json) :
    Reports (BreaksKind place .items v) (treeItems place v) := by
  cases v with
  | arr vs =>
    rw [treeItems, ← reports_outcome_iff, outcome_treeItemsFrom]
    refine (reports_forM fun v _ => reports_outcome_iff.mpr (reports_treeItem _ v.1)).congr ?_
    rintro ⟨i, rule, key⟩ m
    constructor
    · rintro ⟨-, ⟨v, j⟩, hv, -, h⟩
      rw [List.getElem?_zipIdx, Option.map_eq_some_iff] at hv
      obtain ⟨v', hv', heq⟩ := hv
      cases heq
      rw [Nat.zero_add] at h
      exact .item hv' h
    · rintro (⟨hkind, -⟩ | h | @⟨_, _, _, v, _, _, hv, h⟩)
      · exact absurd rfl hkind
      · exact absurd rfl (h _)
      · have hzip : vs.zipIdx[i]? = some (v, i) := by rw [List.getElem?_zipIdx, hv, Option.map_some, Nat.zero_add]
        exact ⟨Nat.zero_le _, _, hzip, Nat.zero_le _, h⟩
  | _ =>
    refine .only (.notArray (by simp)) ?_
    rintro _ _ (⟨hkind, -⟩ | _)
    · exact absurd rfl hkind
    · exact ⟨rfl, rfl⟩

theorem breaksKind_value_iff {kind : FieldKind} {v : Json} {spot : Spot} {m : Text} (hkind : kind ≠ .items) :
    BreaksKind place kind v spot m ↔ spot = .whole ∧ ¬ kind.Admits v ∧ m = place ++ kind.demand := by
  constructor
  · rintro (⟨-, h⟩ | _ | _)
    · exact ⟨rfl, h, rfl⟩
    · exact absurd rfl hkind
    · exact absurd rfl hkind
  · rintro ⟨rfl, h, rfl⟩
    exact .value hkind h

theorem reports_value {α : Type} {kind : FieldKind} {v : Json} {x : Checked α} (hkind : kind ≠ .items)
    (hok : (∃ a, x = .ok a) ↔ kind.Admits v) (hmessage : ∀ e, x = .error e → e.message = place ++ kind.demand) :
    Reports (BreaksKind place kind v) x :=
  (reports_of_iff (hok.trans not_not.symm) hmessage).congr fun _ _ => (breaksKind_value_iff hkind).symm

theorem reports_checkKind (place : Text) (kind : FieldKind) (v : Json) :
    Reports (BreaksKind place kind v) (checkKind place kind v) := by
  cases kind with
  | number =>
    refine reports_outcome_iff.mpr (reports_value (by simp) ?_ fun e h => ?_)
    · simp only [number_eq_ok_iff, FieldKind.admits_number_iff]
    · cases v <;> cases h <;> rfl
  | string =>
    refine reports_outcome_iff.mpr (reports_value (by simp) ?_ fun e h => ?_)
    · simp only [string_eq_ok_iff, FieldKind.admits_string_iff]
    · cases v <;> cases h <;> rfl
  | stringOrNull =>
    refine reports_outcome_iff.mpr (reports_value (by simp) ?_ fun e h => ?_)
    · simp only [stringOrNull_eq_ok_iff, FieldKind.admits_stringOrNull_iff]
    · cases v <;> cases h <;> rfl
  | items => exact reports_outcome_iff.mpr (reports_treeItems place v)

/-! ### Fields -/

/-- The check of a field, without the value that it reads. -/
def checkField (place : Text) (fields : Assoc Json) (field : Text × FieldKind) : Checked Unit :=
  Schema.field place field.1 fields >>= checkKind (place ++ "." ++ field.1) field.2

/-- The fields of a variant are checked in the order of its table. Its type has been looked at before. -/
theorem outcome_variantFields {s : Text} (htype : fields.lookup ("type" : Text) = some (.str s)) (variant : Variant) :
    outcome (variantFields place variant fields) = forM variant.kinds (checkField place fields) := by
  have htypeField : checkField place fields ("type", .string) = pure () := by
    rw [checkField, bind_field htype]
    rfl
  have hitems : place ++ "." ++ "items" = place ++ ".items" := Text.append_ofString_append ..
  cases variant <;> simp only [Variant.kinds, List.forM_cons, List.forM_nil, htypeField, pure_bind]
  all_goals simp only [variantFields, shape, arrow, note, tree, checkField, checkKind, outcome, stringField,
    numberField, endField, bind_assoc, pure_bind, map_eq_pure_bind, hitems]

/-! ### Elements -/

/-- What is wrong with the fields of a variant: the stage, the field by its place in the table, the spot in its
value, and what is said of it. -/
inductive BreaksFields (place : Text) (variant : Variant) (fields : Assoc Json) : ℕ → ℕ ×ₗ Spot → Text → Prop
  | missing {i : ℕ} {key : Text} {kind : FieldKind} (hi : variant.kinds[i]? = some (key, kind))
      (h : key ∉ Assoc.keys fields) :
    BreaksFields place variant fields 3 (toLex (i, .whole)) (place ++ "." ++ key ++ " is required")
  | value {i : ℕ} {key : Text} {kind : FieldKind} {v : Json} {spot : Spot} {m : Text}
      (hi : variant.kinds[i]? = some (key, kind)) (hv : fields.lookup key = some v)
      (h : BreaksKind (place ++ "." ++ key) kind v spot m) :
    BreaksFields place variant fields 4 (toLex (i, spot)) m
  | extra {key : Text} (hkey : key ∈ Assoc.keys fields) (h : key ∉ variant.kinds.map (·.1)) :
    BreaksFields place variant fields 5 (toLex (0, toLex (0, toLex (0, key))))
      (place ++ "." ++ key ++ " is not a valid field")
  | tooSmall {i : ℕ} {key : Text} {v : Json} {q : ℚ} (hi : variant.extents[i]? = some key)
      (hv : fields.lookup key = some v) (hq : v.rational? = some q) (h : |q| < 24) :
    BreaksFields place variant fields 6 (toLex (i, .whole))
      (place ++ "." ++ key ++ " absolute value must be at least 24px")

/-- What is wrong with a value as an element. -/
inductive Breaks (place : Text) : Json → ℕ → ℕ ×ₗ Spot → Text → Prop
  | notObject {v : Json} (h : ∀ fields, v ≠ .obj fields) :
    Breaks place v 0 (toLex (0, .whole)) (place ++ " must be an object")
  | typeOrId {fields : Assoc Json} (h : ("type" : Text) ∉ Assoc.keys fields ∨ ("id" : Text) ∉ Assoc.keys fields) :
    Breaks place (.obj fields) 1 (toLex (0, .whole)) (place ++ " must have type and id properties")
  | unknownType {fields : Assoc Json} {v : Json} (hv : fields.lookup ("type" : Text) = some v)
      (h : ∀ variant : Variant, v ≠ .str variant.name) :
    Breaks place (.obj fields) 2 (toLex (0, .whole))
      (place ++ ".type must be one of: rectangle, diamond, arrow, text, tree")
  | fields {variant : Variant} {fields : Assoc Json} {stage : ℕ} {d : ℕ ×ₗ Spot} {m : Text}
      (htype : fields.lookup ("type" : Text) = some (.str variant.name))
      (h : BreaksFields place variant fields stage d m) :
    Breaks place (.obj fields) stage d m

/-- Nothing is asked of the fields before the type is known. -/
theorem BreaksFields.three_le {variant : Variant} {stage : ℕ} {d : ℕ ×ₗ Spot} {m : Text}
    (h : BreaksFields place variant fields stage d m) : 3 ≤ stage := by
  cases h <;> decide

theorem breaks_fields_iff {variant : Variant} {stage : ℕ} {d : ℕ ×ₗ Spot} {m : Text}
    (htype : fields.lookup ("type" : Text) = some (.str variant.name)) (hstage : 3 ≤ stage) :
    Breaks place (.obj fields) stage d m ↔ BreaksFields place variant fields stage d m := by
  constructor
  · rintro (_ | _ | _ | @⟨variant', _, _, _, _, htype', h⟩)
    · omega
    · omega
    · omega
    · have hname : variant.name = variant'.name := by simpa [htype] using htype'
      obtain rfl : variant = variant' := by
        rw [← Option.some_inj, ← Variant.ofName?_name, hname, Variant.ofName?_name]
      exact h
  · exact .fields htype

theorem message_unknownType (place : Text) : (Violation.unknownType (place ++ ".type")).message =
    place ++ ".type must be one of: rectangle, diamond, arrow, text, tree" := by
  have hnames : Text.intercalate ", " (Variant.all.map Variant.name) = "rectangle, diamond, arrow, text, tree" := rfl
  have hmessage : (Violation.unknownType (place ++ ".type")).message =
      place ++ ".type" ++ " must be one of: " ++ Text.intercalate ", " (Variant.all.map Variant.name) := rfl
  rw [hmessage, hnames, Text.append_assoc, Text.append_assoc]
  rfl

theorem message_tooSmall (place : Text) :
    (Violation.tooSmall place).message = place ++ " absolute value must be at least 24px" := by
  have hmessage : (Violation.tooSmall place).message =
      place ++ " absolute value must be at least " ++ Text.ofNat Violation.leastExtent ++ "px" := rfl
  rw [hmessage, Text.append_assoc, Text.append_assoc]
  rfl

section Stages

variable {variant : Variant}

theorem reports_missing (place : Text) (variant : Variant) (fields : Assoc Json) :
    Reports (BreaksFields place variant fields 3) (requireAll place variant.fields fields) := by
  refine (reports_requireAll place variant.fields fields Spot.whole).congr ?_
  rintro ⟨i, spot⟩ m
  rw [← variant.map_fst_kinds]
  constructor
  · rintro ⟨-, key, hkey, hspot, h, rfl⟩
    rw [List.getElem?_map, Option.map_eq_some_iff] at hkey
    obtain ⟨⟨_, kind⟩, hi, rfl⟩ := hkey
    cases hspot
    exact .missing hi h
  · rintro ⟨hi, h⟩
    exact ⟨Nat.zero_le _, _, by rw [List.getElem?_map]; exact congrArg _ hi, rfl, h, rfl⟩

theorem reports_values {s : Text} (htype : fields.lookup ("type" : Text) = some (.str s))
    (hall : ∀ field ∈ variant.kinds, field.1 ∈ Assoc.keys fields) :
    Reports (BreaksFields place variant fields 4) (variantFields place variant fields) := by
  rw [← reports_outcome_iff, outcome_variantFields htype]
  have hfield : ∀ field ∈ variant.kinds, Reports (fun r m => ∃ v, fields.lookup field.1 = some v ∧
      BreaksKind (place ++ "." ++ field.1) field.2 v r m) (checkField place fields field) := by
    intro field hmem
    obtain ⟨v, hv⟩ := Assoc.exists_lookup_iff_mem_keys.mpr (hall field hmem)
    rw [checkField, bind_field hv]
    exact (reports_checkKind _ field.2 v).congr fun r m => by simp [hv]
  refine (reports_forM hfield).congr ?_
  rintro ⟨i, spot⟩ m
  constructor
  · rintro ⟨-, ⟨key, kind⟩, hi, v, hv, h⟩
    exact .value hi hv h
  · rintro (_ | ⟨hi, hv, h⟩)
    exact ⟨Nat.zero_le _, _, hi, _, hv, h⟩

theorem strictMono_extra : StrictMono fun key : Text =>
    (toLex (0, toLex (0, toLex (0, key))) : ℕ ×ₗ Spot) := by
  intro a b h
  simpa [Prod.Lex.toLex_lt_toLex] using h

theorem reports_extra (place : Text) (variant : Variant) (fields : Assoc Json) :
    Reports (BreaksFields place variant fields 5) (noExtraField place variant.fields fields) := by
  refine (reports_noExtraField strictMono_extra).congr fun r m => ?_
  rw [← variant.map_fst_kinds]
  constructor
  · rintro ⟨key, rfl, hkey, h, rfl⟩
    exact .extra hkey h
  · rintro (_ | _ | ⟨hkey, h⟩)
    exact ⟨_, rfl, hkey, h, rfl⟩

/-- The check of an extent, by its name. -/
def checkExtent (place : Text) (fields : Assoc Json) (key : Text) : Checked Unit := do
  let n ← numberField place key fields
  if n.absBelow Violation.leastExtent then .error (.tooSmall (place ++ "." ++ key)) else .ok ()

theorem checkExtent_eq {key : Text} {n : Number} (hn : fields.lookup key = some n.toJson) :
    checkExtent place fields key =
      if n.absBelow Violation.leastExtent then .error (.tooSmall (place ++ "." ++ key)) else .ok () := by
  rw [checkExtent, numberField_eq_ok_iff.mpr hn]
  rfl

theorem reports_checkExtent {key : Text} {n : Number} (hn : fields.lookup key = some n.toJson) :
    Reports (fun r m => r = Spot.whole ∧ (∃ v q, fields.lookup key = some v ∧ v.rational? = some q ∧ |q| < 24) ∧
      m = place ++ "." ++ key ++ " absolute value must be at least 24px") (checkExtent place fields key) := by
  have hsmall : (∃ v q, fields.lookup key = some v ∧ v.rational? = some q ∧ |q| < 24) ↔
      n.absBelow Violation.leastExtent = true := by
    rw [← Bool.not_eq_false, Number.absBelow_eq_false_iff]
    simp [hn, Violation.leastExtent]
  rw [checkExtent_eq hn, hsmall, ← message_tooSmall]
  refine reports_of_iff ?_ fun e h => ?_
  · cases n.absBelow Violation.leastExtent <;> simp
  · split at h <;> cases h
    rfl

/-- The check of the size of an element. -/
def checkSize (place : Text) : Element → Checked Unit
  | .rectangle s | .diamond s => largeEnough place s
  | _ => pure ()

theorem checkSize_eq_forM {e : Element} (h : SpellsFields fields e) :
    checkSize place e = forM e.variant.extents (checkExtent place fields) := by
  have hshape {s : Shape} (hs : SpellsShape fields s) :
      largeEnough place s = forM (["width", "height"] : List Text) (checkExtent place fields) := by
    have hwidth : place ++ "." ++ "width" = place ++ ".width" := Text.append_ofString_append ..
    have hheight : place ++ "." ++ "height" = place ++ ".height" := Text.append_ofString_append ..
    rw [List.forM_cons, List.forM_cons, List.forM_nil, checkExtent_eq hs.width, checkExtent_eq hs.height, largeEnough,
      hwidth, hheight]
    cases s.width.absBelow Violation.leastExtent <;> cases s.height.absBelow Violation.leastExtent <;> rfl
  cases e with
  | rectangle s => exact hshape h
  | diamond s => exact hshape h
  | _ => rfl

theorem SpellsFields.exists_extent {e : Element} (h : SpellsFields fields e) :
    ∀ key ∈ e.variant.extents, ∃ n : Number, fields.lookup key = some n.toJson := by
  have hshape {s : Shape} (hs : SpellsShape fields s) :
      ∀ key ∈ (["width", "height"] : List Text), ∃ n : Number, fields.lookup key = some n.toJson :=
    List.forall_mem_cons.mpr ⟨⟨_, hs.width⟩, List.forall_mem_singleton.mpr ⟨_, hs.height⟩⟩
  cases e with
  | rectangle s => exact hshape h
  | diamond s => exact hshape h
  | _ => exact List.forall_mem_nil _

theorem reports_size {e : Element} (h : SpellsFields fields e) :
    Reports (BreaksFields place e.variant fields 6) (checkSize place e) := by
  have hextent : ∀ key ∈ e.variant.extents, Reports _ (checkExtent place fields key) := fun key hkey =>
    reports_checkExtent (h.exists_extent key hkey).choose_spec
  rw [checkSize_eq_forM h]
  refine (reports_forM hextent).congr ?_
  rintro ⟨i, spot⟩ m
  constructor
  · rintro ⟨-, key, hi, hspot, ⟨v, q, hv, hq, h⟩, rfl⟩
    cases hspot
    exact .tooSmall hi hv hq h
  · rintro (_ | _ | _ | ⟨hi, hv, hq, h⟩)
    exact ⟨Nat.zero_le _, _, hi, rfl, ⟨_, _, hv, hq, h⟩, rfl⟩

end Stages

theorem element_obj {type : Json} (htype : fields.lookup ("type" : Text) = some type)
    (hid : Assoc.has fields "id" = true) :
    element place (.obj fields) = variant (place ++ ".type") type >>= fun variant =>
      requireAll place variant.fields fields >>= fun _ => variantFields place variant fields >>= fun e =>
        noExtraField place variant.fields fields >>= fun _ => checkSize place e >>= fun _ => pure e := by
  rw [element, readElement, htype, hid]
  simp only [bind_assoc, pure_bind]
  refine bind_congr fun variant => bind_congr fun _ => bind_congr fun e => bind_congr fun _ => ?_
  cases e <;> rfl

theorem element_obj_of_missing (h : ("type" : Text) ∉ Assoc.keys fields ∨ ("id" : Text) ∉ Assoc.keys fields) :
    element place (.obj fields) = .error (.missingTypeOrId place) := by
  rw [element, readElement]
  split
  · rename_i type htype hid
    rcases h with h | h
    · exact absurd (Assoc.exists_lookup_iff_mem_keys.mp ⟨type, htype⟩) h
    · exact absurd (Assoc.has_iff_mem_keys.mp hid) h
  · rfl

theorem variant_eq_error {type : Json} {e : Violation} (h : variant place type = .error e) :
    e = .unknownType place := by
  unfold variant at h
  split at h
  · split at h <;> cases h
    rfl
  · cases h
    rfl

theorem breaks_unknownType_iff {type : Json} {d : ℕ ×ₗ Spot} {m : Text}
    (htype : fields.lookup ("type" : Text) = some type) : Breaks place (.obj fields) 2 d m ↔
      d = toLex (0, .whole) ∧ (∀ variant : Variant, type ≠ .str variant.name) ∧
        m = (Violation.unknownType (place ++ ".type")).message := by
  rw [message_unknownType]
  constructor
  · rintro (_ | _ | ⟨hv, h⟩ | ⟨-, h⟩)
    · cases htype.symm.trans hv
      exact ⟨rfl, h, rfl⟩
    · exact absurd h.three_le (by decide)
  · rintro ⟨rfl, h, rfl⟩
    exact .unknownType htype h

theorem reports_variant {type : Json} (htype : fields.lookup ("type" : Text) = some type) :
    Reports (Breaks place (.obj fields) 2) (variant (place ++ ".type") type) := by
  have hok : (∃ variant, Schema.variant (place ++ ".type") type = .ok variant) ↔
      ¬ ∀ variant : Variant, type ≠ .str variant.name := by
    simp only [variant_eq_ok_iff, ne_eq, not_forall, not_not]
  refine (reports_of_iff hok fun e h => ?_).congr fun d m => (breaks_unknownType_iff htype).symm
  rw [variant_eq_error h]

/-- Once the type is known, stage follows on stage. -/
theorem reports_fields (place : Text) {variant : Variant}
    (htype : fields.lookup ("type" : Text) = some (.str variant.name)) :
    Reports (Onward (BreaksFields place variant fields) 3) (requireAll place variant.fields fields >>= fun _ =>
      variantFields place variant fields >>= fun e => noExtraField place variant.fields fields >>= fun _ =>
        checkSize place e >>= fun _ => pure e) := by
  refine (reports_missing place variant fields).bind fun _ hrequired => ?_
  rw [requireAll_eq_ok_iff, ← variant.map_fst_kinds, List.forall_mem_map] at hrequired
  refine (reports_values htype fun field hfield => ?_).bind fun e he => ?_
  · exact Assoc.has_iff_mem_keys.mp (hrequired field hfield)
  obtain ⟨rfl, hspells⟩ := variantFields_eq_ok_iff.mp he
  refine (reports_extra place e.variant fields).bind fun _ _ => ?_
  refine (reports_size hspells).bind fun _ _ => reports_pure ?_
  rintro k hk _ _ ⟨⟩ <;> omega

theorem reports_element (place : Text) (v : Json) : Reports (Onward (Breaks place v) 0) (element place v) := by
  cases v with
  | obj fields =>
    refine Reports.skip (by rintro _ _ (h | _ | _ | ⟨-, h⟩); exacts [h _ rfl, absurd h.three_le (by decide)]) ?_
    by_cases hkeys : ("type" : Text) ∈ Assoc.keys fields ∧ ("id" : Text) ∈ Assoc.keys fields
    · obtain ⟨type, htype⟩ := Assoc.exists_lookup_iff_mem_keys.mpr hkeys.1
      rw [element_obj htype (Assoc.has_iff_mem_keys.mpr hkeys.2)]
      refine Reports.skip ?_ ((reports_variant htype).bind fun variant hvariant => ?_)
      · rintro _ _ (_ | h | _ | ⟨-, h⟩)
        · exact not_and_or.mpr h hkeys
        · exact absurd h.three_le (by decide)
      · obtain rfl := variant_eq_ok_iff.mp hvariant
        refine (reports_fields place htype).congr fun r m => and_congr_right fun hstage => ?_
        exact (breaks_fields_iff htype hstage).symm
    · rw [not_and_or] at hkeys
      rw [element_obj_of_missing hkeys]
      refine Reports.stop (.only (.typeOrId hkeys) ?_)
      rintro _ _ (_ | _ | _ | ⟨-, h⟩)
      · exact ⟨rfl, rfl⟩
      · exact absurd h.three_le (by decide)
  | _ =>
    refine Reports.stop (.only (.notObject (by simp)) ?_)
    rintro _ _ ⟨⟩
    exact ⟨rfl, rfl⟩

/-- **The least violation is reported.** An element is accepted iff it breaks no rule. If it is refused, the message
is the one for the least stage and the least place in it at which a rule is broken. The order of keys, at any depth,
changes neither the verdict nor the message. -/
theorem element_reports_least (place : Text) :
    (∀ v, (∃ e, element place v = .ok e) ↔ ∀ stage d m, ¬ Breaks place v stage d m) ∧
      (∀ v e, element place v = .error e → ∃ stage d, (∀ m, Breaks place v stage d m ↔ m = e.message) ∧
        ∀ stage' d' m, Breaks place v stage' d' m → toLex (stage, d) ≤ toLex (stage', d')) ∧
      ∀ v w, v.HasDistinctKeys → v.Reorders w → element place v = element place w := by
  refine ⟨fun v => ?_, fun v e he => ?_, fun v w hv h => ?_⟩
  · refine (reports_element place v).isOk_iff.trans ⟨fun h stage d m hbreaks => ?_, fun h r m hbreaks => ?_⟩
    · exact h (toLex (stage, d)) m ⟨Nat.zero_le _, hbreaks⟩
    · exact h _ _ m hbreaks.2
  · have hreports := reports_element place v
    rw [he] at hreports
    obtain _ | @⟨_, ⟨stage, d⟩, h, hleast, honly⟩ := hreports
    refine ⟨stage, d, fun m => ⟨fun hm => honly m ⟨Nat.zero_le _, hm⟩, ?_⟩, fun stage' d' m hm => ?_⟩
    · rintro rfl
      exact h.2
    · exact hleast (toLex (stage', d')) m ⟨Nat.zero_le _, hm⟩
  · rw [← element_sortKeys hv, ← element_sortKeys (hv.of_reorders h), h.sortKeys_eq hv]

/-! ### A tree with several faults -/

/-- An item with neither of its texts, and with a key too many. -/
def brokenItem : Assoc Json := [("parent", .int 1), ("kind", .null), ("element", .null)]

/-- The fields of a tree with that item between a sound one and one that is no object, and with a key too many. -/
def brokenTree (item : Assoc Json) : Assoc Json :=
  ([("type", .str "tree"), ("size", .null), ("id", .str "t"), ("root", .str "c")] : Assoc Json) ++
    (("items", .arr ([.obj [("parent", .str "c"), ("element", .str "d")]] ++ .obj item :: [.null])) :: [] :
      Assoc Json)

theorem hasDistinctKeys_brokenTree : (Json.obj (brokenTree brokenItem)).HasDistinctKeys := by
  simp [brokenTree, brokenItem, Assoc.keys, Json.hasDistinctKeys_obj_iff, Json.hasDistinctKeys_arr_iff,
    Json.HasDistinctKeys.str, Json.HasDistinctKeys.int, Json.HasDistinctKeys.null]

/-- Whichever way the fields are turned, it is the parent of the second item that is reported. -/
theorem element_reports_least_tree :
    let v := Json.obj (brokenTree brokenItem)
    let w := Json.obj (brokenTree brokenItem.reverse).reverse
    v.HasDistinctKeys ∧ v.Reorders w ∧ ∃ e stage d, element "element" w = .error e ∧
      e.message = "element.items[1].parent must be a string" ∧ Breaks "element" w stage d e.message ∧
        ∀ stage' d' m, Breaks "element" w stage' d' m → toLex (stage, d) ≤ toLex (stage', d') := by
  obtain ⟨-, hleast, hreorders⟩ := element_reports_least "element"
  have hitem : (Json.obj (brokenTree brokenItem)).Reorders (.obj (brokenTree brokenItem.reverse)) :=
    .value _ _ _ (.item _ _ (.fields (List.reverse_perm _).symm))
  have hreorder := hitem.trans (.fields (List.reverse_perm (brokenTree brokenItem.reverse)).symm)
  have hread : element "element" (.obj (brokenTree brokenItem)) =
      .error (.notString "element.items[1].parent") := by decide +kernel
  rw [hreorders _ _ hasDistinctKeys_brokenTree hreorder] at hread
  obtain ⟨stage, d, hbreaks, hleast⟩ := hleast _ _ hread
  exact ⟨hasDistinctKeys_brokenTree, hreorder, _, stage, d, hread, rfl, (hbreaks _).mpr rfl, hleast⟩

end Schema

end Ontogram

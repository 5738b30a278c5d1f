/-
The rules by which a diagram declares statements, apart from the passes that compute them.

A rule reads labels and looks at which elements stand under which ids, and says nothing about an order:

* `Elements.IsKeyed` — each element stands under its own id and under no other;
* `Diagram.Resolves`, `Diagram.NamesProperty`, `Diagram.NamesDatatype`, `Diagram.SpellsObject` — how the
  labels and the notes read;
* `Diagram.IsAttribute`, `Diagram.IsRelationship`, `Diagram.IsAnnotation`, `Diagram.SpellsOut`,
  `Diagram.Enumerates` — what an arrow or a tree stands for;
* `Diagram.IsKeyPart`, `Diagram.IsKeyOf` — the parts of a primary key and their order;
* `Diagram.Declares` — the statements of a diagram, one constructor for each rule.

The lemmas of the second half tie each reading to the function that computes it.
-/
import Ontogram.Generation
import Ontogram.Proofs.Traversal
namespace Ontogram

/-- Each element stands under its own id, and no id stands twice. -/
structure Elements.IsKeyed (elements : Elements) : Prop where
  nodup : (Assoc.keys elements).Nodup
  id_eq : ∀ id e, (id, e) ∈ elements → e.id = id

/-- By position, then by attribute, then by arrow; two parts of one place come in no order. -/
def KeyPart.Precedes (a b : KeyPart) : Prop :=
  a.position < b.position ∨ a.position = b.position ∧
    (a.attributeName < b.attributeName ∨ a.attributeName = b.attributeName ∧ a.arrow < b.arrow)

namespace Diagram

variable (d : Diagram)

/-! ### Readings -/

/-- Under the id stands a diamond whose label is that of a class. -/
def Resolves (id : Text) (c : ClassName) : Prop :=
  ∃ s label, (id, .diamond s) ∈ d.elements ∧ Label.parse s.text = some label ∧
    label.isMalformed = false ∧ label.kind? = some c.kind ∧ d.resolve label.name = some c.name

/-- The text of an arrow names a property; a class marker would rule that out. -/
def NamesProperty (text name : Text) (c : Cardinality) : Prop :=
  ∃ label, Label.parse text = some label ∧ label.isMalformed = false ∧ label.kind? = none ∧
    d.resolve label.name = some name ∧ label.cardinality = c

/-- The text of a rectangle is a bare name. -/
def NamesDatatype (text name : Text) : Prop :=
  ∃ label, Label.parse text = some label ∧ label.isBare = true ∧ d.resolve label.name = some name

/-- The text of a note spells a name or, with a quote in front, a literal whose datatype has a name. -/
inductive SpellsObject (text : Text) : Term → Prop
  | name {name : Text}
      (unquoted : ∀ c ∈ (Text.trim text.toList).head?, c ≠ '"' ∧ c ≠ '\'')
      (resolved : d.spelledName text = some name) : SpellsObject text (.name name)
  | untyped {l : LiteralText} (parsed : LiteralText.parse text = some l) (untyped : l.datatype = none) :
      SpellsObject text (.literal ⟨l.value, none, l.language⟩)
  | typed {l : LiteralText} {written datatype : Text} (parsed : LiteralText.parse text = some l)
      (typed : l.datatype = some written) (resolved : d.resolve written = some datatype) :
      SpellsObject text (.literal ⟨l.value, some datatype, l.language⟩)

/-! ### What arrows and trees stand for -/

/-- The arrow is attached to the elements under the two ids. -/
structure Connects (a : Arrow) (i j : Text) : Prop where
  arrow : (a.id, .arrow a) ∈ d.elements
  source : a.source = some i
  target : a.target = some j

/-- An arrow from a class to a rectangle that names a datatype gives the class an attribute. -/
structure IsAttribute (a : Arrow) (i j subject name datatype : Text) (c : Cardinality) : Prop
    extends d.Connects a i j where
  resolved : ∃ kind, d.Resolves i ⟨subject, kind⟩
  typed : ∃ t, (j, .rectangle t) ∈ d.elements ∧ d.NamesDatatype t.text datatype
  named : d.NamesProperty a.text name c

/-- An arrow from a class to a class gives the first a relationship; no part of a key is one. -/
structure IsRelationship (a : Arrow) (i j subject name object : Text) (c : Cardinality) : Prop
    extends d.Connects a i j where
  resolved : ∃ kind, d.Resolves i ⟨subject, kind⟩
  targeted : ∃ kind, d.Resolves j ⟨object, kind⟩
  named : d.NamesProperty a.text name c
  keyless : c.key = none

/-- An arrow from a class to a note that is not empty annotates the class. -/
structure IsAnnotation (a : Arrow) (i j subject value : Text) (label : NoteLabel) : Prop
    extends d.Connects a i j where
  resolved : ∃ kind, d.Resolves i ⟨subject, kind⟩
  note : ∃ t, (j, .note t) ∈ d.elements ∧ t.text = value
  nonempty : value ≠ ""
  labelled : NoteLabel.parse a.text = some label

/-- An arrow between two notes spells out a statement. -/
structure SpellsOut (a : Arrow) (i j subject predicate : Text) (object : Term) : Prop
    extends d.Connects a i j where
  subject : ∃ s, (i, .note s) ∈ d.elements ∧ d.spelledName s.text = some subject
  predicate : d.spelledName a.text = some predicate
  object : ∃ t, (j, .note t) ∈ d.elements ∧ d.SpellsObject t.text object

/-- A tree below an enumeration, with values directly below the root and nothing else, lists these. -/
structure Enumerates (t : Tree) (root : Text) (values : List Text) : Prop where
  tree : (t.id, .tree t) ∈ d.elements
  resolved : d.Resolves t.root ⟨root, .enumeration⟩
  items : List.Forall₂
    (fun item value => item.parent = t.root ∧ d.Resolves item.element ⟨value, .enumValue⟩) t.items values
  nonempty : values ≠ []

/-- What is said about an attribute or a relationship of a subject. -/
inductive Describes (kind link subject name object : Text) (c : Cardinality) : Statement → Prop
  | kind : Describes kind link subject name object c ⟨name, Vocabulary.type, .name kind⟩
  | link : Describes kind link subject name object c ⟨name, link, .name object⟩
  | property : Describes kind link subject name object c ⟨subject, Vocabulary.property, .name name⟩
  | min {n : Nat} (h : c.min = some n) :
      Describes kind link subject name object c ⟨name, Vocabulary.minCount, .literal (.ofNat n)⟩
  | max {m n : Nat} (hmin : c.min = some m) (hmax : c.max = some n) :
      Describes kind link subject name object c ⟨name, Vocabulary.maxCount, .literal (.ofNat n)⟩

/-! ### Primary keys -/

/-- An attribute with a position is a part of its class's key. -/
def IsKeyPart (k : KeyPart) : Prop :=
  ∃ a i j datatype c, d.IsAttribute a i j k.subject k.attributeName datatype c ∧
    c.key = some k.position ∧ a.id = k.arrow

/-- The list holds exactly the parts of a class's key, each once and in their order. -/
structure IsKeyOf (subject : Text) (keys : List KeyPart) : Prop where
  nonempty : keys ≠ []
  ordered : keys.Pairwise KeyPart.Precedes
  mem_iff : ∀ k, k ∈ keys ↔ d.IsKeyPart k ∧ k.subject = subject

/-! ### The rules -/

/-- The domain is named, and declared if there is a prefix map. -/
def HasDomain : Prop :=
  d.domain ≠ "" ∧ ∀ declared, d.declared = some declared → Assoc.has declared d.domain = true

/-- A diagram declares a statement by one of these rules. -/
inductive Declares : Statement → Prop
  | domainModel (h : d.HasDomain) :
      Declares ⟨d.domain ++ ":", Vocabulary.type, .name Vocabulary.domainModelType⟩
  | domainName (h : d.HasDomain) :
      Declares ⟨d.domain ++ ":", Vocabulary.domain, .literal ⟨d.domain, none, none⟩⟩
  | classOf {id : Text} {c : ClassName} (h : d.Resolves id c) :
      Declares ⟨c.name, Vocabulary.type, .name c.kind.className⟩
  | attributeOf {a : Arrow} {i j subject name datatype : Text} {c : Cardinality} {s : Statement}
      (h : d.IsAttribute a i j subject name datatype c)
      (hs : Describes Vocabulary.attributeType Vocabulary.datatype subject name datatype c s) :
      Declares s
  | relationshipOf {a : Arrow} {i j subject name object : Text} {c : Cardinality} {s : Statement}
      (h : d.IsRelationship a i j subject name object c)
      (hs : Describes Vocabulary.relationshipType Vocabulary.targetClass subject name object c s) :
      Declares s
  | annotationOf {a : Arrow} {i j subject value : Text} {label : NoteLabel}
      (h : d.IsAnnotation a i j subject value label) :
      Declares ⟨subject, label.predicate, .literal ⟨value, none, some label.language⟩⟩
  | spelledOut {a : Arrow} {i j subject predicate : Text} {object : Term}
      (h : d.SpellsOut a i j subject predicate object) : Declares ⟨subject, predicate, object⟩
  | enumerationOf {t : Tree} {root : Text} {values : List Text} (h : d.Enumerates t root values) :
      Declares ⟨root, Vocabulary.oneOf, .list values⟩
  | primaryKeyOf {subject : Text} {keys : List KeyPart} (h : d.IsKeyOf subject keys) :
      Declares ⟨subject, Vocabulary.primaryKey, .list (keys.map (·.attributeName))⟩

/-! ### The readings as they are computed -/

variable {d}

theorem readDiamond_eq_declares_iff {text : Text} {c : ClassName} :
    d.readDiamond text = .declares c ↔
      ∃ label, Label.parse text = some label ∧ label.isMalformed = false ∧
        label.kind? = some c.kind ∧ d.resolve label.name = some c.name := by
  obtain ⟨name, kind⟩ := c
  unfold readDiamond
  cases Label.parse text with
  | none => simp
  | some label =>
    cases hm : label.isMalformed with
    | true => simp [hm]
    | false =>
      cases hr : d.resolve label.name with
      | none => simp [hm, hr]
      | some written =>
        cases hk : label.kind? with
        | none => cases hb : label.isBare <;> simp [hm, hr, hk, hb]
        | some marked => simp [hm, hr, hk, and_comm]

theorem property_eq_some_iff {text name : Text} {c : Cardinality} :
    d.property text = some (name, c) ↔ d.NamesProperty text name c := by
  unfold property NamesProperty
  cases Label.parse text with
  | none => simp
  | some label => cases hm : label.isMalformed <;> cases hk : label.kind? <;> simp [hm, hk]

theorem datatype_eq_some_iff {text name : Text} :
    d.datatype text = some name ↔ d.NamesDatatype text name := by
  unfold datatype NamesDatatype
  cases Label.parse text with
  | none => simp
  | some label => cases hb : label.isBare <;> simp [hb]

/-- A note that does not begin with a quote spells a name. -/
theorem noteObject_of_unquoted {text : Text}
    (h : ∀ c ∈ (Text.trim text.toList).head?, c ≠ '"' ∧ c ≠ '\'') :
    d.noteObject text = (d.spelledName text).map .name := by
  unfold noteObject spelledName
  cases htrim : Text.trim text.toList with
  | nil => rfl
  | cons c rest =>
    rw [htrim] at h
    exact if_neg (not_or.mpr (h c rfl))

theorem parse_of_unquoted {text : Text} (h : ∀ c ∈ (Text.trim text.toList).head?, c ≠ '"' ∧ c ≠ '\'') :
    LiteralText.parse text = none := by
  unfold LiteralText.parse LiteralText.parseChars
  cases htrim : Text.trim text.toList with
  | nil => rfl
  | cons c rest =>
    rw [htrim] at h
    exact if_neg (not_or.mpr (h c rfl))

/-- A quote in front decides for a literal. -/
theorem noteObject_of_quoted {text : Text}
    (h : ¬ ∀ c ∈ (Text.trim text.toList).head?, c ≠ '"' ∧ c ≠ '\'') :
    d.noteObject text = (LiteralText.parse text).bind fun l =>
      l.datatype.elim (some (.literal ⟨l.value, none, l.language⟩)) fun written =>
        (d.resolve written).map fun datatype => .literal ⟨l.value, some datatype, l.language⟩ := by
  unfold noteObject LiteralText.parse
  cases htrim : Text.trim text.toList with
  | nil => exact absurd (by simp [htrim]) h
  | cons c rest =>
    have hquote : c = '"' ∨ c = '\'' := by
      by_contra hc
      refine h fun c' hc' => ?_
      rw [htrim] at hc'
      obtain rfl : c = c' := Option.some_inj.mp hc'
      exact not_or.mp hc
    simp only [if_pos hquote]
    cases LiteralText.parseChars (c :: rest) with
    | none => rfl
    | some l => cases hd : l.datatype <;> simp [hd]

theorem noteObject_eq_some_iff {text : Text} {object : Term} :
    d.noteObject text = some object ↔ d.SpellsObject text object := by
  by_cases h : ∀ c ∈ (Text.trim text.toList).head?, c ≠ '"' ∧ c ≠ '\''
  · rw [noteObject_of_unquoted h]
    constructor
    · intro hobject
      obtain ⟨name, hresolved, rfl⟩ := Option.map_eq_some_iff.mp hobject
      exact .name h hresolved
    · rintro (⟨-, hresolved⟩ | ⟨hl, -⟩ | ⟨hl, -, -⟩)
      · exact Option.map_eq_some_iff.mpr ⟨_, hresolved, rfl⟩
      · cases (parse_of_unquoted h).symm.trans hl
      · cases (parse_of_unquoted h).symm.trans hl
  · rw [noteObject_of_quoted h, Option.bind_eq_some_iff]
    constructor
    · rintro ⟨l, hl, hobject⟩
      cases hd : l.datatype with
      | none =>
        rw [hd] at hobject
        obtain rfl := Option.some.inj hobject
        exact .untyped hl hd
      | some written =>
        rw [hd] at hobject
        obtain ⟨datatype, hresolved, rfl⟩ := Option.map_eq_some_iff.mp hobject
        exact .typed hl hd hresolved
    · rintro (⟨hunquoted, -⟩ | ⟨hl, hd⟩ | ⟨hl, hd, hresolved⟩)
      · exact absurd hunquoted h
      · exact ⟨_, hl, by rw [hd, Option.elim_none]⟩
      · exact ⟨_, hl, by rw [hd, Option.elim_some, hresolved, Option.map_some]⟩

theorem mem_cardinalityStatements {name : Text} {c : Cardinality} {s : Statement} :
    s ∈ cardinalityStatements name c ↔
      (∃ n, c.min = some n ∧ s = ⟨name, Vocabulary.minCount, .literal (.ofNat n)⟩) ∨
      ∃ m n, c.min = some m ∧ c.max = some n ∧
        s = ⟨name, Vocabulary.maxCount, .literal (.ofNat n)⟩ := by
  unfold cardinalityStatements
  cases hmin : c.min with
  | none => simp
  | some m => cases hmax : c.max <;> simp

theorem enumValues_eq_some_iff {classes : Assoc ClassName} {t : Tree} {values : List Text} :
    enumValues classes t = some values ↔
      List.Forall₂ (fun item value => item.parent = t.root ∧
        classes.lookup item.element = some ⟨value, .enumValue⟩) t.items values := by
  rw [enumValues, Traversal.mapM_eq_some_iff]
  refine iff_of_eq (congrArg (List.Forall₂ · t.items values) (funext₂ fun item value => propext ?_))
  cases classes.lookup item.element with
  | none => simp
  | some c =>
    obtain ⟨name, kind⟩ := c
    by_cases hroot : item.parent = t.root <;> by_cases hkind : kind = .enumValue <;>
      simp [hroot, hkind]

end Diagram

end Ontogram

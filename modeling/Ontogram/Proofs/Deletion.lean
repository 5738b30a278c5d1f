/-
What deleting an element from a diagram changes.

The rules look at the elements that take part in statements and at no others. So an element that takes part
in nothing can be deleted, even while arrows and trees still name its id:

* `Diagram.withElements`, `Diagram.without` — a diagram with other elements, with one element less;
* `declares_withElements_iff` — two diagrams with the same used elements declare the same;
* `declares_without_iff` — what takes part in no statement can be deleted;
* `note_or_key_of_invalid` — of the elements that are kept as invalid only notes and arrows of a key take
  part in anything;
* `statements_without_invalid` — what deleting an invalid element changes.
-/
import Ontogram.Proofs.Participation
namespace Ontogram.Diagram

variable {d : Diagram}

/-- The diagram with other elements and the same names. -/
def withElements (d : Diagram) (elements : Elements) : Diagram := { d with elements }

/-- The diagram less the element under the id. -/
def without (d : Diagram) (id : Text) : Diagram := d.withElements (Assoc.erase id d.elements)

theorem mem_without_elements_iff {id key : Text} {e : Element} :
    (key, e) ∈ (d.without id).elements ↔ (key, e) ∈ d.elements ∧ key ≠ id := by
  simp [without, withElements, Assoc.erase]

/-! ### The used elements decide -/

section Kept

variable {es : Elements} (kept : ∀ id e, (id, e) ∈ d.elements → d.Uses id → (id, e) ∈ es)

include kept

theorem resolves_withElements {id : Text} {c : ClassName} (h : d.Resolves id c) :
    (d.withElements es).Resolves id c := by
  have hused := Uses.diamond h
  obtain ⟨s, label, hs, hlabel⟩ := h
  exact ⟨s, label, kept _ _ hs hused, hlabel⟩

/-- The arrow and its ends are used, so all three are kept. -/
theorem connects_withElements {a : Arrow} {i j : Text} (h : d.Links a i j) :
    (d.withElements es).Connects a i j where
  arrow := kept _ _ h.connects.arrow (.arrow h (by simp [ends]))
  source := h.connects.source
  target := h.connects.target

theorem source_withElements {a : Arrow} {i j : Text} (h : d.Links a i j) {e : Element}
    (he : (i, e) ∈ d.elements) : (i, e) ∈ es := kept _ _ he (.arrow h (by simp [ends]))

theorem target_withElements {a : Arrow} {i j : Text} (h : d.Links a i j) {e : Element}
    (he : (j, e) ∈ d.elements) : (j, e) ∈ es := kept _ _ he (.arrow h (by simp [ends]))

theorem isAttribute_withElements {a : Arrow} {i j subject name datatype : Text} {c : Cardinality}
    (h : d.IsAttribute a i j subject name datatype c) :
    (d.withElements es).IsAttribute a i j subject name datatype c := by
  obtain ⟨kind, hres⟩ := h.resolved
  obtain ⟨t, ht, htype⟩ := h.typed
  exact
    { connects_withElements kept (.attributeOf h) with
      resolved := ⟨kind, resolves_withElements kept hres⟩
      typed := ⟨t, target_withElements kept (.attributeOf h) ht, htype⟩
      named := h.named }

theorem isRelationship_withElements {a : Arrow} {i j subject name object : Text} {c : Cardinality}
    (h : d.IsRelationship a i j subject name object c) :
    (d.withElements es).IsRelationship a i j subject name object c := by
  obtain ⟨kind, hres⟩ := h.resolved
  obtain ⟨kind', hobject⟩ := h.targeted
  exact
    { connects_withElements kept (.relationshipOf h) with
      resolved := ⟨kind, resolves_withElements kept hres⟩
      targeted := ⟨kind', resolves_withElements kept hobject⟩
      named := h.named
      keyless := h.keyless }

theorem isAnnotation_withElements {a : Arrow} {i j subject value : Text} {label : NoteLabel}
    (h : d.IsAnnotation a i j subject value label) :
    IsAnnotation (d.withElements es) a i j subject value label := by
  obtain ⟨kind, hres⟩ := h.resolved
  obtain ⟨t, ht, hvalue⟩ := h.note
  exact
    { connects_withElements kept (.annotationOf h) with
      resolved := ⟨kind, resolves_withElements kept hres⟩
      note := ⟨t, target_withElements kept (.annotationOf h) ht, hvalue⟩
      nonempty := h.nonempty
      labelled := h.labelled }

theorem spellsOut_withElements {a : Arrow} {i j subject predicate : Text} {object : Term}
    (h : d.SpellsOut a i j subject predicate object) :
    (d.withElements es).SpellsOut a i j subject predicate object := by
  obtain ⟨s, hs, hsubject⟩ := h.subject
  obtain ⟨t, ht, hobject⟩ := h.object
  have hspells : (d.withElements es).SpellsObject t.text object := by
    cases hobject with
    | name hunquoted hresolved => exact .name hunquoted hresolved
    | untyped hparsed huntyped => exact .untyped hparsed huntyped
    | typed hparsed htyped hresolved => exact .typed hparsed htyped hresolved
  exact
    { connects_withElements kept (.spelledOut h) with
      subject := ⟨s, source_withElements kept (.spelledOut h) hs, hsubject⟩
      predicate := h.predicate
      object := ⟨t, target_withElements kept (.spelledOut h) ht, hspells⟩ }

theorem enumerates_withElements {t : Tree} {root : Text} {values : List Text}
    (h : d.Enumerates t root values) : (d.withElements es).Enumerates t root values where
  tree := kept _ _ h.tree (.tree h)
  resolved := resolves_withElements kept h.resolved
  items := h.items.imp fun _ _ hitem => ⟨hitem.1, resolves_withElements kept hitem.2⟩
  nonempty := h.nonempty

theorem isKeyPart_withElements {k : KeyPart} (h : d.IsKeyPart k) : (d.withElements es).IsKeyPart k := by
  obtain ⟨a, i, j, datatype, c, h, hrest⟩ := h
  exact ⟨a, i, j, datatype, c, isAttribute_withElements kept h, hrest⟩

/-- The key of a class is kept if it has no part more than before. -/
theorem declares_withElements {s : Statement} (h : d.Declares s)
    (hkey : ∀ k, (d.withElements es).IsKeyPart k → d.IsKeyPart k) : (d.withElements es).Declares s := by
  cases h with
  | domainModel h => exact .domainModel h
  | domainName h => exact .domainName h
  | classOf h => exact .classOf (resolves_withElements kept h)
  | attributeOf h hs => exact .attributeOf (isAttribute_withElements kept h) hs
  | relationshipOf h hs => exact .relationshipOf (isRelationship_withElements kept h) hs
  | annotationOf h => exact .annotationOf (isAnnotation_withElements kept h)
  | spelledOut h => exact .spelledOut (spellsOut_withElements kept h)
  | enumerationOf h => exact .enumerationOf (enumerates_withElements kept h)
  | primaryKeyOf h =>
    refine .primaryKeyOf ⟨h.nonempty, h.ordered, fun k => ?_⟩
    rw [h.mem_iff]
    exact and_congr_left fun _ => ⟨isKeyPart_withElements kept, hkey k⟩

end Kept

/-- Two diagrams with the same used elements declare the same. -/
theorem declares_withElements_iff {es : Elements}
    (kept : ∀ id e, (id, e) ∈ d.elements → d.Uses id → (id, e) ∈ es)
    (found : ∀ id e, (id, e) ∈ es → (d.withElements es).Uses id → (id, e) ∈ d.elements)
    {s : Statement} : (d.withElements es).Declares s ↔ d.Declares s := by
  have hback : ∀ k, (d.withElements es).IsKeyPart k → d.IsKeyPart k := fun _ =>
    isKeyPart_withElements (d := d.withElements es) found
  exact ⟨fun h => declares_withElements (d := d.withElements es) found h fun _ =>
    isKeyPart_withElements kept, fun h => declares_withElements kept h hback⟩

/-- What takes part in no statement can be deleted. -/
theorem declares_without_iff {id : Text} (h : ¬ d.Uses id) {s : Statement} :
    (d.without id).Declares s ↔ d.Declares s := by
  refine declares_withElements_iff (fun key e he hused => ?_) fun key e he _ => ?_
  · exact mem_without_elements_iff.mpr ⟨he, fun heq => h (heq ▸ hused)⟩
  · exact (mem_without_elements_iff.mp he).1

theorem isKeyed_without (hd : d.elements.IsKeyed) (id : Text) : (d.without id).elements.IsKeyed where
  nodup := hd.nodup.sublist (List.filter_sublist.map _)
  id_eq key e he := hd.id_eq key e (mem_without_elements_iff.mp he).1

/-! ### Invalid elements -/

theorem mem_of_lookup_classification {id : Text} {c : Classification}
    (h : (generate d).classification.lookup id = some c) : ∃ e, (id, e) ∈ d.elements ∧
      classify d.invalidIds d.rawIds d.usedIds (keyedSubjects d.keyParts) d.classNames id e = c := by
  obtain ⟨⟨key, e⟩, he, heq⟩ := List.mem_map.mp (Assoc.mem_of_lookup h)
  cases heq
  exact ⟨e, he, rfl⟩

theorem mem_invalidIds_of_classify {invalid raw used keyed : List Text} {classes : Assoc ClassName}
    {id : Text} {e : Element} (h : classify invalid raw used keyed classes id e = .invalid) :
    id ∈ invalid := by
  unfold classify at h
  split at h
  · rename_i hmem
    exact List.contains_iff_mem.mp hmem
  · split at h
    · cases h
    · split at h
      · split at h <;> cases h
      · cases h

theorem mem_outOfSequence {expected : Nat} {keys : List KeyPart} {id : Text}
    (h : id ∈ outOfSequence expected keys) : ∃ k ∈ keys, k.arrow = id := by
  induction keys generalizing expected with
  | nil => cases h
  | cons k rest ih =>
    rw [outOfSequence] at h
    split at h
    · obtain ⟨l, hl, harrow⟩ := ih h
      exact ⟨l, List.mem_cons_of_mem _ hl, harrow⟩
    · exact List.mem_map.mp h

section Invalid

variable (hd : d.elements.IsKeyed)

include hd

theorem isKeyPart_of_misplaced {id : Text} (h : id ∈ misplacedKeys d.keyParts) :
    ∃ k, d.IsKeyPart k ∧ k.arrow = id := by
  obtain ⟨subject, -, h⟩ := List.mem_flatMap.mp h
  obtain ⟨k, hk, harrow⟩ := mem_outOfSequence h
  exact ⟨k, (mem_keyParts_iff hd).mp (mem_keyOf.mp hk).1, harrow⟩

/-- Of the elements that are kept as invalid only notes and arrows of a key take part in anything. -/
theorem note_or_key_of_invalid {id : Text} (hinvalid : id ∈ d.invalidIds) (hu : d.Uses id) :
    (∃ n, (id, .note n) ∈ d.elements) ∨ ∃ k, d.IsKeyPart k ∧ k.arrow = id := by
  rcases (mem_invalidIds_iff hd).mp hinvalid with ⟨C, hC, h⟩ | ⟨C, hC, h⟩ | h
  · exact .inl (note_of_mem_invalid hd hC h hu)
  · exact absurd hu (not_uses_of_untyped hd hC h)
  · exact .inr (isKeyPart_of_misplaced hd h)

end Invalid

/-- The statement is generated, unless there is a prefix map that lacks one of its labels. -/
def Keeps (d : Diagram) (s : Statement) : Prop :=
  s ∈ (generate d).statements ↔ ∀ declared, d.declared = some declared → s.isDeclared declared = true

theorem keeps_of_declares (hd : d.elements.IsKeyed) {s : Statement} (h : d.Declares s) : d.Keeps s := by
  rw [Keeps, generate, mem_statements_iff, mem_allStatements_iff hd]
  exact and_iff_right h

/-- **What an invalid element contributes.** An element that is classified as invalid can be deleted, and
the diagram generates the same statements. Two kinds of element are excepted. An arrow of a primary key is
invalid if it breaks the sequence of its class's positions, and the statements that it declares are kept, as is its
place in the list that is declared for the class. A note can be invalid in one statement and take part in another. -/
theorem statements_without_invalid (hd : d.elements.IsKeyed) {id : Text}
    (hinvalid : (generate d).classification.lookup id = some .invalid) :
    ((∀ k, d.IsKeyPart k → k.arrow ≠ id) → (∀ n, (id, .note n) ∈ d.elements → ¬ d.Uses id) →
      ∀ s, s ∈ (generate (d.without id)).statements ↔ s ∈ (generate d).statements) ∧
    ∀ k, d.IsKeyPart k → k.arrow = id →
      (∃ a i j datatype c, a.id = id ∧ d.IsAttribute a i j k.subject k.attributeName datatype c ∧
        ∀ s, Describes Vocabulary.attributeType Vocabulary.datatype k.subject k.attributeName datatype c s →
          d.Keeps s) ∧
      ∃ keys, d.IsKeyOf k.subject keys ∧ k ∈ keys ∧
        d.Keeps ⟨k.subject, Vocabulary.primaryKey, .list (keys.map (·.attributeName))⟩ := by
  constructor
  · intro hkey hnote s
    obtain ⟨e, he, hclass⟩ := mem_of_lookup_classification hinvalid
    have hunused : ¬ d.Uses id := by
      intro hu
      rcases note_or_key_of_invalid hd (mem_invalidIds_of_classify hclass) hu with
        ⟨n, hn⟩ | ⟨k, hk, harrow⟩
      · exact hnote n hn hu
      · exact hkey k hk harrow
    rw [generate, generate, mem_statements_iff, mem_statements_iff, mem_allStatements_iff hd,
      mem_allStatements_iff (isKeyed_without hd id), declares_without_iff hunused]
    rfl
  · rintro k hk rfl
    have hmem : k ∈ keyOf k.subject d.keyParts := mem_keyOf.mpr ⟨(mem_keyParts_iff hd).mpr hk, rfl⟩
    have hkeys := (isKeyOf_iff hd).mpr ⟨rfl, List.ne_nil_of_mem hmem⟩
    obtain ⟨a, i, j, datatype, c, hattribute, -, harrow⟩ := hk
    exact ⟨⟨a, i, j, datatype, c, harrow, hattribute, fun s hs => keeps_of_declares hd (.attributeOf hattribute hs)⟩,
      _, hkeys, hmem, keeps_of_declares hd (.primaryKeyOf hkeys)⟩

/-- A class whose only key attribute has the second place, beside a diamond without a readable label. -/
def gappedKey : Diagram where
  elements :=
    [("c", .diamond ⟨"c", .int 0, .int 0, .int 30, .int 30, "Person (DC)"⟩),
     ("t", .rectangle ⟨"t", .int 90, .int 0, .int 30, .int 30, "xsd:string"⟩),
     ("a", .arrow ⟨"a", .int 30, .int 0, .int 90, .int 0, "name (1..1 PK2)", some "c", some "t"⟩),
     ("u", .diamond ⟨"u", .int 0, .int 90, .int 30, .int 30, "(DC)"⟩)]
  domain := "p"
  declared := some [("p", "http://p/"), ("rdf", "http://rdf/"), ("xsd", "http://xsd/"), ("upper", "http://upper/")]

theorem isKeyed_gappedKey : gappedKey.elements.IsKeyed := by
  have hid : ∀ p ∈ gappedKey.elements, p.2.id = p.1 := by decide
  exact ⟨by decide, fun id e he => hid (id, e) he⟩

/-- The unreadable diamond can be deleted. The arrow with the second place says what it is, and is in the key. -/
theorem statements_without_unreadable :
    (generate gappedKey).classification.lookup ("u" : Text) = some .invalid ∧
      (generate gappedKey).classification.lookup ("a" : Text) = some .invalid ∧
      (∀ s, s ∈ (generate (gappedKey.without "u")).statements ↔ s ∈ (generate gappedKey).statements) ∧
      ⟨"p:name", Vocabulary.type, .name Vocabulary.attributeType⟩ ∈ (generate gappedKey).statements ∧
      ⟨"p:Person", Vocabulary.primaryKey, .list ["p:name"]⟩ ∈ (generate gappedKey).statements := by
  have hu : (generate gappedKey).classification.lookup ("u" : Text) = some .invalid := by decide +kernel
  have ha : (generate gappedKey).classification.lookup ("a" : Text) = some .invalid := by decide +kernel
  have harrows : ∀ k ∈ gappedKey.keyParts, k.arrow ≠ "u" := by decide +kernel
  have hmem : (⟨"p:Person", 2, "p:name", "a"⟩ : KeyPart) ∈ gappedKey.keyParts := by decide +kernel
  have hlist : (keyOf "p:Person" gappedKey.keyParts).map (·.attributeName) = (["p:name"] : List Text) := by
    decide +kernel
  have hsafe := (statements_without_invalid isKeyed_gappedKey hu).1
    (fun k hk => harrows k ((mem_keyParts_iff isKeyed_gappedKey).mpr hk))
    (fun n hn => by simp [gappedKey] at hn)
  obtain ⟨⟨_, _, _, _, _, -, -, hdescribed⟩, keys, hkeys, -, hlisted⟩ :=
    (statements_without_invalid isKeyed_gappedKey ha).2 _ ((mem_keyParts_iff isKeyed_gappedKey).mp hmem) rfl
  obtain ⟨rfl, -⟩ := (isKeyOf_iff isKeyed_gappedKey).mp hkeys
  have hname : gappedKey.Keeps ⟨"p:name", Vocabulary.type, .name Vocabulary.attributeType⟩ := hdescribed _ .kind
  refine ⟨hu, ha, hsafe, hname.mpr ?_, (hlist ▸ hlisted : gappedKey.Keeps _).mpr ?_⟩
  · rintro _ ⟨⟩
    decide +kernel
  · rintro _ ⟨⟩
    decide +kernel

/-- A note that is the object of one statement and, with the same text, no subject of another. -/
def sharedNote : Diagram where
  elements :=
    [("s", .note ⟨"s", .int 0, .int 0, "p:s"⟩), ("n", .note ⟨"n", .int 90, .int 0, "\"text\""⟩),
     ("o", .note ⟨"o", .int 180, .int 0, "p:o"⟩),
     ("a", .arrow ⟨"a", .int 0, .int 0, .int 90, .int 0, "p:says", some "s", some "n"⟩),
     ("b", .arrow ⟨"b", .int 90, .int 0, .int 180, .int 0, "p:says", some "n", some "o"⟩)]
  domain := "p"
  declared := some [("p", "http://p/")]

/-- Both diagrams are accepted by the schema, both have an element that is invalid, and with the element
goes a statement. -/
theorem invalid_elements_contribute :
    (Schema.elements (.obj (gappedKey.elements.map fun (id, e) => (id, e.toJson))) = .ok gappedKey.elements ∧
      (generate gappedKey).classification.lookup ("a" : Text) = some .invalid ∧
      ¬ ∀ s, s ∈ (generate (gappedKey.without "a")).statements ↔ s ∈ (generate gappedKey).statements) ∧
    Schema.elements (.obj (sharedNote.elements.map fun (id, e) => (id, e.toJson))) = .ok sharedNote.elements ∧
      (generate sharedNote).classification.lookup ("n" : Text) = some .invalid ∧
      ¬ ∀ s, s ∈ (generate (sharedNote.without "n")).statements ↔ s ∈ (generate sharedNote).statements := by
  have hkey : (⟨"p:Person", Vocabulary.primaryKey, .list ["p:name"]⟩ : Statement) ∈
      (generate gappedKey).statements := by
    decide +kernel
  have hkey' : (⟨"p:Person", Vocabulary.primaryKey, .list ["p:name"]⟩ : Statement) ∉
      (generate (gappedKey.without "a")).statements := by
    decide +kernel
  have hsaid : (⟨"p:s", "p:says", .literal ⟨"text", none, none⟩⟩ : Statement) ∈
      (generate sharedNote).statements := by
    decide +kernel
  have hsaid' : (⟨"p:s", "p:says", .literal ⟨"text", none, none⟩⟩ : Statement) ∉
      (generate (sharedNote.without "n")).statements := by
    decide +kernel
  exact ⟨⟨by decide +kernel, by decide +kernel, fun h => hkey' ((h _).mpr hkey)⟩,
    by decide +kernel, by decide +kernel, fun h => hsaid' ((h _).mpr hsaid)⟩

end Ontogram.Diagram

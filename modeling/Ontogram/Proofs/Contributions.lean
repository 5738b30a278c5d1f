/-
What one element of a diagram contributes.

The passes read the elements one by one, with a table of classes that is built first. Against the rules:

* `resolves_of_lookup`, `lookup_of_resolves` — the table of classes holds the resolved diamonds;
* `mem_diamondPart_iff`, `mem_treePart_iff` — the statements of a diamond and of a tree;
* `arrowPart_yields` — whatever an arrow contributes follows a rule;
* `arrowPart_of_isAttribute` and its like — whatever a rule grants an arrow is contributed.

That a contribution follows a rule needs only that elements stand under their own ids; the other direction
needs that no id stands twice.
-/
import Mathlib.Data.List.Nodup
import Ontogram.Proofs.TextOrder
import Ontogram.Proofs.Rules
namespace Ontogram.Diagram

variable {d : Diagram}

/-! ### The table of classes -/

/-- What the table of classes is built from. -/
def classPair (p : Text × Element) : Option (Text × ClassName) :=
  match p.2 with
  | .diamond s =>
    match d.readDiamond s.text with
    | .declares name => some (s.id, name)
    | _ => none
  | _ => none

theorem classPair_eq_some_iff {id : Text} {e : Element} {key : Text} {c : ClassName} :
    d.classPair (id, e) = some (key, c) ↔
      ∃ s, e = .diamond s ∧ s.id = key ∧ d.readDiamond s.text = .declares c := by
  cases e with
  | diamond s => cases hr : d.readDiamond s.text <;> simp [classPair, hr]
  | _ => simp [classPair]

theorem lookup_classNames (id : Text) :
    d.classNames.lookup id = (d.elements.filterMap d.classPair).reverse.lookup id := by
  rw [classNames, Assoc.lookup_ofPairs]
  refine congrArg (fun pairs : Assoc ClassName => pairs.reverse.lookup id) ?_
  refine List.filterMap_congr fun p _ => ?_
  obtain ⟨_, e⟩ := p
  cases e with
  | diamond s => cases h : d.readDiamond s.text <;> simp only [classPair, h]
  | _ => rfl

theorem resolves_of_lookup (hid : ∀ id e, (id, e) ∈ d.elements → e.id = id) {id : Text}
    {c : ClassName} (h : d.classNames.lookup id = some c) : d.Resolves id c := by
  rw [lookup_classNames] at h
  obtain ⟨⟨key, e⟩, he, hpair⟩ := List.mem_filterMap.mp (List.mem_reverse.mp (Assoc.mem_of_lookup h))
  obtain ⟨s, rfl, rfl, hread⟩ := classPair_eq_some_iff.mp hpair
  obtain rfl : s.id = key := hid _ _ he
  obtain ⟨label, hlabel⟩ := readDiamond_eq_declares_iff.mp hread
  exact ⟨s, label, he, hlabel⟩

theorem lookup_of_resolves (hk : d.elements.IsKeyed) {id : Text} {c : ClassName}
    (h : d.Resolves id c) : d.classNames.lookup id = some c := by
  obtain ⟨s, label, hs, hlabel⟩ := h
  have hread := readDiamond_eq_declares_iff.mpr ⟨label, hlabel⟩
  have hpair : d.classPair (id, .diamond s) = some (id, c) :=
    classPair_eq_some_iff.mpr ⟨s, rfl, hk.id_eq _ _ hs, hread⟩
  have hkeys : (Assoc.keys (d.elements.filterMap d.classPair).reverse).Nodup := by
    rw [Assoc.keys, List.map_reverse, List.nodup_reverse, List.Nodup, List.pairwise_map,
      List.pairwise_filterMap]
    have hnodup := hk.nodup
    rw [Assoc.keys, List.Nodup, List.pairwise_map] at hnodup
    -- a pair of the table has the key of the entry that it comes from
    refine hnodup.imp_of_mem fun {p q} hp hq hne => ?_
    rintro ⟨_, c₁⟩ h₁ ⟨_, c₂⟩ h₂
    obtain ⟨s₁, hs₁, rfl, -⟩ := classPair_eq_some_iff.mp h₁
    obtain ⟨s₂, hs₂, rfl, -⟩ := classPair_eq_some_iff.mp h₂
    have h₁' : s₁.id = p.1 := by simpa [hs₁, Element.id] using hk.id_eq _ _ hp
    have h₂' : s₂.id = q.1 := by simpa [hs₂, Element.id] using hk.id_eq _ _ hq
    simpa [h₁', h₂'] using hne
  rw [lookup_classNames]
  exact Assoc.lookup_of_mem hkeys
    (List.mem_reverse.mpr (List.mem_filterMap.mpr ⟨_, hs, hpair⟩))

/-! ### What an arrow contributes -/

theorem mem_describes_iff {kind link subject name object : Text} {c : Cardinality} {s : Statement} :
    s ∈ ⟨name, Vocabulary.type, .name kind⟩ :: ⟨name, link, .name object⟩ ::
        (cardinalityStatements name c ++ [⟨subject, Vocabulary.property, .name name⟩]) ↔
      Describes kind link subject name object c s := by
  rw [List.mem_cons, List.mem_cons, List.mem_append, List.mem_singleton, mem_cardinalityStatements]
  constructor
  · rintro (rfl | rfl | (⟨n, hmin, rfl⟩ | ⟨m, n, hmin, hmax, rfl⟩) | rfl)
    · exact .kind
    · exact .link
    · exact .min hmin
    · exact .max hmin hmax
    · exact .property
  · rintro (_ | _ | _ | hmin | ⟨hmin, hmax⟩)
    · exact .inl rfl
    · exact .inr (.inl rfl)
    · exact .inr (.inr (.inr rfl))
    · exact .inr (.inr (.inl (.inl ⟨_, hmin, rfl⟩)))
    · exact .inr (.inr (.inl (.inr ⟨_, _, hmin, hmax, rfl⟩)))

section Between

variable {classes : Assoc ClassName} {a : Arrow} {s : Shape} {c : ClassName}

theorem betweenPart_notes (s t : Note) :
    d.betweenPart classes a (.note s) (.note t) = d.spelledPart a s t := rfl

theorem betweenPart_rectangle (h : classes.lookup s.id = some c) (t : Shape) :
    d.betweenPart classes a (.diamond s) (.rectangle t) = d.attributePart a s.id c.name t := by
  unfold betweenPart
  simp only [h]

theorem betweenPart_diamond (h : classes.lookup s.id = some c) {t : Shape} {object : ClassName}
    (hobject : classes.lookup t.id = some object) :
    d.betweenPart classes a (.diamond s) (.diamond t) =
      d.relationshipPart a s.id c.name t.id object.name := by
  unfold betweenPart
  simp only [h, hobject]

theorem betweenPart_note (h : classes.lookup s.id = some c) (t : Note) :
    d.betweenPart classes a (.diamond s) (.note t) = annotationPart a s.id c.name t := by
  unfold betweenPart
  simp only [h]

end Between

/-- The key part of an attribute, if it has a position. -/
def keyPartsOf (a : Arrow) (subject name : Text) (c : Cardinality) : List KeyPart :=
  c.key.toList.map fun k => ⟨subject, k, name, a.id⟩

/-- What an arrow between the elements of a diagram can contribute. -/
inductive Yields (d : Diagram) (a : Arrow) : Contribution → Prop
  | attributeOf {i j subject name datatype : Text} {c : Cardinality} {C : Contribution}
      (h : d.IsAttribute a i j subject name datatype c)
      (statements : ∀ s ∈ C.statements,
        Describes Vocabulary.attributeType Vocabulary.datatype subject name datatype c s)
      (keys : C.keys = keyPartsOf a subject name c) : Yields d a C
  | relationshipOf {i j subject name object : Text} {c : Cardinality} {C : Contribution}
      (h : d.IsRelationship a i j subject name object c)
      (statements : ∀ s ∈ C.statements,
        Describes Vocabulary.relationshipType Vocabulary.targetClass subject name object c s)
      (keys : C.keys = []) : Yields d a C
  | annotationOf {i j subject value : Text} {label : NoteLabel} {C : Contribution}
      (h : d.IsAnnotation a i j subject value label)
      (statements : C.statements =
        [⟨subject, label.predicate, .literal ⟨value, none, some label.language⟩⟩])
      (keys : C.keys = []) : Yields d a C
  | spelledOut {i j subject predicate : Text} {object : Term} {C : Contribution}
      (h : d.SpellsOut a i j subject predicate object)
      (statements : C.statements = [⟨subject, predicate, object⟩]) (keys : C.keys = []) : Yields d a C
  | nothing {C : Contribution} (statements : C.statements = []) (keys : C.keys = []) : Yields d a C

section Yields

variable {a : Arrow} {i j subject : Text} (hc : d.Connects a i j)

include hc

theorem attributePart_yields {kind : ClassKind} {t : Shape} (hres : d.Resolves i ⟨subject, kind⟩)
    (ht : (j, .rectangle t) ∈ d.elements) : d.Yields a (d.attributePart a i subject t) := by
  unfold attributePart
  split
  · rename_i name c datatype hname htype
    have h : d.IsAttribute a i j subject name datatype c :=
      { hc with
        resolved := ⟨kind, hres⟩
        typed := ⟨t, ht, datatype_eq_some_iff.mp htype⟩
        named := property_eq_some_iff.mp hname }
    exact .attributeOf h (fun s hs => mem_describes_iff.mp hs) rfl
  · exact .nothing rfl rfl

theorem relationshipPart_yields {kind kind' : ClassKind} {object : Text}
    (hres : d.Resolves i ⟨subject, kind⟩) (hobj : d.Resolves j ⟨object, kind'⟩) :
    d.Yields a (d.relationshipPart a i subject j object) := by
  unfold relationshipPart
  split
  · rename_i name c hname
    obtain ⟨hname, hkeyless⟩ := Option.filter_eq_some_iff.mp hname
    have h : d.IsRelationship a i j subject name object c :=
      { hc with
        resolved := ⟨kind, hres⟩
        targeted := ⟨kind', hobj⟩
        named := property_eq_some_iff.mp hname
        keyless := Option.isNone_iff_eq_none.mp hkeyless }
    exact .relationshipOf h (fun s hs => mem_describes_iff.mp hs) rfl
  · exact .nothing rfl rfl

theorem annotationPart_yields {kind : ClassKind} {t : Note} (hres : d.Resolves i ⟨subject, kind⟩)
    (ht : (j, .note t) ∈ d.elements) : d.Yields a (annotationPart a i subject t) := by
  unfold annotationPart
  split
  · exact .nothing rfl rfl
  · rename_i label hlabel
    split
    · exact .nothing rfl rfl
    · rename_i hempty
      have h : d.IsAnnotation a i j subject t.text label :=
        { hc with
          resolved := ⟨kind, hres⟩
          note := ⟨t, ht, rfl⟩
          nonempty := by simpa using hempty
          labelled := hlabel }
      exact .annotationOf h rfl rfl

theorem spelledPart_yields {s t : Note} (hs : (i, .note s) ∈ d.elements)
    (ht : (j, .note t) ∈ d.elements) : d.Yields a (d.spelledPart a s t) := by
  unfold spelledPart
  split
  · rename_i subject predicate object hsubject hpredicate hobject
    have h : d.SpellsOut a i j subject predicate object :=
      { hc with
        subject := ⟨s, hs, hsubject⟩
        predicate := hpredicate
        object := ⟨t, ht, noteObject_eq_some_iff.mp hobject⟩ }
    exact .spelledOut h rfl rfl
  · exact .nothing rfl rfl

theorem betweenPart_yields (hid : ∀ id e, (id, e) ∈ d.elements → e.id = id) {source target : Element}
    (hs : (i, source) ∈ d.elements) (ht : (j, target) ∈ d.elements) :
    d.Yields a (d.betweenPart d.classNames a source target) := by
  have hi := hid _ _ hs
  have hj := hid _ _ ht
  -- only from a note and from a class does an arrow contribute anything
  cases source with
  | note s =>
    cases target with
    | note t => exact betweenPart_notes s t ▸ spelledPart_yields hc hs ht
    | _ => exact .nothing rfl rfl
  | diamond s =>
    obtain rfl : s.id = i := hi
    cases hclass : d.classNames.lookup s.id with
    | none =>
      unfold betweenPart
      simp only [hclass]
      exact .nothing rfl rfl
    | some c =>
      have hres := resolves_of_lookup hid hclass
      cases target with
      | rectangle t => exact betweenPart_rectangle hclass t ▸ attributePart_yields hc hres ht
      | diamond t =>
        obtain rfl : t.id = j := hj
        cases hobject : d.classNames.lookup t.id with
        | none =>
          unfold betweenPart
          simp only [hclass, hobject]
          exact .nothing rfl rfl
        | some object =>
          rw [betweenPart_diamond hclass hobject]
          exact relationshipPart_yields hc hres (resolves_of_lookup hid hobject)
      | note t => exact betweenPart_note hclass t ▸ annotationPart_yields hc hres ht
      | _ =>
        unfold betweenPart
        simp only [hclass]
        exact .nothing rfl rfl
  | _ => exact .nothing rfl rfl

end Yields

theorem arrowPart_yields (hid : ∀ id e, (id, e) ∈ d.elements → e.id = id) {a : Arrow}
    (ha : (a.id, .arrow a) ∈ d.elements) : d.Yields a (d.arrowPart d.classNames a) := by
  unfold arrowPart
  split
  · rename_i source target hsource htarget
    obtain ⟨i, hi, hsource⟩ := Option.bind_eq_some_iff.mp hsource
    obtain ⟨j, hj, htarget⟩ := Option.bind_eq_some_iff.mp htarget
    exact betweenPart_yields ⟨ha, hi, hj⟩ hid (Assoc.mem_of_lookup hsource)
      (Assoc.mem_of_lookup htarget)
  · exact .nothing rfl rfl

/-! ### What a rule grants an arrow -/

section Granted

variable (hk : d.elements.IsKeyed) {a : Arrow} {i j subject : Text}

include hk

theorem arrowPart_eq (hc : d.Connects a i j) {source target : Element} (hs : (i, source) ∈ d.elements)
    (ht : (j, target) ∈ d.elements) :
    d.arrowPart d.classNames a = d.betweenPart d.classNames a source target := by
  have hsource := Assoc.lookup_of_mem hk.nodup hs
  have htarget := Assoc.lookup_of_mem hk.nodup ht
  simp only [arrowPart, hc.source, hc.target, Option.bind_some, hsource, htarget]

theorem diamond_of_resolves {c : ClassName} (h : d.Resolves i c) :
    ∃ s, (i, .diamond s) ∈ d.elements ∧ s.id = i ∧ d.classNames.lookup s.id = some c := by
  have hlookup := lookup_of_resolves hk h
  obtain ⟨s, -, hs, -⟩ := h
  obtain rfl : s.id = i := hk.id_eq _ _ hs
  exact ⟨s, hs, rfl, hlookup⟩

theorem arrowPart_of_isAttribute {name datatype : Text} {c : Cardinality}
    (h : d.IsAttribute a i j subject name datatype c) :
    (∀ s, Describes Vocabulary.attributeType Vocabulary.datatype subject name datatype c s →
      s ∈ (d.arrowPart d.classNames a).statements) ∧
    (d.arrowPart d.classNames a).keys = keyPartsOf a subject name c := by
  obtain ⟨kind, hres⟩ := h.resolved
  obtain ⟨t, ht, htype⟩ := h.typed
  obtain ⟨s, hs, -, hlookup⟩ := diamond_of_resolves hk hres
  have hname := property_eq_some_iff.mpr h.named
  have hdatatype := datatype_eq_some_iff.mpr htype
  rw [arrowPart_eq hk h.toConnects hs ht, betweenPart_rectangle hlookup]
  unfold attributePart
  simp only [hname, hdatatype]
  exact ⟨fun s hs => mem_describes_iff.mpr hs, rfl⟩

theorem arrowPart_of_isRelationship {name object : Text} {c : Cardinality}
    (h : d.IsRelationship a i j subject name object c) {s : Statement}
    (hs : Describes Vocabulary.relationshipType Vocabulary.targetClass subject name object c s) :
    s ∈ (d.arrowPart d.classNames a).statements := by
  obtain ⟨kind, hres⟩ := h.resolved
  obtain ⟨kind', hobject⟩ := h.targeted
  obtain ⟨source, hsource, -, hlookup⟩ := diamond_of_resolves hk hres
  obtain ⟨target, htarget, -, hlookup'⟩ := diamond_of_resolves hk hobject
  have hname : (d.property a.text).filter (fun p => p.2.key.isNone) = some (name, c) :=
    Option.filter_eq_some_iff.mpr ⟨property_eq_some_iff.mpr h.named, by simp [h.keyless]⟩
  rw [arrowPart_eq hk h.toConnects hsource htarget, betweenPart_diamond hlookup hlookup']
  unfold relationshipPart
  simp only [hname]
  exact mem_describes_iff.mpr hs

theorem arrowPart_of_isAnnotation {value : Text} {label : NoteLabel}
    (h : d.IsAnnotation a i j subject value label) :
    ⟨subject, label.predicate, .literal ⟨value, none, some label.language⟩⟩ ∈
      (d.arrowPart d.classNames a).statements := by
  obtain ⟨kind, hres⟩ := h.resolved
  obtain ⟨t, ht, rfl⟩ := h.note
  obtain ⟨s, hs, -, hlookup⟩ := diamond_of_resolves hk hres
  rw [arrowPart_eq hk h.toConnects hs ht, betweenPart_note hlookup]
  unfold annotationPart
  simp [h.labelled, h.nonempty]

theorem arrowPart_of_spellsOut {predicate : Text} {object : Term}
    (h : d.SpellsOut a i j subject predicate object) :
    ⟨subject, predicate, object⟩ ∈ (d.arrowPart d.classNames a).statements := by
  obtain ⟨s, hs, hsubject⟩ := h.subject
  obtain ⟨t, ht, hobject⟩ := h.object
  rw [arrowPart_eq hk h.toConnects hs ht, betweenPart_notes]
  unfold spelledPart
  simp [hsubject, h.predicate, noteObject_eq_some_iff.mpr hobject]

end Granted

/-! ### What diamonds and trees contribute -/

theorem mem_diamondPart_iff {sh : Shape} {s : Statement} :
    s ∈ (d.diamondPart sh).statements ↔
      ∃ c, d.readDiamond sh.text = .declares c ∧
        s = ⟨c.name, Vocabulary.type, .name c.kind.className⟩ := by
  unfold diamondPart
  cases d.readDiamond sh.text <;> simp

theorem diamondPart_keys (sh : Shape) : (d.diamondPart sh).keys = [] := by
  unfold diamondPart
  cases d.readDiamond sh.text <;> rfl

theorem mem_treePart_iff {classes : Assoc ClassName} {t : Tree} {s : Statement} :
    s ∈ (treePart classes t).statements ↔
      ∃ root values, classes.lookup t.root = some ⟨root, .enumeration⟩ ∧
        enumValues classes t = some values ∧ values ≠ [] ∧
        s = ⟨root, Vocabulary.oneOf, .list values⟩ := by
  unfold treePart
  cases classes.lookup t.root with
  | none => simp
  | some root =>
    obtain ⟨name, kind⟩ := root
    cases kind with
    | enumeration =>
      cases enumValues classes t with
      | none => simp
      | some values => cases values <;> simp
    | _ => simp

theorem treePart_keys (classes : Assoc ClassName) (t : Tree) : (treePart classes t).keys = [] := by
  unfold treePart
  split
  · rfl
  · split
    · rfl
    · split <;> rfl
    · rfl

end Ontogram.Diagram

/-
What is known of a document that was accepted.

A compilation keeps what its document was checked for, and every name in it was made by putting a label and
a local part together:

* `of_compile` — the three steps that a compilation has passed;
* `compile_rawDocument` — the compilation of a document that has no diagram;
* `id_eq_of_document` — each element of a checked document stands under its own id;
* `isQualified_of_mem_allStatements` — the names in derived statements are qualified;
* `Statement.IsCompacted` — a statement whose names were made from absolute identifiers;
* `isCompacted_of_mem_parseRaw` — the statements written beside a diagram are such.
-/
import Ontogram.Compilation
import Ontogram.Proofs.Derivation
import Ontogram.Proofs.FieldReading
import Ontogram.Proofs.LanguageTag
import Ontogram.Proofs.NameExpansion
namespace Ontogram

open Traversal (bind_eq_ok_iff mapError_eq_ok_iff mapM_eq_ok_iff)
open Name (IsQualified isQualified_of_resolve)

/-! ### Checked documents -/

theorem id_eq_of_document {v : Json} {d : Document} (h : Schema.document v = .ok d) :
    ∀ id e, (id, e) ∈ d.elements → e.id = id := by
  cases v with
  | obj fields =>
    obtain ⟨-, -, -, ⟨_, -, helements⟩, -⟩ := Schema.document_obj_eq_ok_iff.mp h
    obtain ⟨entries, -, hentries, -⟩ := Schema.elements_eq_ok_iff.mp helements
    intro id e he
    obtain ⟨_, -, hspells⟩ := Traversal.exists_of_mem_right (Schema.elementEntries_eq_ok_iff.mp hentries) he
    exact hspells.id.trans hspells.key.symm
  | _ => cases h

/-- A compilation holds its checked document, what that declares and what is written beside it. -/
theorem of_compile {v : Json} {c : Compilation} (h : compile v = .ok c) :
    Schema.document v.sortKeys = .ok c.document ∧
      c.generated = (generate ⟨c.document.elements, c.document.domain,
        some c.document.namespaces⟩).statements ∧
      NTriples.parseRaw c.document.namespaces c.document.rawStatements = .ok c.raw := by
  obtain ⟨canonical, -, h⟩ := bind_eq_ok_iff.mp h
  obtain ⟨d, hd, h⟩ := bind_eq_ok_iff.mp h
  unfold Compilation.ofDocument at h
  split at h
  · rename_i raw hraw
    cases h
    exact ⟨mapError_eq_ok_iff.mp hd, rfl, hraw⟩
  · cases h

/-- The fields of a document, in order of their keys. -/
def documentFields (domain elements prefixes raw : Json) : Assoc Json :=
  [("domain", domain), ("elements", elements), ("prefixes", prefixes), ("rawStatements", raw)]

/-- A document of one namespace without a diagram. -/
def rawDocument (label ns raw : Text) : Json :=
  .obj (documentFields (.str "") (.obj []) (.obj [(label, .str ns)]) (.str raw))

theorem sortFields_documentFields (domain elements prefixes raw : Json) :
    Json.sortFields (documentFields domain elements prefixes raw) = documentFields domain elements prefixes raw := by
  have hkeys : (["domain", "elements", "prefixes", "rawStatements"] : List Text).Pairwise fun k l =>
      decide (k ≤ l) = true := by
    decide
  have hfields : (Assoc.keys (documentFields domain elements prefixes raw)).Pairwise fun k l =>
      decide (k ≤ l) = true := hkeys
  exact List.mergeSort_of_pairwise (List.pairwise_map.mp hfields)

theorem sortKeys_rawDocument (label ns raw : Text) :
    (rawDocument label ns raw).sortKeys = rawDocument label ns raw := by
  have hempty : Json.sortFields ([] : Assoc Json) = [] := List.mergeSort_nil
  have hsingleton : Json.sortFields [(label, Json.str ns)] = [(label, .str ns)] := List.mergeSort_singleton _
  have hfields : Json.sortKeysFields (documentFields (.str "") (.obj []) (.obj [(label, .str ns)]) (.str raw)) =
      documentFields (.str "") (.obj []) (.obj [(label, .str ns)]) (.str raw) := by
    simp only [documentFields, Json.sortKeysFields, Json.sortKeys, hempty, hsingleton]
  rw [rawDocument, Json.sortKeys, hfields, sortFields_documentFields]

theorem document_rawDocument (label ns raw : Text) :
    Schema.document (rawDocument label ns raw) = .ok ⟨[(label, ns)], "", [], raw⟩ := by
  have hrequired (domain elements prefixes raw : Json) : Schema.requireAll "document" Schema.documentKeys
      (documentFields domain elements prefixes raw) = .ok () := rfl
  have hextra (domain elements prefixes raw : Json) :
      Schema.extraKey? Schema.documentKeys (documentFields domain elements prefixes raw) = none := by
    have hnone : (Assoc.keys (documentFields domain elements prefixes raw)).filter
        (fun key => !Schema.documentKeys.contains key) = [] := rfl
    rw [Schema.extraKey?, hnone, List.mergeSort_nil, List.head?_nil]
  rw [rawDocument, Schema.document, hrequired, hextra]
  rfl

/-- Such a document is accepted with the statements that are written in it. -/
theorem compile_rawDocument {label ns raw : Text} {statements : List Statement}
    (h : NTriples.parseRaw [(label, ns)] raw = .ok statements) :
    compile (rawDocument label ns raw) =
      .ok ⟨(rawDocument label ns raw).canonical, ⟨[(label, ns)], "", [], raw⟩, [], statements, []⟩ := by
  have hdocument := document_rawDocument label ns raw
  have hcanonical : Document.canonicalize (rawDocument label ns raw) =
      .ok (rawDocument label ns raw).canonical :=
    bind_eq_ok_iff.mpr ⟨_, mapError_eq_ok_iff.mpr hdocument, rfl⟩
  refine bind_eq_ok_iff.mpr ⟨_, mapError_eq_ok_iff.mpr hcanonical, bind_eq_ok_iff.mpr ⟨_,
    mapError_eq_ok_iff.mpr ((sortKeys_rawDocument label ns raw).symm ▸ hdocument), ?_⟩⟩
  simp only [Compilation.ofDocument, h]
  rfl

/-! ### Qualified statements -/

namespace Statement

theorem mem_sort {statements : List Statement} {s : Statement} : s ∈ sort statements ↔ s ∈ statements :=
  (List.mergeSort_perm _ _).mem_iff

/-- All names of the statement are qualified. -/
def IsQualified (s : Statement) : Prop := ∀ n ∈ s.names, Name.IsQualified n

variable {subject predicate : Text} (hs : Name.IsQualified subject) (hp : Name.IsQualified predicate)

include hs hp

theorem isQualified_name {n : Text} (hn : Name.IsQualified n) :
    IsQualified ⟨subject, predicate, .name n⟩ := by
  rintro m (_ | ⟨_, _ | ⟨_, hm⟩⟩)
  · exact hs
  · exact hp
  · rw [List.mem_singleton.mp hm]
    exact hn

theorem isQualified_literal {l : Literal}
    (hl : ∀ datatype, nonempty l.datatype = some datatype → Name.IsQualified datatype) :
    IsQualified ⟨subject, predicate, .literal l⟩ := by
  rintro m (_ | ⟨_, _ | ⟨_, hm⟩⟩)
  · exact hs
  · exact hp
  · exact hl m (Option.mem_toList.mp hm)

theorem isQualified_list {items : List Text} (hitems : ∀ n ∈ items, Name.IsQualified n) :
    IsQualified ⟨subject, predicate, .list items⟩ := by
  rintro m (_ | ⟨_, _ | ⟨_, hm⟩⟩)
  · exact hs
  · exact hp
  · exact hitems m hm

end Statement

theorem nonempty_eq_some {s : Option Text} {t : Text} (h : nonempty s = some t) : s = some t :=
  (Option.filter_eq_some_iff.mp h).1

theorem nonempty_of_ne {s : Text} (h : s ≠ "") : nonempty (some s) = some s := by
  simp [nonempty, Option.filter, h]

/-! ### Derived statements -/

namespace Diagram

open Statement (isQualified_name isQualified_literal isQualified_list)

variable {d : Diagram}

theorem isQualified_of_describes {kind link subject name object : Text} {c : Cardinality}
    {s : Statement} (h : Describes kind link subject name object c s) (hkind : IsQualified kind)
    (hlink : IsQualified link) (hsubject : IsQualified subject) (hname : IsQualified name)
    (hobject : IsQualified object) : s.IsQualified := by
  have hinteger : ∀ m datatype, nonempty (Literal.ofNat m).datatype = some datatype →
      IsQualified datatype := by
    intro m datatype h
    cases nonempty_eq_some h
    decide
  cases h with
  | kind => exact isQualified_name hname (by decide) hkind
  | link => exact isQualified_name hname hlink hobject
  | property => exact isQualified_name hsubject (by decide) hname
  | min => exact isQualified_literal hname (by decide) (hinteger _)
  | max => exact isQualified_literal hname (by decide) (hinteger _)

theorem isQualified_of_resolves {id : Text} {c : ClassName} (h : d.Resolves id c) :
    IsQualified c.name := by
  obtain ⟨_, _, -, -, -, -, hname⟩ := h
  exact isQualified_of_resolve hname

theorem isQualified_of_spelledName {text name : Text} (h : d.spelledName text = some name) :
    IsQualified name := by
  unfold spelledName resolve at h
  exact isQualified_of_resolve h

theorem isQualified_of_isKeyPart {k : KeyPart} (h : d.IsKeyPart k) :
    IsQualified k.subject ∧ IsQualified k.attributeName := by
  obtain ⟨a, i, j, datatype, c, h, -, -⟩ := h
  obtain ⟨kind, hsubject⟩ := h.resolved
  obtain ⟨_, -, -, -, hname, -⟩ := h.named
  exact ⟨isQualified_of_resolves hsubject, isQualified_of_resolve hname⟩

theorem isQualified_noteLabel {text : Text} {label : NoteLabel}
    (h : NoteLabel.parse text = some label) : IsQualified label.predicate := by
  obtain ⟨-, hmem⟩ := Option.filter_eq_some_iff.mp h
  have hqualified : ∀ p ∈ NoteLabel.predicates, IsQualified p := by decide
  exact hqualified _ (List.contains_iff_mem.mp hmem)

/-- A rule declares statements with qualified names only. -/
theorem isQualified_of_declares {s : Statement} (h : d.Declares s) : s.IsQualified := by
  have hdomain : IsQualified (d.domain ++ ":") := by simp [IsQualified]
  cases h with
  | domainModel => exact isQualified_name hdomain (by decide) (by decide)
  | domainName => exact isQualified_literal hdomain (by decide) (by simp [nonempty])
  | @classOf _ c h =>
    have hkind : ∀ kind : ClassKind, IsQualified kind.className := by rintro (_ | _ | _ | _) <;> decide
    exact isQualified_name (isQualified_of_resolves h) (by decide) (hkind c.kind)
  | attributeOf h hs =>
    obtain ⟨kind, hsubject⟩ := h.resolved
    obtain ⟨t, -, _, -, -, hdatatype⟩ := h.typed
    obtain ⟨_, -, -, -, hname, -⟩ := h.named
    exact isQualified_of_describes hs (by decide) (by decide) (isQualified_of_resolves hsubject)
      (isQualified_of_resolve hname) (isQualified_of_resolve hdatatype)
  | relationshipOf h hs =>
    obtain ⟨kind, hsubject⟩ := h.resolved
    obtain ⟨kind', hobject⟩ := h.targeted
    obtain ⟨_, -, -, -, hname, -⟩ := h.named
    exact isQualified_of_describes hs (by decide) (by decide) (isQualified_of_resolves hsubject)
      (isQualified_of_resolve hname) (isQualified_of_resolves hobject)
  | annotationOf h =>
    obtain ⟨kind, hsubject⟩ := h.resolved
    exact isQualified_literal (isQualified_of_resolves hsubject) (isQualified_noteLabel h.labelled)
      (by simp [nonempty])
  | spelledOut h =>
    obtain ⟨_, -, hsubject⟩ := h.subject
    have hs := isQualified_of_spelledName hsubject
    have hp := isQualified_of_spelledName h.predicate
    obtain ⟨_, -, hobject⟩ := h.object
    cases hobject with
    | name _ hresolved => exact isQualified_name hs hp (isQualified_of_spelledName hresolved)
    | untyped _ _ => exact isQualified_literal hs hp (by simp [nonempty])
    | typed _ _ hresolved =>
      refine isQualified_literal hs hp fun datatype h => ?_
      cases nonempty_eq_some h
      exact isQualified_of_resolve hresolved
  | enumerationOf h =>
    refine isQualified_list (isQualified_of_resolves h.resolved) (by decide) fun n hn => ?_
    obtain ⟨item, -, -, hvalue⟩ := Traversal.exists_of_mem_right h.items hn
    exact isQualified_of_resolves hvalue
  | primaryKeyOf h =>
    obtain ⟨k, hk⟩ := List.exists_mem_of_ne_nil _ h.nonempty
    obtain ⟨hpart, rfl⟩ := (h.mem_iff k).mp hk
    refine isQualified_list (isQualified_of_isKeyPart hpart).1 (by decide) fun n hn => ?_
    obtain ⟨l, hl, rfl⟩ := List.mem_map.mp hn
    exact (isQualified_of_isKeyPart ((h.mem_iff l).mp hl).1).2

/-- A derived statement follows a rule or lists the key of a class. That the list is the right one needs
that no id stands twice. -/
theorem declares_or_keyList (hid : ∀ id e, (id, e) ∈ d.elements → e.id = id) {s : Statement}
    (h : s ∈ d.allStatements) :
    d.Declares s ∨ ∃ k ∈ d.keyParts, s = ⟨k.subject, Vocabulary.primaryKey,
      .list ((keyOf k.subject d.keyParts).map (·.attributeName))⟩ := by
  simp only [allStatements, List.mem_append, List.mem_flatMap, mem_domainStatements,
    mem_keyStatements] at h
  rcases h with (⟨hdomain, rfl | rfl⟩ | ⟨C, hC, hs⟩) | ⟨subject, hne, rfl⟩
  · exact .inl (.domainModel hdomain)
  · exact .inl (.domainName hdomain)
  · exact .inl (declares_of_mem_parts hid hC hs)
  · obtain ⟨k, hk⟩ := List.exists_mem_of_ne_nil _ hne
    obtain ⟨hmem, rfl⟩ := mem_keyOf.mp hk
    exact .inr ⟨k, hmem, rfl⟩

/-- The names of derived statements are qualified, if elements stand under their own ids. -/
theorem isQualified_of_mem_allStatements (hid : ∀ id e, (id, e) ∈ d.elements → e.id = id)
    {s : Statement} (h : s ∈ d.allStatements) : s.IsQualified := by
  have hparts : ∀ k ∈ d.keyParts, IsQualified k.subject ∧ IsQualified k.attributeName := fun k hk =>
    isQualified_of_isKeyPart (isKeyPart_of_mem_keyParts hid hk)
  rcases declares_or_keyList hid h with h | ⟨k, hk, rfl⟩
  · exact isQualified_of_declares h
  · refine isQualified_list (hparts k hk).1 (by decide) fun n hn => ?_
    obtain ⟨l, hl, rfl⟩ := List.mem_map.mp hn
    exact (hparts l (mem_keyOf.mp hl).1).2

end Diagram

/-! ### Statements written beside a diagram -/

/-- A statement about names that were made from absolute identifiers, in which a literal has a language or
a datatype or neither. -/
structure Statement.IsCompacted (declared : PrefixMap) (s : Statement) : Prop where
  names : ∀ n ∈ s.names, ∃ iri, Name.shorten declared iri = .ok n
  single : ∀ l, s.object = .literal l → l.language = none ∨ l.datatype = none
  noList : ∀ items, s.object ≠ .list items

theorem Statement.IsCompacted.isQualified {declared : PrefixMap} {s : Statement}
    (h : s.IsCompacted declared) : s.IsQualified := by
  intro n hn
  obtain ⟨iri, hiri⟩ := h.names n hn
  obtain ⟨l, _, r, -, -, -, rfl⟩ := Name.shorten_eq_ok hiri
  exact Name.isQualified_append l r

namespace NTriples

theorem isCompacted_of_mem_parseRaw {declared : PrefixMap} {text : Text} {raw : List Statement}
    (h : parseRaw declared text = .ok raw) {s : Statement} (hs : s ∈ raw) : s.IsCompacted declared := by
  obtain ⟨_, -, piece, -, t, hread, hstatement⟩ := mem_parseRaw h hs
  obtain ⟨_, _, _, _, _, -, -, -, -, hobject, -⟩ := readTriple_eq_ok hread
  obtain ⟨⟨u₁, -, hsubject⟩, ⟨u₂, -, hpredicate⟩, hterm⟩ := statementOf_eq_ok hstatement
  obtain ⟨subject, predicate, object⟩ := s
  rcases termOf_eq_ok hterm with ⟨u, n, -, hn, rfl⟩ | ⟨l, hnode, -, rfl⟩ | ⟨l, u, n, hnode, hl, hn, rfl⟩
  · refine ⟨?_, by simp, by simp⟩
    rintro m (_ | ⟨_, _ | ⟨_, hm⟩⟩)
    · exact ⟨u₁, hsubject⟩
    · exact ⟨u₂, hpredicate⟩
    · rw [List.mem_singleton.mp hm]
      exact ⟨u, hn⟩
  · refine ⟨?_, fun _ h => ?_, by simp⟩
    · rintro m (_ | ⟨_, _ | ⟨_, hm⟩⟩)
      · exact ⟨u₁, hsubject⟩
      · exact ⟨u₂, hpredicate⟩
      · cases hm
    · cases h
      exact .inr rfl
  · refine ⟨?_, fun _ h => ?_, by simp⟩
    · rintro m (_ | ⟨_, _ | ⟨_, hm⟩⟩)
      · exact ⟨u₁, hsubject⟩
      · exact ⟨u₂, hpredicate⟩
      · cases nonempty_eq_some (Option.mem_toList.mp hm)
        exact ⟨u, hn⟩
    · cases h
      rw [hnode] at hobject
      cases hlanguage : l.language with
      | none => exact .inl rfl
      | some tag =>
        have hnone := (language_of_readObject hobject tag hlanguage).2
        cases hnone.symm.trans (nonempty_eq_some hl)

end NTriples

/-! ### The statements of a compilation -/

/-- A derived statement of an accepted document has qualified names with declared labels. -/
theorem of_mem_generated {v : Json} {c : Compilation} (h : compile v = .ok c) {s : Statement}
    (hs : s ∈ c.generated) : s.IsQualified ∧ s.isDeclared c.document.namespaces = true := by
  obtain ⟨hdocument, hgenerated, -⟩ := of_compile h
  rw [hgenerated, generate, Diagram.mem_statements_iff] at hs
  exact ⟨Diagram.isQualified_of_mem_allStatements (id_eq_of_document hdocument) hs.1, hs.2 _ rfl⟩

theorem isCompacted_of_mem_raw {v : Json} {c : Compilation} (h : compile v = .ok c) {s : Statement}
    (hs : s ∈ c.raw) : s.IsCompacted c.document.namespaces :=
  NTriples.isCompacted_of_mem_parseRaw (of_compile h).2.2 hs

theorem Compilation.mem_statements_iff {c : Compilation} {s : Statement} :
    s ∈ c.statements ↔ s ∈ c.generated ∨ s ∈ c.raw := by
  rw [Compilation.statements, List.mem_eraseDups, List.mem_append]

end Ontogram

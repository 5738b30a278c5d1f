/-
Legible lines.

The line of a triple is legible if it is one line, if the reader takes its identifiers and values as they are
meant, and if the declared namespaces cover the identifiers. It is then read as a statement of that triple:

* `Triple.IsLegible`, `Statement.IsLegible` — the triples and statements with legible lines;
* `parseLine_spell` — a legible line is read as a statement of its triple;
* `denotes_of_statementOf` — conversely, a statement that was read denotes the triple of its line, if names
  expand back to what they were made from.
-/
import Ontogram.Proofs.Rereading
import Ontogram.Proofs.Tagging
namespace Ontogram

open NTriples (Node LiteralNode Triple)
open Traversal (bind_eq_ok_iff mapM_eq_ok_iff)

namespace NTriples

variable {declared : PrefixMap}

/-! ### Legible triples -/

/-- The declared namespaces make a name of the identifier that expands to it again. -/
def IsCoveredIri (declared : PrefixMap) (iri : Text) : Prop :=
  ∃ name, Name.shorten declared iri = .ok name ∧ Name.expand declared name = .ok iri

def Node.IsCovered (declared : PrefixMap) : Node → Prop
  | .iri u => IsCoveredIri declared u
  | .blank _ => False
  | .literal l => ∀ u ∈ l.datatype, IsCoveredIri declared u

structure Triple.IsCovered (declared : PrefixMap) (t : Triple) : Prop where
  subject : t.subject.IsCovered declared
  predicate : t.predicate.IsCovered declared
  object : t.object.IsCovered declared

/-- The line of the triple is one line, and each node in it is read and named as it is meant. -/
structure Triple.IsLegible (declared : PrefixMap) (t : Triple) : Prop where
  unbroken : t.subject.IsUnbroken ∧ t.predicate.IsUnbroken ∧ t.object.IsUnbroken
  readable : t.IsReadable
  covered : t.IsCovered declared

theorem Triple.isProper_of_denotes {s : Statement} {t : Triple} (h : s.Denotes declared t)
    (htagged : s.object.IsTagged) : t.IsProper := by
  obtain ⟨_, _, object⟩ := t
  obtain ⟨hsubject, hpredicate, hobject⟩ := h
  cases hsubject with
  | @name _ u₁ =>
    cases hpredicate with
    | @name _ u₂ => exact ⟨⟨u₁, rfl⟩, ⟨u₂, rfl⟩, Node.isProper_of_denotes hobject htagged⟩

/-- Without backslashes there is nothing to decode. -/
theorem isReadableIri_of_notMem {iri : Text} (hshape : IsIriText iri.toList) (h : .char '\\' ∉ iri.toList) :
    IsReadableIri iri :=
  ⟨hshape, decode_eq_ok_iff.mpr (unescapeChars_of_notMem h)⟩

theorem IsReadableIri.ne_empty {iri : Text} (h : IsReadableIri iri) : iri ≠ "" := by
  rintro rfl
  obtain ⟨_, _, -, -, -, hcs⟩ := h.shape
  simp at hcs

theorem ne_empty_of_shorten {iri name : Text} (h : Name.shorten declared iri = .ok name) :
    name ≠ "" := by
  obtain ⟨label, _, rest, -, -, -, rfl⟩ := Name.shorten_eq_ok h
  intro hempty
  have hcolon := Name.isQualified_append label rest
  simp [hempty, Name.IsQualified] at hcolon

/-! ### Reading a legible line -/

theorem nameOfNode_of_isCoveredIri (role : Role) {iri : Text} (h : IsCoveredIri declared iri) :
    ∃ name, nameOfNode declared role (.iri iri) = .ok name ∧
      Term.Denotes declared (.name name) (.iri iri) := by
  obtain ⟨name, hname, hiri⟩ := h
  exact ⟨name, nameOf_eq_ok_iff.mpr hname, .name hiri⟩

theorem termOf_of_isCovered (role : Role) {node : Node} (hread : node.IsReadable)
    (hcovered : node.IsCovered declared) (hproper : node.IsProper) :
    ∃ o, termOf declared role node = .ok o ∧ o.Denotes declared node := by
  cases node with
  | iri iri =>
    obtain ⟨name, hname, hiri⟩ := hcovered
    refine ⟨.name name, ?_, .name hiri⟩
    rw [termOf, nameOf_eq_ok_iff.mpr hname]
    rfl
  | blank _ => exact absurd hread id
  | literal l =>
    obtain ⟨value, datatype, language⟩ := l
    cases datatype with
    | none =>
      refine ⟨.literal ⟨value, none, language⟩, rfl, ?_⟩
      cases language with
      | none => exact .plain rfl rfl
      | some tag =>
        obtain ⟨htag, -⟩ := hproper tag rfl
        exact .tagged (nonempty_of_ne htag.ne_empty)
    | some iri =>
      obtain ⟨hiri, -⟩ := hread iri rfl
      obtain ⟨name, hname, hexpand⟩ := hcovered iri rfl
      obtain rfl : language = none := by
        cases language with
        | none => rfl
        | some tag => cases (hproper tag rfl).2
      refine ⟨.literal ⟨value, some name, none⟩, ?_,
        .typed rfl (nonempty_of_ne (ne_empty_of_shorten hname)) hexpand⟩
      simp only [termOf, nonempty_of_ne hiri.ne_empty, nameOf_eq_ok_iff.mpr hname]
      rfl

/-- A legible line is read as a statement of its triple. -/
theorem parseLine_spell {t : Triple} (hproper : t.IsProper) (h : t.IsLegible declared) :
    ∃ r, parseLine declared (Text.ofList (spell t)) = .ok r ∧ r.Denotes declared t := by
  have hread := readTriple_spell hproper h.readable
  have htriples : triples (spell t) = .ok [t] := by
    rw [triples, pieces_of_unbroken ((unbroken_spell hproper).mpr h.unbroken)]
    exact bind_eq_ok_iff.mpr ⟨_, mapM_eq_ok_iff.mpr (.cons hread .nil), rfl⟩
  obtain ⟨_, _, object⟩ := t
  obtain ⟨⟨u₁, rfl⟩, ⟨u₂, rfl⟩, hproper⟩ := hproper
  obtain ⟨name₁, hname₁, hdenotes₁⟩ := nameOfNode_of_isCoveredIri .subject h.covered.subject
  obtain ⟨name₂, hname₂, hdenotes₂⟩ := nameOfNode_of_isCoveredIri .predicate h.covered.predicate
  obtain ⟨o, ho, hdenotes₃⟩ := termOf_of_isCovered .object h.readable.object h.covered.object hproper
  refine ⟨⟨name₁, name₂, o⟩, ?_, ⟨hdenotes₁, hdenotes₂, hdenotes₃⟩⟩
  rw [parseLine_eq_ok_iff, Text.toList_ofList]
  exact ⟨_, htriples, bind_eq_ok_iff.mpr ⟨_, hname₁, bind_eq_ok_iff.mpr ⟨_, hname₂,
    bind_eq_ok_iff.mpr ⟨_, ho, rfl⟩⟩⟩⟩

/-! ### What a statement that was read denotes -/

section Expansion

variable (hexpand : ∀ iri name,
  Name.shorten declared iri = .ok name → Name.expand declared name = .ok iri)

include hexpand

theorem isCoveredIri_of_shorten {iri name : Text} (h : Name.shorten declared iri = .ok name) :
    IsCoveredIri declared iri :=
  ⟨name, h, hexpand iri name h⟩

theorem denotes_of_termOf {role : Role} {cs rest : List CodePoint} {node : Node} {o : Term}
    (hread : readObject cs = .ok (node, rest)) (h : termOf declared role node = .ok o) :
    o.Denotes declared node ∧ node.IsCovered declared := by
  have habsolute := isAbsolute_of_readObject hread
  rcases termOf_eq_ok h with ⟨iri, name, rfl, hname, rfl⟩ | ⟨l, rfl, hdatatype, rfl⟩ |
    ⟨l, iri, name, rfl, hdatatype, hname, rfl⟩
  · exact ⟨.name (hexpand iri name hname), isCoveredIri_of_shorten hexpand hname⟩
  · obtain ⟨value, datatype, language⟩ := l
    -- a datatype that was read has a colon, so it is not empty
    obtain rfl : datatype = none := by
      cases datatype with
      | none => rfl
      | some u =>
        have hcolon : .char ':' ∈ u.toList := habsolute u rfl
        rw [nonempty_of_ne (by rintro rfl; simp at hcolon)] at hdatatype
        cases hdatatype
    refine ⟨?_, by rintro _ ⟨⟩⟩
    cases language with
    | none => exact .plain rfl rfl
    | some tag => exact .tagged (nonempty_of_ne (language_of_readObject hread tag rfl).1.ne_empty)
  · obtain ⟨value, datatype, language⟩ := l
    obtain rfl : datatype = some iri := nonempty_eq_some hdatatype
    obtain rfl : language = none := by
      cases language with
      | none => rfl
      | some tag => cases (language_of_readObject hread tag rfl).2
    refine ⟨.typed rfl (nonempty_of_ne (ne_empty_of_shorten hname)) (hexpand iri name hname), ?_⟩
    rintro _ ⟨⟩
    exact isCoveredIri_of_shorten hexpand hname

theorem denotes_of_statementOf {piece : List CodePoint} {t : Triple} {r : Statement}
    (hread : readTriple piece = .ok (some t)) (h : statementOf declared t = .ok r) :
    r.Denotes declared t ∧ t.IsCovered declared := by
  obtain ⟨_, _, _, _, _, -, -, -, -, hobject, -⟩ := readTriple_eq_ok hread
  obtain ⟨⟨u₁, hu₁, hname₁⟩, ⟨u₂, hu₂, hname₂⟩, hterm⟩ := statementOf_eq_ok h
  obtain ⟨hdenotes, hcovered⟩ := denotes_of_termOf hexpand hobject hterm
  constructor
  · refine ⟨?_, ?_, hdenotes⟩
    · rw [hu₁]
      exact .name (hexpand _ _ hname₁)
    · rw [hu₂]
      exact .name (hexpand _ _ hname₂)
  · refine ⟨?_, ?_, hcovered⟩
    · rw [hu₁]
      exact isCoveredIri_of_shorten hexpand hname₁
    · rw [hu₂]
      exact isCoveredIri_of_shorten hexpand hname₂

end Expansion

end NTriples

/-- The names of the statement expand to those of a legible triple. -/
def Statement.IsLegible (declared : PrefixMap) (s : Statement) : Prop :=
  ∃ t, s.Denotes declared t ∧ t.IsLegible declared

end Ontogram

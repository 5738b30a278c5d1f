/-
When the views of a document render.

Either view fails only on a name whose label is not declared. The derived statements have none, but two
kinds of name are not looked at before a document is accepted: those of the statements written beside the
diagram, which are made from a label and taken apart at the first colon, and those that the flat view adds
for a list.

* `Turtle.write_isOk_iff`, `NTriples.write_isOk_iff` — each writer needs the labels of the names it shows;
* `views_render_iff` — the views of an accepted document render iff the names of its raw statements have
  declared labels and, for the flat view, the label of the list vocabulary is declared where it is needed;
* `views_render` — with no colon in a label and the list vocabulary declared, both views render.
-/
import Ontogram.Proofs.Acceptance
namespace Ontogram

open Traversal (bind_eq_ok_iff exists_bind_iff exists_bind_pure_iff)

/-! ### The grouped view -/

namespace Turtle

theorem declaredFor_isOk_iff {declared : PrefixMap} {labels : List Text} :
    (∃ namespaces, declaredFor declared labels = .ok namespaces) ↔
      ∀ l ∈ labels, Assoc.has declared l = true := by
  induction labels with
  | nil => simp [declaredFor]
  | cons l rest ih =>
    rw [declaredFor, List.forall_mem_cons, ← ih, Assoc.has]
    cases declared.lookup l with
    | none => simp
    | some ns =>
      rw [exists_bind_pure_iff]
      simp

theorem write_isOk_iff {declared : PrefixMap} {statements : List Statement} :
    (∃ text, write declared statements = .ok text) ↔
      ∀ s ∈ statements, ∀ n ∈ referencedNames s, Assoc.has declared (Name.label n) = true := by
  unfold write
  split
  · rename_i hempty
    rw [List.isEmpty_iff.mp hempty]
    simp [pure, Except.pure]
  · rw [exists_bind_pure_iff, declaredFor_isOk_iff]
    constructor
    · intro h s hs n hn
      refine h _ ?_
      rw [referencedLabels, (List.mergeSort_perm _ _).mem_iff, List.mem_eraseDups]
      exact List.mem_map_of_mem (List.mem_flatMap.mpr ⟨s, hs, hn⟩)
    · intro h l hl
      rw [referencedLabels, (List.mergeSort_perm _ _).mem_iff, List.mem_eraseDups] at hl
      obtain ⟨n, hn, rfl⟩ := List.mem_map.mp hl
      obtain ⟨s, hs, hn⟩ := List.mem_flatMap.mp hn
      exact h s hs n hn

end Turtle

/-! ### The flat view -/

namespace NTriples

theorem writeName_isOk_iff {declared : PrefixMap} {name : Text} (h : Name.IsQualified name) :
    (∃ text, writeName declared name = .ok text) ↔ Assoc.has declared (Name.label name) = true := by
  rw [writeName, exists_bind_pure_iff, Name.expand_isOk_iff declared h]

/-- The names that the flat form of an object shows. -/
def termNames : Term → List Text
  | .name n => [n]
  | .literal l => if (nonempty l.language).isNone then (nonempty l.datatype).toList else []
  | .list [] => [Vocabulary.nil]
  | .list items => Vocabulary.first :: Vocabulary.rest :: Vocabulary.nil :: items

/-- The names that the flat form of a statement shows. -/
def writtenNames (s : Statement) : List Text := s.subject :: s.predicate :: termNames s.object

theorem writeLiteral_isOk_iff {declared : PrefixMap} {l : Literal}
    (h : ∀ n ∈ nonempty l.datatype, Name.IsQualified n) :
    (∃ text, writeLiteral declared l = .ok text) ↔
      ∀ n ∈ termNames (.literal l), Assoc.has declared (Name.label n) = true := by
  unfold writeLiteral termNames
  cases hlanguage : nonempty l.language with
  | some language => simp [hlanguage]
  | none =>
    cases hdatatype : nonempty l.datatype with
    | none => simp [hdatatype]
    | some datatype =>
      simp only [exists_bind_pure_iff, writeName_isOk_iff (h datatype hdatatype)]
      simp [hlanguage, hdatatype]

/-- A chain of nodes needs the names of the list vocabulary besides those of its items. -/
theorem writeChain_isOk_iff {declared : PrefixMap} {chain i : Nat} {item : Text} {items : List Text}
    (h : ∀ n ∈ item :: items, Name.IsQualified n) :
    (∃ lines, writeChain declared chain i (item :: items) = .ok lines) ↔
      ∀ n ∈ termNames (.list (item :: items)), Assoc.has declared (Name.label n) = true := by
  have hfirst : Name.IsQualified Vocabulary.first := by decide
  have hrest : Name.IsQualified Vocabulary.rest := by decide
  have hnil : Name.IsQualified Vocabulary.nil := by decide
  induction items generalizing item i with
  | nil =>
    -- the last node leads to the empty list
    unfold writeChain
    rw [exists_bind_iff fun _ => exists_bind_iff fun _ => exists_bind_iff fun _ =>
      exists_bind_iff fun _ => exists_bind_pure_iff]
    simp only [writeName_isOk_iff, hfirst, hrest, hnil, h item List.mem_cons_self, termNames,
      List.forall_mem_cons]
    constructor
    · rintro ⟨hn, hf, hi, hr, -⟩
      exact ⟨hf, hr, hn, hi, fun _ h => absurd h List.not_mem_nil⟩
    · rintro ⟨hf, hr, hn, hi, -⟩
      exact ⟨hn, hf, hi, hr, [], rfl⟩
  | cons next rest ih =>
    -- an inner node leads to the next one, which has no name
    have ih := fun i => @ih i next fun n hn => h n (List.mem_cons_of_mem _ hn)
    unfold writeChain
    rw [exists_bind_iff fun _ => exists_bind_iff fun _ => exists_bind_iff fun _ =>
      exists_bind_iff fun _ => exists_bind_pure_iff.trans (ih _)]
    simp only [writeName_isOk_iff, hfirst, hrest, h item List.mem_cons_self, termNames,
      List.forall_mem_cons]
    constructor
    · rintro ⟨-, hf, hi, hr, -, -, hn, hitems⟩
      exact ⟨hf, hr, hn, hi, hitems⟩
    · rintro ⟨hf, hr, hn, hi, hitems⟩
      exact ⟨⟨_, rfl⟩, hf, hi, hr, hf, hr, hn, hitems⟩

theorem writeStatement_isOk_iff {declared : PrefixMap} {chain : Nat} {s : Statement}
    (h : s.IsQualified) :
    (∃ lines, writeStatement declared chain s = .ok lines) ↔
      ∀ n ∈ writtenNames s, Assoc.has declared (Name.label n) = true := by
  obtain ⟨subject, predicate, object⟩ := s
  have hs : Name.IsQualified subject := h _ List.mem_cons_self
  have hp : Name.IsQualified predicate := h _ (List.mem_cons_of_mem _ List.mem_cons_self)
  have ho : ∀ n ∈ object.names, Name.IsQualified n := fun n hn =>
    h n (List.mem_cons_of_mem _ (List.mem_cons_of_mem _ hn))
  rw [writtenNames, List.forall_mem_cons, List.forall_mem_cons, ← writeName_isOk_iff hs,
    ← writeName_isOk_iff hp]
  refine exists_bind_iff fun _ => exists_bind_iff fun _ => ?_
  cases object with
  | name n =>
    rw [exists_bind_pure_iff, writeName_isOk_iff (ho n (List.mem_singleton_self n))]
    simp [termNames]
  | literal l =>
    rw [exists_bind_pure_iff, writeLiteral_isOk_iff fun n hn => ho n (Option.mem_toList.mpr hn)]
  | list items =>
    cases items with
    | nil =>
      rw [exists_bind_pure_iff, writeName_isOk_iff (by decide)]
      simp [termNames]
    | cons item items => rw [exists_bind_pure_iff, writeChain_isOk_iff ho]

theorem writeFrom_isOk_iff {declared : PrefixMap} {chain : Nat} {statements : List Statement}
    (h : ∀ s ∈ statements, s.IsQualified) :
    (∃ lines, writeFrom declared chain statements = .ok lines) ↔
      ∀ s ∈ statements, ∀ n ∈ writtenNames s, Assoc.has declared (Name.label n) = true := by
  induction statements generalizing chain with
  | nil => simp [writeFrom]
  | cons s rest ih =>
    obtain ⟨hs, hrest⟩ := List.forall_mem_cons.mp h
    rw [List.forall_mem_cons, ← writeStatement_isOk_iff hs]
    exact exists_bind_iff fun _ => exists_bind_pure_iff.trans (ih hrest)

theorem write_isOk_iff {declared : PrefixMap} {statements : List Statement}
    (h : ∀ s ∈ statements, s.IsQualified) :
    (∃ text, write declared statements = .ok text) ↔
      ∀ s ∈ statements, ∀ n ∈ writtenNames s, Assoc.has declared (Name.label n) = true := by
  rw [write, exists_bind_pure_iff, writeFrom_isOk_iff fun s hs => h s (Statement.mem_sort.mp hs)]
  simp only [Statement.mem_sort]

end NTriples

/-! ### The views of an accepted document -/

theorem Statement.isDeclared_iff {declared : PrefixMap} {s : Statement} :
    s.isDeclared declared = true ↔ ∀ n ∈ s.names, Assoc.has declared (Name.label n) = true := by
  rw [isDeclared, List.all_eq_true]

theorem Turtle.termNames_literal {l : Literal} {datatype : Text}
    (hdatatype : nonempty l.datatype = some datatype) :
    termNames (.literal l) =
      if (nonempty l.language).isNone && !isBare l then [datatype] else [] := by
  rw [termNames]
  simp only [hdatatype]

/-- The grouped view shows only names of the statement. -/
theorem Turtle.referencedNames_subset (s : Statement) : Turtle.referencedNames s ⊆ s.names := by
  obtain ⟨subject, predicate, object⟩ := s
  refine List.cons_subset_cons _ (List.cons_subset_cons _ ?_)
  cases object with
  | literal l =>
    cases hdatatype : nonempty l.datatype with
    | none => simp [Turtle.termNames, hdatatype]
    | some datatype =>
      rw [Turtle.termNames_literal hdatatype, Term.names, hdatatype]
      split <;> simp
  | _ => exact List.Subset.refl _

/-- The flat view of a statement with declared names needs the list vocabulary for a list, and no more. -/
theorem NTriples.forall_writtenNames_iff {declared : PrefixMap} {s : Statement}
    (h : s.isDeclared declared = true) :
    (∀ n ∈ writtenNames s, Assoc.has declared (Name.label n) = true) ↔
      ((∃ items, s.object = .list items) → Assoc.has declared "rdf" = true) := by
  obtain ⟨subject, predicate, object⟩ := s
  rw [Statement.isDeclared_iff, Statement.names, List.forall_mem_cons, List.forall_mem_cons] at h
  obtain ⟨hs, hp, ho⟩ := h
  rw [writtenNames, List.forall_mem_cons, List.forall_mem_cons]
  have hfirst : Name.label Vocabulary.first = "rdf" := by decide +kernel
  have hrest : Name.label Vocabulary.rest = "rdf" := by decide +kernel
  have hnil : Name.label Vocabulary.nil = "rdf" := by decide +kernel
  cases object with
  | name n => simpa [hs, hp, termNames, Term.names] using ho
  | literal l =>
    have hdatatype : ∀ n ∈ termNames (.literal l), Assoc.has declared (Name.label n) = true := by
      intro n hn
      rw [termNames] at hn
      split at hn
      · exact ho n hn
      · cases hn
    simpa [hs, hp] using hdatatype
  | list items =>
    have hlist : (∃ is, Term.list items = .list is) := ⟨items, rfl⟩
    cases items with
    | nil => simp [hs, hp, termNames, hnil]
    | cons item rest =>
      have hitems : ∀ n ∈ item :: rest, Assoc.has declared (Name.label n) = true := ho
      simp only [hs, hp, termNames, List.forall_mem_cons (a := Vocabulary.first),
        List.forall_mem_cons (a := Vocabulary.rest), List.forall_mem_cons (a := Vocabulary.nil), hfirst,
        hrest, hnil, true_and, hlist, forall_const]
      exact ⟨fun h => h.1, fun h => ⟨h, h, h, hitems⟩⟩

/-- The flat view shows every name of a raw statement. -/
theorem NTriples.writtenNames_of_isCompacted {declared : PrefixMap} {s : Statement}
    (h : s.IsCompacted declared) : NTriples.writtenNames s = s.names := by
  obtain ⟨subject, predicate, object⟩ := s
  rw [NTriples.writtenNames, Statement.names]
  cases object with
  | name n => rfl
  | literal l =>
    rcases h.single l rfl with hlanguage | hdatatype
    · simp [termNames, Term.names, hlanguage, nonempty]
    · simp [termNames, Term.names, hdatatype, nonempty]
  | list items => exact absurd rfl (h.noList items)

/-- A name with a single colon that was made from an identifier has a declared label. -/
theorem Name.has_of_shorten {declared : PrefixMap} {iri label localPart : Text}
    (h : shorten declared iri = .ok (label ++ ":" ++ localPart)) (hlabel : .char ':' ∉ label.toList)
    (hlocal : .char ':' ∉ localPart.toList) : Assoc.has declared label = true := by
  obtain ⟨l, ns, r, hmem, -, -, hname⟩ := shorten_eq_ok h
  -- the label that the name was made with would bring its colon into the local part
  have hl : .char ':' ∉ l.toList := by
    intro hcolon
    obtain ⟨own, rest, hsplit, hown⟩ := List.eq_append_cons_of_mem hcolon
    have hpart := localPart_append hown hsplit r
    rw [← hname, localPart_append_of_notMem hlabel] at hpart
    exact hlocal (hpart ▸ by simp)
  have heq : label = l := by rw [← label_append_of_notMem hlabel, hname, label_append_of_notMem hl]
  exact Assoc.has_iff_mem_keys.mpr (heq ▸ List.mem_map_of_mem hmem)

/-- The datatypes whose literals can be bare have names with a single colon. -/
theorem Turtle.eq_xsd_of_isBare {l : Literal} {datatype : Text} (h : isBare l = true)
    (hdatatype : l.datatype = some datatype) :
    ∃ localPart, datatype = "xsd" ++ ":" ++ localPart ∧ .char ':' ∉ localPart.toList := by
  have hforms : ∀ k ∈ Assoc.keys bareForms, k = "xsd" ++ ":" ++ Name.localPart k ∧
      .char ':' ∉ (Name.localPart k).toList := by
    decide +kernel
  unfold isBare at h
  rw [hdatatype, Option.getD_some] at h
  split at h
  · rename_i form hform
    exact ⟨_, hforms datatype (List.mem_map_of_mem (Assoc.mem_of_lookup hform))⟩
  · cases h

/-- What the grouped view does not show of a raw statement is the datatype of a bare literal, and that is
declared in any case. -/
theorem isDeclared_iff_of_isCompacted {declared : PrefixMap} {s : Statement}
    (h : s.IsCompacted declared) :
    s.isDeclared declared = true ↔
      ∀ n ∈ Turtle.referencedNames s, Assoc.has declared (Name.label n) = true := by
  rw [Statement.isDeclared_iff]
  refine ⟨fun hs n hn => hs n (Turtle.referencedNames_subset s hn), fun hs n hn => ?_⟩
  by_cases hshown : n ∈ Turtle.referencedNames s
  · exact hs n hshown
  · -- the name is not shown, so it is the datatype of a bare literal
    obtain ⟨iri, hiri⟩ := h.names n hn
    obtain ⟨subject, predicate, object⟩ := s
    simp only [Turtle.referencedNames, List.mem_cons, not_or] at hshown
    obtain ⟨hsubject, hpredicate, hobject⟩ := hshown
    have hn : n ∈ object.names := by simpa [Statement.names, hsubject, hpredicate] using hn
    cases object with
    | name m => exact absurd hn hobject
    | list items => exact absurd rfl (h.noList items)
    | literal l =>
      have hdatatype : nonempty l.datatype = some n := Option.mem_toList.mp hn
      have hwritten := nonempty_eq_some hdatatype
      have hlanguage : l.language = none :=
        (h.single l rfl).resolve_right (by rw [hwritten]; exact Option.some_ne_none n)
      have hbare : Turtle.isBare l = true := by
        rw [Turtle.termNames_literal hdatatype, hlanguage] at hobject
        simpa [nonempty] using hobject
      obtain ⟨localPart, rfl, hlocal⟩ := Turtle.eq_xsd_of_isBare hbare hwritten
      have hxsd : .char ':' ∉ ("xsd" : Text).toList := by decide
      rw [Name.label_append_of_notMem hxsd]
      exact Name.has_of_shorten hiri hxsd hlocal

/-- If no label has a colon, what is made from a label has that label. -/
theorem isDeclared_of_isCompacted {declared : PrefixMap} {s : Statement} (h : s.IsCompacted declared)
    (hlabels : ∀ l ∈ Assoc.keys declared, .char ':' ∉ l.toList) : s.isDeclared declared = true := by
  rw [Statement.isDeclared_iff]
  intro n hn
  obtain ⟨iri, hiri⟩ := h.names n hn
  obtain ⟨l, ns, r, hmem, -, -, rfl⟩ := Name.shorten_eq_ok hiri
  have hl : l ∈ Assoc.keys declared := List.mem_map_of_mem hmem
  rw [Name.label_append_of_notMem (hlabels l hl)]
  exact Assoc.has_iff_mem_keys.mpr hl

theorem isQualified_of_mem_statements {v : Json} {c : Compilation} (h : compile v = .ok c)
    {s : Statement} (hs : s ∈ c.statements) : s.IsQualified := by
  rcases Compilation.mem_statements_iff.mp hs with hs | hs
  · exact (of_mem_generated h hs).1
  · exact (isCompacted_of_mem_raw h hs).isQualified

/-- The grouped view needs the names of the raw statements. -/
theorem turtle_isOk_iff {v : Json} {c : Compilation} (h : compile v = .ok c) :
    (∃ text, c.turtle = .ok text) ↔ ∀ s ∈ c.raw, s.isDeclared c.document.namespaces = true := by
  rw [Compilation.turtle, Turtle.write_isOk_iff]
  constructor
  · intro hshown s hs
    exact (isDeclared_iff_of_isCompacted (isCompacted_of_mem_raw h hs)).mpr
      (hshown s (Compilation.mem_statements_iff.mpr (.inr hs)))
  · intro hraw s hs
    have hdeclared : s.isDeclared c.document.namespaces = true := by
      rcases Compilation.mem_statements_iff.mp hs with hs | hs
      · exact (of_mem_generated h hs).2
      · exact hraw s hs
    exact fun n hn => Statement.isDeclared_iff.mp hdeclared n (Turtle.referencedNames_subset s hn)

/-- The flat view needs the names of the raw statements and, for a list, the list vocabulary. -/
theorem ntriples_isOk_iff {v : Json} {c : Compilation} (h : compile v = .ok c) :
    (∃ text, c.ntriples = .ok text) ↔
      (∀ s ∈ c.raw, s.isDeclared c.document.namespaces = true) ∧
        ((∃ s ∈ c.generated, ∃ items, s.object = .list items) →
          Assoc.has c.document.namespaces "rdf" = true) := by
  rw [Compilation.ntriples, NTriples.write_isOk_iff fun s => isQualified_of_mem_statements h]
  constructor
  · intro hshown
    have hraw : ∀ s ∈ c.raw, s.isDeclared c.document.namespaces = true := by
      intro s hs
      rw [Statement.isDeclared_iff,
        ← NTriples.writtenNames_of_isCompacted (isCompacted_of_mem_raw h hs)]
      exact hshown s (Compilation.mem_statements_iff.mpr (.inr hs))
    refine ⟨hraw, ?_⟩
    rintro ⟨s, hs, hlist⟩
    exact (NTriples.forall_writtenNames_iff (of_mem_generated h hs).2).mp
      (hshown s (Compilation.mem_statements_iff.mpr (.inl hs))) hlist
  · rintro ⟨hraw, hrdf⟩ s hs
    rcases Compilation.mem_statements_iff.mp hs with hs | hs
    · exact (NTriples.forall_writtenNames_iff (of_mem_generated h hs).2).mpr
        fun hlist => hrdf ⟨s, hs, hlist⟩
    · rw [NTriples.writtenNames_of_isCompacted (isCompacted_of_mem_raw h hs)]
      exact Statement.isDeclared_iff.mp (hraw s hs)

/-- Both views render if no label has a colon and the list vocabulary is declared. -/
theorem views_render {v : Json} {c : Compilation} (h : compile v = .ok c)
    (hlabels : ∀ l ∈ Assoc.keys c.document.namespaces, .char ':' ∉ l.toList)
    (hrdf : Assoc.has c.document.namespaces "rdf" = true) :
    (∃ text, c.turtle = .ok text) ∧ ∃ text, c.ntriples = .ok text := by
  have hraw : ∀ s ∈ c.raw, s.isDeclared c.document.namespaces = true := fun s hs =>
    isDeclared_of_isCompacted (isCompacted_of_mem_raw h hs) hlabels
  exact ⟨(turtle_isOk_iff h).mpr hraw, (ntriples_isOk_iff h).mpr ⟨hraw, fun _ => hrdf⟩⟩

/-- **When the views render.** The grouped view of an accepted document renders iff all names of its raw
statements have declared labels. The flat view renders iff, besides, `rdf` is declared or no derived
statement has a list. -/
theorem views_render_iff {v : Json} {c : Compilation} (h : compile v = .ok c) :
    ((∃ text, c.turtle = .ok text) ↔ ∀ s ∈ c.raw, s.isDeclared c.document.namespaces = true) ∧
      ((∃ text, c.ntriples = .ok text) ↔
        (∀ s ∈ c.raw, s.isDeclared c.document.namespaces = true) ∧
          ((∃ s ∈ c.generated, ∃ items, s.object = .list items) →
            Assoc.has c.document.namespaces "rdf" = true)) :=
  ⟨turtle_isOk_iff h, ntriples_isOk_iff h⟩

/-- A statement under a label without a colon is written in both views. -/
theorem views_render_rawDocument :
    ∃ c, compile (rawDocument "x" "http://x/" "<http://x/1> <http://x/2> <http://x/3> .") = .ok c ∧
      (∃ text, c.turtle = .ok text) ∧ ∃ text, c.ntriples = .ok text := by
  have hraw : NTriples.parseRaw [("x", "http://x/")] "<http://x/1> <http://x/2> <http://x/3> ." =
      .ok [⟨"x:1", "x:2", .name "x:3"⟩] := by
    decide +kernel
  have hcompile := compile_rawDocument hraw
  obtain ⟨hturtle, hntriples⟩ := views_render_iff hcompile
  refine ⟨_, hcompile, hturtle.mpr (by decide +kernel), hntriples.mpr ⟨by decide +kernel, ?_⟩⟩
  rintro ⟨s, hs, -⟩
  cases hs

/-- Under a label with a colon the same statement is accepted, but neither view can write it. -/
theorem views_fail_of_colonLabel :
    ∃ c, compile (rawDocument "a:b" "http://x/" "<http://x/1> <http://x/2> <http://x/3> .") = .ok c ∧
      c.turtle = .error (.undeclared "a") ∧ c.ntriples = .error (.undeclared "a") := by
  have hraw : NTriples.parseRaw [("a:b", "http://x/")] "<http://x/1> <http://x/2> <http://x/3> ." =
      .ok [⟨"a:b:1", "a:b:2", .name "a:b:3"⟩] := by
    decide +kernel
  exact ⟨_, compile_rawDocument hraw, by decide +kernel, by decide +kernel⟩

end Ontogram

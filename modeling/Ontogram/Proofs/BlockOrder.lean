/-
The order of the grouped view.

Subjects and entries are sorted by keys that tell them all apart, so what is sorted is determined by what is
in it. Nothing is left of the order in which statements came, or of how often they did:

* `SubjectPrecedes`, `Precedes` — the order of subjects, and that of the entries of a subject;
* `IsGrouping`, `isGrouping_group` — a block for each subject with the entries of its statements, all in order;
* `write_eq_of_mem_iff` — the same statements give the same text;
* `write_blocks` — the text is that of the blocks.
-/
import Ontogram.Proofs.BlockEntries
import Ontogram.Proofs.StatementOrder
namespace Ontogram

namespace Turtle

/-! ### Subjects -/

/-- The local part of a name without regard to case. -/
def foldedLocalPart (s : Text) : Text := Text.ofList (Text.foldCase (Name.localPart s).toList)

/-- The order of subjects. -/
def SubjectPrecedes (a b : Text) : Prop :=
  foldedLocalPart a < foldedLocalPart b ∨ foldedLocalPart a = foldedLocalPart b ∧ a < b

def subjectKey (s : Text) : Text ×ₗ Text := toLex (foldedLocalPart s, s)

theorem subjectKey_injective : Function.Injective subjectKey := by
  intro a b h
  exact (Prod.mk.inj (toLex_inj.mp h)).2

theorem subjectKey_lt_iff {a b : Text} : subjectKey a < subjectKey b ↔ SubjectPrecedes a b :=
  Prod.Lex.toLex_lt_toLex

theorem isLE_compareSubjects_iff (a b : Text) :
    (compareSubjects a b).isLE = true ↔ subjectKey a ≤ subjectKey b := by
  simp only [compareSubjects, subjectKey, foldedLocalPart, Prod.Lex.toLex_le_toLex,
    Ordering.isLE_then_iff_or, compare_lt_iff_lt, compare_eq_iff_eq, isLE_compare_iff_le]

/-! ### Entries -/

/-- The order of the entries of a subject. A predicate that is not among the leading ones comes after them. -/
inductive Precedes : Entry → Entry → Prop
  | leading {p q a b : Text} (h : leadingPredicates.idxOf p < leadingPredicates.idxOf q) :
    Precedes (p, a) (q, b)
  | other {p q a b : Text} (hp : p ∉ leadingPredicates) (hq : q ∉ leadingPredicates) (h : p < q) :
    Precedes (p, a) (q, b)
  | object {p a b : Text} (h : a < b) : Precedes (p, a) (p, b)

theorem predicateRank_of_mem {p : Text} (h : p ∈ leadingPredicates) :
    predicateRank p = (leadingPredicates.idxOf p, ("" : Text)) := by
  have hfind : leadingPredicates.findIdx? (· == p) = some (leadingPredicates.idxOf p) :=
    List.findIdx?_eq_some_iff_findIdx_eq.mpr ⟨List.idxOf_lt_length_iff.mpr h, rfl⟩
  rw [predicateRank, hfind]

theorem predicateRank_of_not_mem {p : Text} (h : p ∉ leadingPredicates) :
    predicateRank p = (leadingPredicates.idxOf p, p) := by
  have hfind : leadingPredicates.findIdx? (· == p) = none := by
    rw [List.findIdx?_eq_none_iff]
    intro q hq
    exact beq_eq_false_iff_ne.mpr fun heq => h (heq ▸ hq)
  rw [predicateRank, hfind, List.idxOf_eq_length h]

theorem predicateRank_fst (p : Text) : (predicateRank p).1 = leadingPredicates.idxOf p := by
  by_cases h : p ∈ leadingPredicates
  · rw [predicateRank_of_mem h]
  · rw [predicateRank_of_not_mem h]

/-- Predicates of one rank are the same or both not among the leading ones. -/
theorem eq_or_not_mem_of_idxOf_eq {p q : Text}
    (h : leadingPredicates.idxOf p = leadingPredicates.idxOf q) :
    p = q ∨ p ∉ leadingPredicates ∧ q ∉ leadingPredicates := by
  by_cases hp : p ∈ leadingPredicates
  · exact .inl ((List.idxOf_inj hp).mp h)
  · refine .inr ⟨hp, fun hq => hp ?_⟩
    exact List.idxOf_lt_length_iff.mp (h ▸ List.idxOf_lt_length_iff.mpr hq)

def entryKey (e : Entry) : ℕ ×ₗ Text ×ₗ Text :=
  toLex ((predicateRank e.1).1, toLex ((predicateRank e.1).2, e.2))

theorem entryKey_injective : Function.Injective entryKey := by
  rintro ⟨p, a⟩ ⟨q, b⟩ h
  obtain ⟨hrank, hrest⟩ := Prod.mk.inj (toLex_inj.mp h)
  obtain ⟨htext, rfl⟩ := Prod.mk.inj (toLex_inj.mp hrest)
  rw [predicateRank_fst, predicateRank_fst] at hrank
  rcases eq_or_not_mem_of_idxOf_eq hrank with rfl | ⟨hp, hq⟩
  · rfl
  · rw [predicateRank_of_not_mem hp, predicateRank_of_not_mem hq] at htext
    obtain rfl : p = q := htext
    rfl

theorem entryKey_lt_iff {e f : Entry} : entryKey e < entryKey f ↔ Precedes e f := by
  obtain ⟨p, a⟩ := e
  obtain ⟨q, b⟩ := f
  simp only [entryKey, Prod.Lex.toLex_lt_toLex, predicateRank_fst]
  constructor
  · rintro (hlt | ⟨hrank, hrest⟩)
    · exact .leading hlt
    -- with one rank the predicates are the same, or none of them leads and their texts are compared
    · rcases eq_or_not_mem_of_idxOf_eq hrank with rfl | ⟨hp, hq⟩
      · rcases hrest with hlt | ⟨-, hlt⟩
        · exact absurd hlt (lt_irrefl _)
        · exact .object hlt
      · rw [predicateRank_of_not_mem hp, predicateRank_of_not_mem hq] at hrest
        rcases hrest with hlt | ⟨rfl, hlt⟩
        · exact .other hp hq hlt
        · exact .object hlt
  · rintro (hlt | ⟨hp, hq, hlt⟩ | hlt)
    · exact .inl hlt
    · rw [predicateRank_of_not_mem hp, predicateRank_of_not_mem hq, List.idxOf_eq_length hp,
        List.idxOf_eq_length hq]
      exact .inr ⟨rfl, .inl hlt⟩
    · exact .inr ⟨rfl, .inr ⟨rfl, hlt⟩⟩

theorem isLE_compareEntries_iff (e f : Entry) :
    (compareEntries e f).isLE = true ↔ entryKey e ≤ entryKey f := by
  simp only [compareEntries, entryKey, Prod.Lex.toLex_le_toLex, Ordering.isLE_then_iff_or, compare_lt_iff_lt,
    compare_eq_iff_eq, isLE_compare_iff_le]

/-! ### Blocks -/

/-- The blocks have one subject each, and the entries of its statements; all is in order. -/
structure IsGrouping (statements : List Statement) (blocks : List (Text × List Entry)) : Prop where
  mem_keys : ∀ subject, subject ∈ Assoc.keys blocks ↔ ∃ s ∈ statements, s.subject = subject
  nodup_keys : (Assoc.keys blocks).Nodup
  ordered : (Assoc.keys blocks).Pairwise SubjectPrecedes
  mem_entries : ∀ b ∈ blocks, ∀ e, e ∈ b.2 ↔ ∃ s ∈ statements, s.subject = b.1 ∧ entry s = e
  nodup_entries : ∀ b ∈ blocks, b.2.Nodup
  entries_ordered : ∀ b ∈ blocks, b.2.Pairwise Precedes

theorem entriesOf_eq (subject : Text) (statements : List Statement) : entriesOf subject statements =
    sortEntries ((statements.filter fun s => s.subject == subject).map entry).eraseDups := rfl

theorem mem_entriesOf_iff {subject : Text} {statements : List Statement} {e : Entry} :
    e ∈ entriesOf subject statements ↔ ∃ s ∈ statements, s.subject = subject ∧ entry s = e := by
  simp only [entriesOf_eq, sortEntries, List.mem_mergeSort, List.mem_eraseDups, List.mem_map, List.mem_filter,
    beq_iff_eq, and_assoc]

theorem keys_group (statements : List Statement) :
    Assoc.keys (group statements) = sortSubjects (statements.map (·.subject)).eraseDups := by
  rw [Assoc.keys, group, List.map_map]
  exact List.map_id' _

theorem isGrouping_group (statements : List Statement) : IsGrouping statements (group statements) := by
  have hentries {b : Text × List Entry} (hb : b ∈ group statements) :
      b.2 = entriesOf b.1 statements := (mem_group_iff.mp hb).2
  refine ⟨fun subject => ?_, ?_, ?_, fun b hb e => ?_, fun b hb => ?_, fun b hb => ?_⟩
  · simp only [keys_group, sortSubjects, List.mem_mergeSort, List.mem_eraseDups, List.mem_map]
  · rw [keys_group, sortSubjects, (List.mergeSort_perm _ _).nodup_iff]
    exact Traversal.nodup_eraseDups _
  · rw [keys_group]
    exact (Traversal.pairwise_lt_mergeSort isLE_compareSubjects_iff subjectKey_injective
      (Traversal.nodup_eraseDups _)).imp subjectKey_lt_iff.mp
  · rw [hentries hb]
    exact mem_entriesOf_iff
  · rw [hentries hb, entriesOf_eq, sortEntries, (List.mergeSort_perm _ _).nodup_iff]
    exact Traversal.nodup_eraseDups _
  · rw [hentries hb, entriesOf_eq]
    exact (Traversal.pairwise_lt_mergeSort isLE_compareEntries_iff entryKey_injective
      (Traversal.nodup_eraseDups _)).imp entryKey_lt_iff.mp

/-! ### The same statements -/

section

variable {statements others : List Statement} (h : ∀ s, s ∈ others ↔ s ∈ statements)

include h

theorem entriesOf_eq_of_mem_iff (subject : Text) :
    entriesOf subject others = entriesOf subject statements := by
  rw [entriesOf_eq, entriesOf_eq]
  refine Traversal.mergeSort_eraseDups_congr isLE_compareEntries_iff entryKey_injective fun e => ?_
  simp only [List.mem_map, List.mem_filter, h]

theorem group_eq_of_mem_iff : group others = group statements := by
  have hsubjects : sortSubjects (others.map (·.subject)).eraseDups =
      sortSubjects (statements.map (·.subject)).eraseDups := by
    refine Traversal.mergeSort_eraseDups_congr isLE_compareSubjects_iff subjectKey_injective fun subject => ?_
    simp only [List.mem_map, h]
  rw [group, group, hsubjects]
  simp only [entriesOf_eq_of_mem_iff h]

theorem referencedLabels_eq_of_mem_iff : referencedLabels others = referencedLabels statements := by
  have hle (a b : Text) : decide (a ≤ b) = true ↔ id a ≤ id b := decide_eq_true_iff
  refine Traversal.mergeSort_eraseDups_congr hle Function.injective_id fun label => ?_
  simp only [List.mem_map, List.mem_flatMap, h]

/-- Statements in another order, or more often, are written alike. -/
theorem write_eq_of_mem_iff (declared : PrefixMap) : write declared others = write declared statements := by
  have hempty : others.isEmpty = statements.isEmpty := by
    rw [Bool.eq_iff_iff, List.isEmpty_iff, List.isEmpty_iff, List.eq_nil_iff_forall_not_mem,
      List.eq_nil_iff_forall_not_mem]
    simp only [h]
  rw [write, write, hempty, referencedLabels_eq_of_mem_iff h, group_eq_of_mem_iff h]

end

/-- The grouped view is a function of the statements that there are, and has one block for each subject. -/
theorem write_blocks (declared : PrefixMap) (statements : List Statement) (text : Text)
    (hwrite : write declared statements = .ok text) :
    (∀ others, (∀ s, s ∈ others ↔ s ∈ statements) → write declared others = .ok text) ∧
      (statements = [] → text = "") ∧
      (statements ≠ [] → ∃ namespaces blocks, declaredFor declared (referencedLabels statements) = .ok namespaces ∧
        IsGrouping statements blocks ∧
        text = Text.intercalate "\n\n" (header namespaces :: blocks.map fun b => block b.1 b.2) ++ "\n") := by
  refine ⟨fun others h => (write_eq_of_mem_iff h declared).trans hwrite, ?_, fun hne => ?_⟩
  · rintro rfl
    cases hwrite
    rfl
  · have hempty : statements.isEmpty = false := by simpa using hne
    rw [write, hempty] at hwrite
    obtain ⟨namespaces, hnamespaces, hwrite⟩ := Traversal.bind_eq_ok_iff.mp hwrite
    cases hwrite
    exact ⟨namespaces, group statements, hnamespaces, isGrouping_group statements, rfl⟩

/-! ### Two subjects -/

/-- Statements of two subjects in the order of the view, where a capital letter comes after a small one. -/
def twoSubjects : List Statement :=
  [⟨"ex:b", "rdf:type", .name "ex:T"⟩, ⟨"ex:b", "ex:q", .name "ex:c"⟩, ⟨"ex:C", "ex:q", .name "ex:c"⟩]

/-- The same statements, one of them twice. -/
def twoSubjectsBackwards : List Statement := twoSubjects.reverse ++ [⟨"ex:b", "ex:q", .name "ex:c"⟩]

def twoNamespaces : PrefixMap := [("ex", "http://ex/"), ("rdf", "http://rdf/")]

def twoBlocks : Text :=
  "@prefix ex:  <http://ex/> .\n@prefix rdf: <http://rdf/> .\n\n" ++
    "ex:b\n    a    ex:T ;\n    ex:q ex:c ;\n.\n\nex:C\n    ex:q ex:c ;\n.\n"

theorem write_twoSubjects : write twoNamespaces twoSubjects = .ok twoBlocks := by
  have hlabels : referencedLabels twoSubjects = (["ex", "rdf"] : List Text) :=
    List.mergeSort_of_pairwise (by decide +kernel)
  have hsubjects : sortSubjects (twoSubjects.map (·.subject)).eraseDups = (["ex:b", "ex:C"] : List Text) :=
    List.mergeSort_of_pairwise (by decide +kernel)
  have hb : entriesOf "ex:b" twoSubjects = ([("rdf:type", "ex:T"), ("ex:q", "ex:c")] : List Entry) :=
    List.mergeSort_of_pairwise (by decide +kernel)
  have hC : entriesOf "ex:C" twoSubjects = ([("ex:q", "ex:c")] : List Entry) := by decide +kernel
  have hgroup : group twoSubjects = ([("ex:b", [("rdf:type", "ex:T"), ("ex:q", "ex:c")]),
      ("ex:C", [("ex:q", "ex:c")])] : List (Text × List Entry)) := by
    rw [group, hsubjects]
    simp only [List.map_cons, List.map_nil, hb, hC]
  have hnamespaces : twoNamespaces.mergeSort (fun a b => a.1 ≤ b.1) = twoNamespaces :=
    List.mergeSort_of_pairwise (by decide +kernel)
  have hdeclared : declaredFor twoNamespaces (["ex", "rdf"] : List Text) = .ok twoNamespaces := by
    decide +kernel
  rw [write, hlabels, hdeclared, hgroup]
  simp only [bind, Except.bind, header]
  rw [hnamespaces]
  decide +kernel

/-- Whichever way they come, the two subjects have the same two blocks. -/
theorem write_blocks_twoSubjects :
    write twoNamespaces twoSubjects = .ok twoBlocks ∧ write twoNamespaces twoSubjectsBackwards = .ok twoBlocks ∧
      ∃ namespaces blocks, IsGrouping twoSubjects blocks ∧
        twoBlocks = Text.intercalate "\n\n" (header namespaces :: blocks.map fun b => block b.1 b.2) ++ "\n" := by
  obtain ⟨hsame, -, hblocks⟩ := write_blocks _ _ _ write_twoSubjects
  obtain ⟨namespaces, blocks, -, hgrouping, htext⟩ := hblocks (by decide)
  have hmem : ∀ s, s ∈ twoSubjectsBackwards ↔ s ∈ twoSubjects := by
    intro s
    rw [twoSubjectsBackwards, List.mem_append, List.mem_reverse, List.mem_singleton]
    refine or_iff_left_of_imp ?_
    rintro rfl
    decide
  exact ⟨write_twoSubjects, hsame _ hmem, namespaces, blocks, hgrouping, htext⟩

end Turtle

end Ontogram

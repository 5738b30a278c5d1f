/-
The namespaces above the blocks.

The labels that the header declares are gathered from the statements, and the blocks are written from them once
more. The datatype of a literal is the one name that both have to decide about, since it is not always shown:

* `WritesDatatype`, `mem_termNames_literal_iff` — a literal's datatype is gathered iff the text of the literal
  shows it;
* `Prints`, `mem_referencedNames_iff` — the names that are gathered are those to be printed;
* `write_isOk_iff_isPrinted`, `write_eq_error` — the view fails iff a printed label has no namespace, and then on
  the least such label;
* `IsHeader`, `isHeader_header` — a line for each label, in order and in one column;
* `header_declares_printed` — all of it together.
-/
import Mathlib.Order.Bounds.Defs
import Ontogram.Proofs.BlockOrder
namespace Ontogram.Turtle

open Traversal (bind_eq_error_iff mapM_eq_error_iff mapM_eq_ok_iff)

variable {declared : PrefixMap} {statements : List Statement} {l : Literal} {n label : Text}

/-! ### Datatypes -/

/-- The name stands behind the quoted text of the literal, after two carets. -/
def WritesDatatype (l : Literal) (n : Text) : Prop :=
  (renderLiteral l).toList = quote (nonempty l.datatype).isSome l.value.toList ++ .char '^' :: .char '^' :: n.toList

theorem not_writesDatatype_of_isBare (h : isBare l = true) : ¬ WritesDatatype l n := by
  intro hwrites
  rw [WritesDatatype, renderLiteral, if_pos h] at hwrites
  -- a bare text does not begin with a quote
  have hquote : l.value.toList.head? = some (.char '"') := by
    rw [hwrites, List.head?_append, head?_quote]
    rfl
  exact notMem_of_forall (of_isBare h).2 (by decide) (List.mem_of_mem_head? hquote)

theorem writesDatatype_iff_of_not_isBare (h : isBare l = false) :
    WritesDatatype l n ↔ nonempty l.language = none ∧ nonempty l.datatype = some n := by
  rw [WritesDatatype, toList_renderLiteral h, List.append_cancel_left_eq, suffix]
  cases nonempty l.language with
  | some language => simp
  | none => cases nonempty l.datatype <;> simp [Text.toList_inj]

/-- The datatype is among the names of the literal iff it is written. -/
theorem mem_termNames_literal_iff : n ∈ termNames (.literal l) ↔ WritesDatatype l n := by
  cases hbare : isBare l with
  | true =>
    refine iff_of_false ?_ (not_writesDatatype_of_isBare hbare)
    cases hdatatype : nonempty l.datatype with
    | none => simp [termNames, hdatatype]
    | some datatype => simp [termNames_literal hdatatype, hbare]
  | false =>
    rw [writesDatatype_iff_of_not_isBare hbare]
    cases hdatatype : nonempty l.datatype with
    | none => simp [termNames, hdatatype]
    | some datatype =>
      rw [termNames_literal hdatatype, hbare]
      cases nonempty l.language <;> simp [eq_comm]

/-! ### Printed names -/

/-- The names that the block of a statement has to print. The name of a type predicate is one of them, although
it is abbreviated. -/
inductive Prints (s : Statement) : Text → Prop
  | subject : Prints s s.subject
  | predicate : Prints s s.predicate
  | name {n : Text} (h : s.object = .name n) : Prints s n
  | item {items : List Text} {n : Text} (h : s.object = .list items) (hn : n ∈ items) : Prints s n
  | datatype {l : Literal} {n : Text} (h : s.object = .literal l) (hn : WritesDatatype l n) : Prints s n

theorem mem_referencedNames_iff {s : Statement} : n ∈ referencedNames s ↔ Prints s n := by
  obtain ⟨subject, predicate, object⟩ := s
  rw [referencedNames, List.mem_cons, List.mem_cons]
  constructor
  · rintro (rfl | rfl | hn)
    · exact .subject
    · exact .predicate
    · cases object with
      | name m =>
        obtain rfl : n = m := List.mem_singleton.mp hn
        exact .name rfl
      | literal l => exact .datatype rfl (mem_termNames_literal_iff.mp hn)
      | list items => exact .item rfl hn
  · rintro (_ | _ | ⟨⟨⟩⟩ | ⟨⟨⟩, hn⟩ | ⟨⟨⟩, hn⟩)
    · exact .inl rfl
    · exact .inr (.inl rfl)
    · exact .inr (.inr (List.mem_singleton_self _))
    · exact .inr (.inr hn)
    · exact .inr (.inr (mem_termNames_literal_iff.mpr hn))

/-- The label of a name that has to be printed. -/
def IsPrinted (statements : List Statement) (label : Text) : Prop :=
  ∃ s ∈ statements, ∃ n, Prints s n ∧ Name.label n = label

theorem mem_referencedLabels_iff : label ∈ referencedLabels statements ↔ IsPrinted statements label := by
  simp only [referencedLabels, List.mem_mergeSort, List.mem_eraseDups, List.mem_map, List.mem_flatMap,
    mem_referencedNames_iff, IsPrinted]
  constructor
  · rintro ⟨n, ⟨s, hs, hn⟩, hlabel⟩
    exact ⟨s, hs, n, hn, hlabel⟩
  · rintro ⟨s, hs, n, hn, hlabel⟩
    exact ⟨n, ⟨s, hs, hn⟩, hlabel⟩

theorem pairwise_referencedLabels (statements : List Statement) :
    (referencedLabels statements).Pairwise (· < ·) :=
  Traversal.pairwise_lt_mergeSort (fun _ _ => decide_eq_true_iff) Function.injective_id
    (Traversal.nodup_eraseDups _)

/-! ### Namespaces -/

/-- The label with its namespace. -/
def declaration (declared : PrefixMap) (label : Text) : Except NameError (Text × Text) :=
  match declared.lookup label with
  | some ns => .ok (label, ns)
  | none => .error (.undeclared label)

theorem declaredFor_eq_mapM (declared : PrefixMap) (labels : List Text) :
    declaredFor declared labels = labels.mapM (declaration declared) := by
  induction labels with
  | nil => rfl
  | cons label rest ih =>
    rw [declaredFor, List.mapM_cons, ← ih, declaration]
    cases declared.lookup label <;> rfl

theorem declaration_eq_ok_iff {e : Text × Text} :
    declaration declared label = .ok e ↔ e.1 = label ∧ declared.lookup label = some e.2 := by
  obtain ⟨label', ns⟩ := e
  unfold declaration
  cases declared.lookup label <;> simp [eq_comm]

theorem declaration_eq_error_iff {e : NameError} :
    declaration declared label = .error e ↔ e = .undeclared label ∧ Assoc.has declared label = false := by
  unfold declaration Assoc.has
  cases declared.lookup label <;> simp [eq_comm]

theorem keys_of_declaredFor {labels : List Text} {namespaces : PrefixMap}
    (h : List.Forall₂ (fun label e => declaration declared label = .ok e) labels namespaces) :
    Assoc.keys namespaces = labels := by
  induction h with
  | nil => rfl
  | cons he _ ih =>
    obtain ⟨hlabel, -⟩ := declaration_eq_ok_iff.mp he
    rw [Assoc.keys, List.map_cons, hlabel]
    exact congrArg _ ih

/-- Without statements nothing is written, not even a header. -/
theorem write_eq (hne : statements ≠ []) : write declared statements =
    declaredFor declared (referencedLabels statements) >>= fun namespaces =>
      pure (Text.intercalate "\n\n" (header namespaces :: (group statements).map fun b => block b.1 b.2) ++ "\n") := by
  rw [write, List.isEmpty_eq_false_iff.mpr hne]
  rfl

theorem write_isOk_iff_isPrinted : (∃ text, write declared statements = .ok text) ↔
    ∀ label, IsPrinted statements label → Assoc.has declared label = true := by
  simp only [write_isOk_iff, mem_referencedNames_iff]
  constructor
  · rintro h _ ⟨s, hs, n, hn, rfl⟩
    exact h s hs n hn
  · exact fun h s hs n hn => h _ ⟨s, hs, n, hn, rfl⟩

/-- The view fails on the least printed label without a namespace. -/
theorem write_eq_error (hne : statements ≠ []) {e : NameError} (h : write declared statements = .error e) :
    ∃ label, e = .undeclared label ∧
      IsLeast {label | IsPrinted statements label ∧ Assoc.has declared label = false} label := by
  rw [write_eq hne, bind_eq_error_iff, declaredFor_eq_mapM, mapM_eq_error_iff] at h
  rcases h with ⟨before, label, after, hlabels, hbefore, he⟩ | ⟨_, _, h⟩
  · obtain ⟨rfl, hundeclared⟩ := declaration_eq_error_iff.mp he
    have hsorted := pairwise_referencedLabels statements
    rw [hlabels] at hsorted
    obtain ⟨-, hafter, -⟩ := List.pairwise_append.mp hsorted
    have hmem : label ∈ referencedLabels statements := by
      rw [hlabels]
      exact List.mem_append_right before List.mem_cons_self
    refine ⟨label, rfl, ⟨mem_referencedLabels_iff.mp hmem, hundeclared⟩, fun other hother => ?_⟩
    obtain ⟨hprinted, hundeclared⟩ := hother
    rw [← mem_referencedLabels_iff, hlabels, List.mem_append, List.mem_cons] at hprinted
    -- the labels before it are declared, and those after it are greater
    rcases hprinted with hother | rfl | hother
    · obtain ⟨e, he⟩ := hbefore other hother
      obtain ⟨-, hlookup⟩ := declaration_eq_ok_iff.mp he
      rw [Assoc.has, hlookup] at hundeclared
      cases hundeclared
    · exact le_refl _
    · exact le_of_lt ((List.pairwise_cons.mp hafter).1 other hother)
  · cases h

/-! ### The header -/

theorem length_le_widest {texts : List Text} : ∀ s ∈ texts, s.length ≤ widest texts := by
  have hfold (texts : List Text) : ∀ n, n ≤ texts.foldl (fun n s => max n s.length) n ∧
      ∀ s ∈ texts, s.length ≤ texts.foldl (fun n s => max n s.length) n := by
    induction texts with
    | nil => simp
    | cons t texts ih =>
      intro n
      obtain ⟨hmax, htexts⟩ := ih (max n t.length)
      rw [List.foldl_cons]
      exact ⟨(le_max_left _ _).trans hmax, List.forall_mem_cons.mpr ⟨(le_max_right _ _).trans hmax, htexts⟩⟩
  exact (hfold texts 0).2

/-- The line of a label: its declaration, blanks up to the column, and there its namespace. -/
def IsHeaderLine (declared : PrefixMap) (column : Nat) (label line : Text) : Prop :=
  ∃ gap ns, declared.lookup label = some ns ∧ 0 < gap ∧ ("@prefix " ++ label ++ ":").length + gap = column ∧
    line = "@prefix " ++ label ++ ":" ++ Text.ofList (List.replicate gap (.char ' ')) ++ "<" ++ ns ++ "> ."

/-- A line for each of the labels, in code-point order, with all namespaces in one column. -/
def IsHeader (declared : PrefixMap) (isShown : Text → Prop) (text : Text) : Prop :=
  ∃ column labels lines, labels.Pairwise (· < ·) ∧ (∀ label, label ∈ labels ↔ isShown label) ∧
    List.Forall₂ (IsHeaderLine declared column) labels lines ∧ text = Text.intercalate "\n" lines

def headerLine (width : Nat) (e : Text × Text) : Text :=
  pad width ("@prefix " ++ e.1 ++ ":") ++ " <" ++ e.2 ++ "> ."

theorem header_eq_of_pairwise {namespaces : PrefixMap} (h : (Assoc.keys namespaces).Pairwise (· < ·)) :
    header namespaces =
      Text.intercalate "\n" (namespaces.map (headerLine ("@prefix ".length + widest (Assoc.keys namespaces) + 1))) := by
  have hsorted : namespaces.mergeSort (fun a b => a.1 ≤ b.1) = namespaces :=
    List.mergeSort_of_pairwise ((List.pairwise_map.mp h).imp fun hlt => decide_eq_true (le_of_lt hlt))
  rw [header, hsorted]
  rfl

theorem isHeaderLine_headerLine {e : Text × Text} {width : Nat} (he : declaration declared label = .ok e)
    (hwidth : label.length ≤ width) :
    IsHeaderLine declared ("@prefix ".length + width + 2) label (headerLine ("@prefix ".length + width + 1) e) := by
  obtain ⟨hlabel, hlookup⟩ := declaration_eq_ok_iff.mp he
  have hlength : ("@prefix " ++ label ++ ":").length = "@prefix ".length + label.length + 1 := by
    rw [Text.length_append, Text.length_append]
    rfl
  refine ⟨width - label.length + 1, e.2, hlookup, Nat.succ_pos _, by omega, ?_⟩
  have hgap : "@prefix ".length + width + 1 - ("@prefix " ++ label ++ ":").length = width - label.length := by omega
  rw [headerLine, hlabel, pad, hgap, ← Text.toList_inj]
  simp [List.replicate_succ']

theorem forall₂_headerLine {labels : List Text} {namespaces : PrefixMap} {width : Nat}
    (h : List.Forall₂ (fun label e => declaration declared label = .ok e) labels namespaces)
    (hwidth : ∀ label ∈ labels, label.length ≤ width) :
    List.Forall₂ (IsHeaderLine declared ("@prefix ".length + width + 2)) labels
      (namespaces.map (headerLine ("@prefix ".length + width + 1))) := by
  induction h with
  | nil => exact .nil
  | cons he _ ih =>
    obtain ⟨hlabel, hrest⟩ := List.forall_mem_cons.mp hwidth
    exact .cons (isHeaderLine_headerLine he hlabel) (ih hrest)

theorem isHeader_header {namespaces : PrefixMap}
    (h : declaredFor declared (referencedLabels statements) = .ok namespaces) :
    IsHeader declared (IsPrinted statements) (header namespaces) := by
  rw [declaredFor_eq_mapM, mapM_eq_ok_iff] at h
  have hkeys := keys_of_declaredFor h
  have hsorted := pairwise_referencedLabels statements
  refine ⟨_, _, _, hsorted, fun label => mem_referencedLabels_iff, forall₂_headerLine h length_le_widest, ?_⟩
  rw [← hkeys] at hsorted ⊢
  exact header_eq_of_pairwise hsorted

/-- **The header declares what the blocks print.** The grouped view of some statements fails iff a label that it
has to print has no namespace, and then on the least such label; otherwise the header above the blocks has one line
for each such label, in order and in one column. The names that are looked up for a literal are its datatype, if
that is written, and no others. -/
theorem header_declares_printed (declared : PrefixMap) {statements : List Statement} (hne : statements ≠ []) :
    ((∃ e, write declared statements = .error e) ↔
        ∃ label, IsPrinted statements label ∧ Assoc.has declared label = false) ∧
      (∀ e, write declared statements = .error e → ∃ label,
        e = .undeclared label ∧ e.message = "No namespace found for prefix: " ++ label ∧
          IsLeast {label | IsPrinted statements label ∧ Assoc.has declared label = false} label) ∧
      (∀ text, write declared statements = .ok text → ∃ head blocks,
        text = Text.intercalate "\n\n" (head :: blocks.map fun b => block b.1 b.2) ++ "\n" ∧
          IsHeader declared (IsPrinted statements) head ∧ IsGrouping statements blocks) ∧
      ∀ subject predicate l, ∃ names,
        referencedNames ⟨subject, predicate, .literal l⟩ = subject :: predicate :: names ∧
          ∀ n, n ∈ names ↔ WritesDatatype l n := by
  refine ⟨?_, fun e he => ?_, fun text htext => ?_, fun subject predicate l => ?_⟩
  · rw [Traversal.exists_error_iff, write_isOk_iff_isPrinted]
    simp only [not_forall, exists_prop, Bool.not_eq_true]
  · obtain ⟨label, rfl, hleast⟩ := write_eq_error hne he
    exact ⟨label, rfl, rfl, hleast⟩
  · rw [write_eq hne] at htext
    obtain ⟨namespaces, hnamespaces, htext⟩ := Traversal.bind_eq_ok_iff.mp htext
    exact ⟨_, _, (Except.ok.inj htext).symm, isHeader_header hnamespaces, isGrouping_group statements⟩
  · exact ⟨_, rfl, fun n => mem_termNames_literal_iff⟩

/-! ### Three literals with datatypes -/

/-- An integer that is written bare, a text with a language beside its datatype, and a text whose datatype is
written. -/
def typedLiterals : List Statement :=
  [⟨"ex:s", "rdf:type", .name "ex:T"⟩, ⟨"ex:s", "ex:p", .literal ⟨"5", some "xsd:integer", none⟩⟩,
    ⟨"ex:s", "ex:p", .literal ⟨"five", some "tagged:text", some "en"⟩⟩,
    ⟨"ex:s", "ex:p", .literal ⟨"V", some "numeral:roman", none⟩⟩]

/-- Of the three datatypes only the one that is written needs a namespace; and the header of two subjects declares
what their blocks print. -/
theorem header_declares_printed_typed :
    typedLiterals ≠ [] ∧
      (∃ e, write twoNamespaces typedLiterals = .error e ∧
        e.message = "No namespace found for prefix: numeral") ∧
      twoSubjects ≠ [] ∧ ∃ head blocks,
        twoBlocks = Text.intercalate "\n\n" (head :: blocks.map fun b => block b.1 b.2) ++ "\n" ∧
        IsHeader twoNamespaces (IsPrinted twoSubjects) head ∧ IsGrouping twoSubjects blocks := by
  have hne : typedLiterals ≠ [] := List.cons_ne_nil _ _
  have hne' : twoSubjects ≠ [] := List.cons_ne_nil _ _
  obtain ⟨hfails, hleast, -, -⟩ := header_declares_printed twoNamespaces hne
  obtain ⟨-, -, hheader, -⟩ := header_declares_printed twoNamespaces hne'
  have hnames : ∀ s ∈ typedLiterals, ∀ n ∈ referencedNames s,
      Name.label n = "numeral" ∨ Assoc.has twoNamespaces (Name.label n) = true := by decide +kernel
  have hprinted : IsPrinted typedLiterals "numeral" :=
    ⟨⟨"ex:s", "ex:p", .literal ⟨"V", some "numeral:roman", none⟩⟩, by decide, "numeral:roman",
      mem_referencedNames_iff.mp (by decide +kernel), by decide +kernel⟩
  obtain ⟨e, he⟩ := hfails.mpr ⟨"numeral", hprinted, by decide⟩
  obtain ⟨label, -, hmessage, ⟨⟨s, hs, n, hn, rfl⟩, hundeclared⟩, -⟩ := hleast e he
  rcases hnames s hs n (mem_referencedNames_iff.mpr hn) with hlabel | hdeclared
  · rw [hlabel] at hmessage
    exact ⟨hne, ⟨e, he, hmessage⟩, hne', hheader _ write_twoSubjects⟩
  · cases hdeclared.symm.trans hundeclared

end Ontogram.Turtle

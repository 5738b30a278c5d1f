/-
The flat view and the order of the statements.

Lists take their numbers in the order of the statements, and that order does not tell lists apart that are
the same text when their items are joined. So the flat view depends only on which statements there are iff
such lists are lists of the same identifiers:

* `IsSeparated` — lists of the same joined items have the same identifiers;
* `isSeparated_of_noBlanks` — it is so if no name has a blank;
* `write_of_perm`, `isSeparated_of_write_perm` — the two directions;
* `flat_text_of_perm` — both together.
-/
import Ontogram.Proofs.ChainLines
import Ontogram.Proofs.LineSequence
import Ontogram.Proofs.StatementOrder
namespace Ontogram.NTriples

open Traversal (bind_eq_ok_iff)

variable {declared : PrefixMap}

/-! ### Separated statements -/

/-- Lists of one subject and predicate that are the same text when their items are joined by blanks are lists
of the same identifiers. -/
def IsSeparated (declared : PrefixMap) (statements : List Statement) : Prop :=
  ∀ subject predicate items items', items ≠ [] → items' ≠ [] →
    ⟨subject, predicate, .list items⟩ ∈ statements → ⟨subject, predicate, .list items'⟩ ∈ statements →
    Text.intercalate " " items = Text.intercalate " " items' →
    items.map (Name.expand declared) = items'.map (Name.expand declared)

/-- Lists of names without blanks are told apart by their joined items. -/
theorem isSeparated_of_noBlanks {statements : List Statement}
    (h : ∀ s ∈ statements, ∀ n ∈ s.object.names, .char ' ' ∉ n.toList) : IsSeparated declared statements := by
  intro subject predicate items items' hne hne' hs ht hjoined
  have hsplit {items : List Text} (hne : items ≠ [])
      (hs : ⟨subject, predicate, .list items⟩ ∈ statements) :
      (Text.intercalate " " items).toList.splitOn (.char ' ') = items.map Text.toList := by
    rw [Text.toList_intercalate]
    refine List.splitOn_intercalate (CodePoint.char ' ') (List.forall_mem_map.mpr (h _ hs)) ?_
    simpa using hne
  have hitems : items.map Text.toList = items'.map Text.toList := by
    rw [← hsplit hne hs, ← hsplit hne' ht, hjoined]
  rw [List.map_injective_iff.mpr (fun _ _ => Text.toList_inj.mp) hitems]

theorem IsSeparated.of_perm {statements others : List Statement} (h : IsSeparated declared statements)
    (hperm : statements.Perm others) : IsSeparated declared others := by
  intro subject predicate items items' hne hne' hs ht
  exact h subject predicate items items' hne hne' (hperm.mem_iff.mpr hs) (hperm.mem_iff.mpr ht)

theorem eq_of_key_eq {s t : Statement} (hs : takesChain s.object = true)
    (ht : takesChain t.object = true) (h : s.key = t.key) :
    ∃ subject predicate items items', items ≠ [] ∧ items' ≠ [] ∧ s = ⟨subject, predicate, .list items⟩ ∧
      t = ⟨subject, predicate, .list items'⟩ ∧ Text.intercalate " " items = Text.intercalate " " items' := by
  obtain ⟨subject, predicate, _ | _ | _ | ⟨item, items⟩⟩ := s <;> try cases hs
  obtain ⟨subject', predicate', _ | _ | _ | ⟨item', items'⟩⟩ := t <;> try cases ht
  -- the keys agree in subject, predicate, rank and joined items
  obtain ⟨rfl, h⟩ := Prod.mk.inj (toLex.injective h)
  obtain ⟨rfl, h⟩ := Prod.mk.inj (toLex.injective h)
  obtain ⟨-, h⟩ := Prod.mk.inj (toLex.injective h)
  obtain ⟨h, -⟩ := Prod.mk.inj (toLex.injective h)
  exact ⟨subject, predicate, item :: items, item' :: items', List.cons_ne_nil _ _, List.cons_ne_nil _ _,
    rfl, rfl, h⟩

/-- Lists of the same identifiers are written in the same lines. -/
theorem HasLine.of_key_eq {statements : List Statement} (h : IsSeparated declared statements)
    {s t : Statement} (hs : s ∈ statements) (ht : t ∈ statements) (hschain : takesChain s.object = true)
    (htchain : takesChain t.object = true) (hkey : s.key = t.key) {chain : Nat} {l : Text}
    (hl : HasLine declared chain s l) : HasLine declared chain t l := by
  obtain ⟨subject, predicate, items, items', hne, hne', rfl, rfl, hjoined⟩ :=
    eq_of_key_eq hschain htchain hkey
  have hitems : (Term.list items).identifiers declared = (Term.list items').identifiers declared :=
    h subject predicate items items' hne hne' hs ht hjoined
  obtain ⟨lines, hlines, hl⟩ := hl
  refine ⟨lines, ?_, hl⟩
  rw [writeStatement_chain_eq_ok_iff hschain] at hlines
  rw [writeStatement_chain_eq_ok_iff htchain]
  rwa [← hitems]

theorem map_key_chains {statements others : List Statement} (h : statements.Perm others) :
    (chains (Statement.sort statements)).map Statement.key =
      (chains (Statement.sort others)).map Statement.key :=
  Statement.map_key_filter_sort h fun s => takesChain s.object

theorem mem_chains_sort {statements : List Statement} {s : Statement} :
    s ∈ chains (Statement.sort statements) ↔ s ∈ statements ∧ takesChain s.object = true := by
  rw [chains, List.mem_filter, Statement.mem_sort]

/-- On separated statements the lines do not depend on how the statements stand. -/
theorem mem_writeFrom_of_perm {statements others : List Statement} (h : IsSeparated declared statements)
    (hperm : statements.Perm others) {lines lines' : List Text}
    (hlines : writeFrom declared 0 (Statement.sort statements) = .ok lines)
    (hlines' : writeFrom declared 0 (Statement.sort others) = .ok lines') {l : Text} (hl : l ∈ lines) :
    l ∈ lines' := by
  rw [mem_writeFrom hlines']
  rcases (mem_writeFrom hlines).mp hl with ⟨s, hs, hchain, hl⟩ | ⟨i, s, hs, hl⟩
  · exact .inl ⟨s, Statement.mem_sort.mpr (hperm.mem_iff.mp (Statement.mem_sort.mp hs)), hchain, hl⟩
  · -- the statement that takes this number among the others has the same key
    have hkeys : ((chains (Statement.sort others)).map Statement.key)[i]? = some s.key := by
      rw [← map_key_chains hperm, List.getElem?_map, hs, Option.map_some]
    rw [List.getElem?_map] at hkeys
    obtain ⟨t, ht, hkey⟩ := Option.map_eq_some_iff.mp hkeys
    obtain ⟨hsmem, hschain⟩ := mem_chains_sort.mp (List.mem_of_getElem? hs)
    obtain ⟨htmem, htchain⟩ := mem_chains_sort.mp (List.mem_of_getElem? ht)
    exact .inr ⟨i, t, ht, hl.of_key_eq h hsmem (hperm.mem_iff.mpr htmem) hschain htchain hkey.symm⟩

/-- On separated statements the text does not depend on how the statements stand. -/
theorem write_of_perm {statements others : List Statement} (h : IsSeparated declared statements)
    (hperm : statements.Perm others) {text : Text} (htext : write declared statements = .ok text) :
    write declared others = .ok text := by
  obtain ⟨lines, hlines, htext⟩ := bind_eq_ok_iff.mp htext
  have hall := (writeFrom_isOk_iff_forall 0).mp ⟨lines, hlines⟩
  obtain ⟨lines', hlines'⟩ := (writeFrom_isOk_iff_forall 0).mpr fun s hs =>
    hall s (Statement.mem_sort.mpr (hperm.mem_iff.mpr (Statement.mem_sort.mp hs)))
  refine bind_eq_ok_iff.mpr ⟨lines', hlines', ?_⟩
  rw [← htext]
  exact congrArg Except.ok (joinLines_congr fun l =>
    ⟨mem_writeFrom_of_perm (h.of_perm hperm) hperm.symm hlines' hlines,
      mem_writeFrom_of_perm h hperm hlines hlines'⟩)

/-! ### Line feeds -/

/-- No line feed comes into the statement's lines: none is in an identifier or in the language. -/
structure IsFeedFree (declared : PrefixMap) (s : Statement) : Prop where
  identifiers : ∀ n ∈ writtenNames s, ∀ iri, Name.expand declared n = .ok iri → .char '\n' ∉ iri.toList
  language : ∀ l, s.object = .literal l → .char '\n' ∉ (l.language.getD "").toList

theorem feed_notMem_expand (hdeclared : ∀ e ∈ declared, .char '\n' ∉ e.2.toList) {name iri : Text}
    (hname : .char '\n' ∉ name.toList) (h : Name.expand declared name = .ok iri) : .char '\n' ∉ iri.toList := by
  have hrest : (Name.cut name.toList).2 ⊆ name.toList := by
    unfold Name.cut
    split
    · rename_i hspan
      rw [(span_eq hspan).1]
      exact List.Subset.trans (List.subset_cons_self _ _) (List.subset_append_right _ _)
    · rename_i hspan
      rw [(span_eq hspan).1]
      exact List.subset_append_left _ _
  have hns {label ns : Text} (hlookup : declared.lookup label = some ns) : .char '\n' ∉ ns.toList :=
    hdeclared _ (Assoc.mem_of_lookup hlookup)
  unfold Name.expand at h
  rcases hcut : Name.cut name.toList with ⟨_ | label, rest⟩ <;> rw [hcut] at h hrest <;>
    simp only at h <;> split at h <;> cases h
  · rename_i hlookup
    simpa using hns hlookup
  · rename_i hlookup
    simpa [hns hlookup] using fun hmem => hname (hrest hmem)

/-- Names, namespaces and languages without line feeds bring none into the lines. -/
theorem isFeedFree_of_notMem (hdeclared : ∀ e ∈ declared, .char '\n' ∉ e.2.toList) {s : Statement}
    (hnames : ∀ n ∈ writtenNames s, .char '\n' ∉ n.toList)
    (hlanguage : ∀ l, s.object = .literal l → .char '\n' ∉ (l.language.getD "").toList) :
    IsFeedFree declared s :=
  ⟨fun _ hn _ => feed_notMem_expand hdeclared (hnames _ hn), hlanguage⟩

theorem feed_notMem_line {a b c : Text} (ha : .char '\n' ∉ a.toList) (hb : .char '\n' ∉ b.toList)
    (hc : .char '\n' ∉ c.toList) : .char '\n' ∉ (line a b c).toList := by
  simp [line, ha, hb, hc]

theorem feed_notMem_reference {iri : Text} (h : .char '\n' ∉ iri.toList) : .char '\n' ∉ (reference iri).toList := by
  simp [reference, h]

theorem feed_notMem_chainNode (chain i : Nat) : .char '\n' ∉ (chainNode chain i).toList := by
  have hdigits := notMem_decimalDigits (c := '\n') (by decide)
  simp [chainNode, hdigits]

theorem feed_notMem_writeLiteral {l : Literal} {text : Text} (h : writeLiteral declared l = .ok text)
    (hlanguage : .char '\n' ∉ (l.language.getD "").toList)
    (hdatatype : ∀ n ∈ termNames (.literal l), ∀ iri, Name.expand declared n = .ok iri →
      .char '\n' ∉ iri.toList) : .char '\n' ∉ text.toList := by
  have hvalue := feed_notMem_escapeChars l.value.toList
  unfold writeLiteral at h
  cases hl : nonempty l.language with
  | some tag =>
    rw [hl] at h
    cases h
    rw [nonempty_eq_some hl, Option.getD_some] at hlanguage
    simp [escape, hvalue, hlanguage]
  | none =>
    rw [hl] at h
    cases hd : nonempty l.datatype with
    | none =>
      rw [hd] at h
      cases h
      simp [escape, hvalue]
    | some n =>
      rw [hd] at h
      obtain ⟨_, hwritten, h⟩ := bind_eq_ok_iff.mp h
      obtain ⟨iri, hiri, rfl⟩ := exists_of_writeName hwritten
      cases h
      have hfree := hdatatype n (by simp [termNames, hl, hd]) iri hiri
      simp [escape, hvalue, reference, hfree]

theorem feed_notMem_chainLines {words : ListWords declared} (hfirst : .char '\n' ∉ words.first.toList)
    (hrest : .char '\n' ∉ words.rest.toList) (hnil : .char '\n' ∉ words.nil.toList) {chain i : Nat}
    {iris : List Text} (hiris : ∀ iri ∈ iris, .char '\n' ∉ iri.toList) :
    ∀ l ∈ chainLines words chain i iris, .char '\n' ∉ l.toList := by
  induction iris generalizing i with
  | nil => simp [chainLines]
  | cons iri iris ih =>
    obtain ⟨hiri, hiris⟩ := List.forall_mem_cons.mp hiris
    have hnext : .char '\n' ∉ (if iris.isEmpty then reference words.nil else chainNode chain (i + 1)).toList := by
      split
      · exact feed_notMem_reference hnil
      · exact feed_notMem_chainNode chain (i + 1)
    refine List.forall_mem_cons.mpr ⟨?_, List.forall_mem_cons.mpr ⟨?_, ih hiris⟩⟩
    · exact feed_notMem_line (feed_notMem_chainNode _ _) (feed_notMem_reference hfirst)
        (feed_notMem_reference hiri)
    · exact feed_notMem_line (feed_notMem_chainNode _ _) (feed_notMem_reference hrest) hnext

theorem IsFeedFree.notMem_of_hasLine {chain : Nat} {s : Statement} (h : IsFeedFree declared s)
    {l : Text} (hl : HasLine declared chain s l) : .char '\n' ∉ l.toList := by
  obtain ⟨lines, hlines, hl⟩ := hl
  have hname {n iri : Text} (hn : n ∈ writtenNames s) (hiri : Name.expand declared n = .ok iri) :
      .char '\n' ∉ (reference iri).toList := feed_notMem_reference (h.identifiers n hn iri hiri)
  cases hs : takesChain s.object with
  | false =>
    obtain ⟨subject, predicate, o, hsubject, hpredicate, ho, rfl⟩ := exists_of_writeStatement hs hlines
    rw [List.mem_singleton.mp hl]
    refine feed_notMem_line (hname (by simp [writtenNames]) hsubject)
      (hname (by simp [writtenNames]) hpredicate) ?_
    rcases ho with ⟨n, hn, ho⟩ | ⟨l, hobject, ho⟩
    · obtain ⟨iri, hiri, rfl⟩ := exists_of_writeName ho
      exact hname (by simp [writtenNames, hn]) hiri
    · refine feed_notMem_writeLiteral ho (h.language l hobject) fun n hn => h.identifiers n ?_
      simp [writtenNames, hobject, hn]
  | true =>
    obtain ⟨words, subject, predicate, iris, hsubject, hpredicate, hitems, rfl⟩ :=
      (writeStatement_chain_eq_ok_iff hs).mp hlines
    obtain ⟨_, _, _ | _ | _ | ⟨item, items⟩⟩ := s <;> try cases hs
    have hiris : ∀ iri ∈ iris, .char '\n' ∉ iri.toList := by
      intro iri hiri
      have hmem : Except.ok iri ∈ (Term.list (item :: items)).identifiers declared :=
        hitems ▸ List.mem_map_of_mem hiri
      obtain ⟨n, hn, hexpand⟩ := List.mem_map.mp hmem
      exact h.identifiers n (by simp [writtenNames, termNames, List.mem_cons.mp hn]) iri hexpand
    have hword {n iri : Text} (hn : n ∈ [Vocabulary.first, Vocabulary.rest, Vocabulary.nil])
        (hiri : Name.expand declared n = .ok iri) : .char '\n' ∉ iri.toList := by
      refine h.identifiers n ?_ iri hiri
      simp only [writtenNames, termNames, List.mem_cons] at hn ⊢
      tauto
    rcases List.mem_cons.mp hl with rfl | hl
    · exact feed_notMem_line (hname (by simp [writtenNames]) hsubject)
        (hname (by simp [writtenNames]) hpredicate) (feed_notMem_chainNode chain 0)
    · exact feed_notMem_chainLines (hword (by simp) words.first_eq) (hword (by simp) words.rest_eq)
        (hword (by simp) words.nil_eq) hiris l hl

theorem feed_notMem_writeFrom {statements : List Statement} (h : ∀ s ∈ statements, IsFeedFree declared s)
    {chain : Nat} {lines : List Text} (hlines : writeFrom declared chain statements = .ok lines) :
    ∀ l ∈ lines, .char '\n' ∉ l.toList := by
  intro l hl
  rcases (mem_writeFrom hlines).mp hl with ⟨s, hs, -, hl⟩ | ⟨i, s, hs, hl⟩
  · exact (h s hs).notMem_of_hasLine hl
  · exact (h s (List.mem_filter.mp (List.mem_of_getElem? hs)).1).notMem_of_hasLine hl

/-- Lines without line feeds are found again in the text that they are joined to. -/
theorem splitOn_joinLines {lines : List Text} (h : ∀ l ∈ lines, .char '\n' ∉ l.toList) :
    (joinLines lines).toList.splitOn (.char '\n') = (sortedLines lines).map Text.toList ++ [[]] := by
  have hjoined : (joinLines lines).toList =
      List.intercalate [CodePoint.char '\n'] ((sortedLines lines).map Text.toList ++ [[]]) := by
    rw [joinLines_eq]
    induction sortedLines lines with
    | nil => simp [Text.join]
    | cons l rest ih =>
      have hne : rest.map Text.toList ++ [[]] ≠ [] := by simp
      rw [List.map_cons, Text.join_cons, Text.toList_append, ih, List.map_cons, List.cons_append,
        List.intercalate_cons_of_ne_nil hne]
      simp
  rw [hjoined]
  refine List.splitOn_intercalate (CodePoint.char '\n') ?_ (by simp)
  simp only [List.forall_mem_append, List.forall_mem_map, mem_sortedLines]
  exact ⟨h, by simp⟩

/-- Texts that are the same were joined from the same lines. -/
theorem mem_iff_of_joinLines_eq {lines lines' : List Text} (h : ∀ l ∈ lines, .char '\n' ∉ l.toList)
    (h' : ∀ l ∈ lines', .char '\n' ∉ l.toList) (htext : joinLines lines = joinLines lines') {l : Text} :
    l ∈ lines ↔ l ∈ lines' := by
  have hsorted : (sortedLines lines).map Text.toList = (sortedLines lines').map Text.toList := by
    have hsplit := splitOn_joinLines h
    rw [htext, splitOn_joinLines h'] at hsplit
    exact (List.append_cancel_right hsplit).symm
  refine mem_sortedLines.symm.trans (Iff.trans ?_ mem_sortedLines)
  rw [List.map_injective_iff.mpr (fun _ _ => Text.toList_inj.mp) hsorted]

/-- If the lines are the same, chains of one number have the same identifiers. -/
theorem identifiers_eq {statements others : List Statement} {lines lines' : List Text}
    (hlines : writeFrom declared 0 statements = .ok lines)
    (hlines' : writeFrom declared 0 others = .ok lines') (hmem : ∀ l, l ∈ lines ↔ l ∈ lines') {k : Nat}
    {s t : Statement} (hs : (chains statements)[k]? = some s) (ht : (chains others)[k]? = some t) :
    s.object.identifiers declared = t.object.identifiers declared := by
  -- both are written, so all their items have identifiers
  have hok {l : List Statement} {ls : List Text} (h : writeFrom declared 0 l = .ok ls) {u : Statement}
      (hu : (chains l)[k]? = some u) : ∃ (_ : ListWords declared) (iris : List Text),
        u.object.identifiers declared = iris.map .ok := by
    obtain ⟨hul, hchain⟩ := List.mem_filter.mp (List.mem_of_getElem? hu)
    obtain ⟨_, hwritten⟩ := (writeFrom_isOk_iff_forall 0).mp ⟨ls, h⟩ u hul
    obtain ⟨words, -, -, iris, -, -, hitems, -⟩ := (writeStatement_chain_eq_ok_iff hchain).mp hwritten
    exact ⟨words, iris, hitems⟩
  obtain ⟨words, iris, hiris⟩ := hok hlines hs
  obtain ⟨-, iris', hiris'⟩ := hok hlines' ht
  -- what a node of the chain holds can be read off either lines
  have hread (i : Nat) (iri : Text) : iris[i]? = some iri ↔ iris'[i]? = some iri := by
    have h := firstLine_mem_writeFrom_iff hlines words k i iri
    rw [hmem, firstLine_mem_writeFrom_iff hlines' words k i iri, hs, ht] at h
    simpa [hiris, hiris'] using h.symm
  rw [hiris, hiris', List.ext_getElem? fun i => Option.ext (hread i)]

theorem takesChain_list {items : List Text} (h : items ≠ []) : takesChain (.list items) = true := by
  cases items with
  | nil => exact absurd rfl h
  | cons _ _ => rfl

/-- A statement that stands first takes the first of the numbers that statements with its key take. -/
theorem exists_chains_cons {s : Statement} (hs : takesChain s.object = true) (rest : List Statement) :
    ∃ before after, chains (Statement.sort (s :: rest)) = before ++ s :: after ∧
      s.key ∉ before.map Statement.key := by
  obtain ⟨before, after, hsort, hbefore⟩ := Statement.sort_cons s rest
  refine ⟨chains before, chains after, ?_, fun hmem => ?_⟩
  · simp [hsort, chains, hs]
  · obtain ⟨t, ht, hkey⟩ := List.mem_map.mp hmem
    exact (hbefore t (List.mem_filter.mp ht).1).ne hkey

/-- So two statements with one key take the same number if either stands first. -/
theorem exists_number {s t : Statement} (hs : takesChain s.object = true) (ht : takesChain t.object = true)
    (hkey : s.key = t.key) (rest : List Statement) :
    ∃ k : Nat, (chains (Statement.sort (s :: t :: rest)))[k]? = some s ∧
      (chains (Statement.sort (t :: s :: rest)))[k]? = some t := by
  obtain ⟨before, after, hchains, hbefore⟩ := exists_chains_cons hs (t :: rest)
  obtain ⟨before', after', hchains', hbefore'⟩ := exists_chains_cons ht (s :: rest)
  have hkeys := map_key_chains (List.Perm.swap t s rest)
  rw [hchains, hchains', List.map_append, List.map_append, List.map_cons, List.map_cons, hkey] at hkeys
  have hlength : before.length = before'.length := by
    simpa using congrArg List.length (eq_of_append_cons (hkey ▸ hbefore) hbefore' hkeys).1
  refine ⟨before.length, by simp [hchains], ?_⟩
  rw [hchains', hlength]
  simp

/-- If the text does not depend on how the statements stand, and its lines are not broken, the statements
are separated. -/
theorem isSeparated_of_write_perm {statements : List Statement}
    (hfeed : ∀ s ∈ statements, IsFeedFree declared s) {text : Text}
    (h : ∀ others, others.Perm statements → write declared others = .ok text) :
    IsSeparated declared statements := by
  intro subject predicate items items' hne hne' hs ht hjoined
  by_cases heq : items = items'
  · rw [heq]
  -- let either statement stand first
  have hdiff : Statement.mk subject predicate (.list items') ≠ ⟨subject, predicate, .list items⟩ := by
    simpa [eq_comm] using heq
  obtain ⟨rest, hperm⟩ : ∃ rest, statements.Perm
      (⟨subject, predicate, .list items⟩ :: ⟨subject, predicate, .list items'⟩ :: rest) :=
    ⟨_, (List.perm_cons_erase hs).trans
      ((List.perm_cons_erase ((List.mem_erase_of_ne hdiff).mpr ht)).cons _)⟩
  obtain ⟨lines, hlines, htext⟩ := bind_eq_ok_iff.mp (h _ hperm.symm)
  obtain ⟨lines', hlines', htext'⟩ := bind_eq_ok_iff.mp (h _ ((List.Perm.swap _ _ rest).trans hperm.symm))
  obtain ⟨k, hk, hk'⟩ := exists_number (s := ⟨subject, predicate, .list items⟩)
    (t := ⟨subject, predicate, .list items'⟩) (takesChain_list hne) (takesChain_list hne')
    (by simp only [Statement.key, Term.key, Term.rank, Term.sortTexts, hjoined]) rest
  have hfeed' {others : List Statement} (hothers : others.Perm statements) {ls : List Text}
      (hls : writeFrom declared 0 (Statement.sort others) = .ok ls) : ∀ l ∈ ls, .char '\n' ∉ l.toList :=
    feed_notMem_writeFrom (fun s hs => hfeed s (hothers.mem_iff.mp (Statement.mem_sort.mp hs))) hls
  have hjoin : joinLines lines = joinLines lines' := Except.ok.inj (htext.trans htext'.symm)
  exact identifiers_eq hlines hlines' (fun l => mem_iff_of_joinLines_eq (hfeed' hperm.symm hlines)
    (hfeed' ((List.Perm.swap _ _ rest).trans hperm.symm) hlines') hjoin) hk hk'

/-- **When the flat view does not depend on the order of the statements.** On separated statements, any
other order has the same text, or none if they have none. Conversely, where no line feed breaks a line,
statements whose text is the same in any order are separated. -/
theorem flat_text_of_perm (declared : PrefixMap) (statements : List Statement) :
    (IsSeparated declared statements → ∀ others, others.Perm statements → ∀ text,
      write declared others = .ok text ↔ write declared statements = .ok text) ∧
    ((∀ s ∈ statements, IsFeedFree declared s) → (∃ text, write declared statements = .ok text) →
      (∀ others, others.Perm statements → write declared others = write declared statements) →
        IsSeparated declared statements) := by
  constructor
  · intro h others hperm text
    exact ⟨write_of_perm (h.of_perm hperm.symm) hperm, write_of_perm h hperm.symm⟩
  · rintro hfeed ⟨text, htext⟩ h
    exact isSeparated_of_write_perm hfeed fun others hperm => (h others hperm).trans htext

/-- Two lists of one subject, of other names, are written alike in either order, and they are separated. -/
theorem flat_text_of_perm_twoLists :
    ∃ text, write [("p", "http://x/"), ("rdf", "http://r/")]
        [⟨"p:s", "p:q", .list ["p:a", "p:b"]⟩, ⟨"p:s", "p:q", .list ["p:c"]⟩] = .ok text ∧
      write [("p", "http://x/"), ("rdf", "http://r/")]
        [⟨"p:s", "p:q", .list ["p:c"]⟩, ⟨"p:s", "p:q", .list ["p:a", "p:b"]⟩] = .ok text ∧
      IsSeparated [("p", "http://x/"), ("rdf", "http://r/")]
        [⟨"p:s", "p:q", .list ["p:a", "p:b"]⟩, ⟨"p:s", "p:q", .list ["p:c"]⟩] := by
  obtain ⟨text, htext⟩ : ∃ text, write [("p", "http://x/"), ("rdf", "http://r/")]
      [⟨"p:s", "p:q", .list ["p:a", "p:b"]⟩, ⟨"p:s", "p:q", .list ["p:c"]⟩] = .ok text := by
    rw [write_isOk_iff (by unfold Statement.IsQualified; decide +kernel)]
    decide +kernel
  have hfeed : ∀ s ∈ [(⟨"p:s", "p:q", .list ["p:a", "p:b"]⟩ : Statement), ⟨"p:s", "p:q", .list ["p:c"]⟩],
      IsFeedFree [("p", "http://x/"), ("rdf", "http://r/")] s := by
    have hdeclared : ∀ e ∈ ([("p", "http://x/"), ("rdf", "http://r/")] : PrefixMap), .char '\n' ∉ e.2.toList := by
      decide
    refine List.forall_mem_cons.mpr ⟨?_, List.forall_mem_singleton.mpr ?_⟩ <;>
      exact isFeedFree_of_notMem hdeclared (by decide +kernel) fun _ hl => by cases hl
  obtain ⟨hall, hseparated⟩ := flat_text_of_perm [("p", "http://x/"), ("rdf", "http://r/")]
    [⟨"p:s", "p:q", .list ["p:a", "p:b"]⟩, ⟨"p:s", "p:q", .list ["p:c"]⟩]
  have hperm := hall (isSeparated_of_noBlanks (by decide +kernel))
  exact ⟨text, htext, (hperm _ (List.Perm.swap _ _ []) text).mpr htext,
    hseparated hfeed ⟨text, htext⟩ fun others h => ((hperm others h text).mpr htext).trans htext.symm⟩

/-- A list of two names, and a list of one name that is these two with a blank between, are numbered as they
stand. -/
theorem flat_text_depends_on_order :
    ∃ text text', write [("p", "http://x/"), ("rdf", "http://r/")]
        [⟨"p:s", "p:q", .list ["p:a p:b"]⟩, ⟨"p:s", "p:q", .list ["p:a", "p:b"]⟩] = .ok text ∧
      write [("p", "http://x/"), ("rdf", "http://r/")]
        [⟨"p:s", "p:q", .list ["p:a", "p:b"]⟩, ⟨"p:s", "p:q", .list ["p:a p:b"]⟩] = .ok text' ∧
      text ≠ text' := by
  have hwrite {statements : List Statement} {lines : List Text}
      (hsorted : statements.Pairwise fun s t => (s.compare t).isLE = true)
      (hlines : writeFrom [("p", "http://x/"), ("rdf", "http://r/")] 0 statements = .ok lines) :
      write [("p", "http://x/"), ("rdf", "http://r/")] statements = .ok (joinLines lines) := by
    rw [write, Statement.sort, List.mergeSort_of_pairwise hsorted, hlines]
    rfl
  refine ⟨_, _, hwrite (by decide +kernel) rfl, hwrite (by decide +kernel) rfl, fun htext => ?_⟩
  -- only one of them has a second node in the first chain
  have hmem := mem_iff_of_joinLines_eq (by decide +kernel) (by decide +kernel) htext
    (l := "_:list0_0 <http://r/rest> _:list0_1 .")
  exact absurd hmem (by decide +kernel)

end Ontogram.NTriples

/-
The lines of lists in the flat view.

A list with items is written as a chain of blank nodes, whose names show the number that the list takes among
the lists of the view:

* `writeStatement_chain_eq_ok_iff` — the lines of a list's statement come from the identifiers that it names
  and from its number;
* `mem_writeFrom` — the lines of the view, statement by statement;
* `firstLine_mem_writeFrom_iff` — from the lines of the view the identifiers of each list can be read off.
-/
import Mathlib.Data.Nat.Digits.Defs
import Ontogram.Proofs.LineReading
import Ontogram.Proofs.Views
namespace Ontogram

open Traversal (bind_eq_ok_iff mapM_eq_ok_iff exists_bind_iff exists_bind_pure_iff)

/-- The identifiers of a list's items. -/
def Term.identifiers (declared : PrefixMap) : Term → List (Except NameError Text)
  | .list items => items.map (Name.expand declared)
  | _ => []

namespace NTriples

/-! ### The lines of a chain -/

def reference (iri : Text) : Text := "<" ++ iri ++ ">"

/-- The identifiers of the list vocabulary. -/
structure ListWords (declared : PrefixMap) where
  first : Text
  rest : Text
  nil : Text
  first_eq : Name.expand declared Vocabulary.first = .ok first
  rest_eq : Name.expand declared Vocabulary.rest = .ok rest
  nil_eq : Name.expand declared Vocabulary.nil = .ok nil

variable {declared : PrefixMap}

/-- The line that names what a node of a chain holds. -/
def firstLine (words : ListWords declared) (chain i : Nat) (iri : Text) : Text :=
  line (chainNode chain i) (reference words.first) (reference iri)

/-- The line that names what follows a node of a chain. -/
def restLine (words : ListWords declared) (chain i : Nat) (isLast : Bool) : Text :=
  line (chainNode chain i) (reference words.rest)
    (if isLast then reference words.nil else chainNode chain (i + 1))

/-- The lines of a chain from its `i`-th node on. -/
def chainLines (words : ListWords declared) (chain : Nat) : Nat → List Text → List Text
  | _, [] => []
  | i, iri :: iris =>
    firstLine words chain i iri :: restLine words chain i iris.isEmpty :: chainLines words chain (i + 1) iris

theorem writeName_eq {name iri : Text} (h : Name.expand declared name = .ok iri) :
    writeName declared name = .ok (reference iri) := by
  rw [writeName, h]
  rfl

theorem exists_of_writeName {name text : Text} (h : writeName declared name = .ok text) :
    ∃ iri, Name.expand declared name = .ok iri ∧ text = reference iri := by
  obtain ⟨iri, hiri, h⟩ := bind_eq_ok_iff.mp h
  cases h
  exact ⟨iri, hiri, rfl⟩

/-- If the list vocabulary is declared, a chain is written as soon as its items are. -/
theorem writeChain_eq (words : ListWords declared) (chain i : Nat) (items : List Text) :
    writeChain declared chain i items =
      (items.mapM (Name.expand declared)).map (chainLines words chain i) := by
  have hfirst := writeName_eq words.first_eq
  have hrest := writeName_eq words.rest_eq
  have hnil := writeName_eq words.nil_eq
  induction items generalizing i with
  | nil => rfl
  | cons item items ih =>
    rw [List.mapM_cons]
    unfold writeChain
    cases hitem : Name.expand declared item with
    | error e =>
      have hname : writeName declared item = .error e := by
        rw [writeName, hitem]
        rfl
      cases items <;> simp [hfirst, hnil, hname, bind, Except.bind, pure, Except.pure, Except.map]
    | ok iri =>
      rw [ih, writeName_eq hitem, hfirst, hrest, hnil]
      -- the last node is followed by the word for no list
      cases items with
      | nil => rfl
      | cons next items =>
        rw [List.mapM_cons]
        cases Name.expand declared next with
        | error e => rfl
        | ok iri' => cases items.mapM (Name.expand declared) <;> rfl

/-- A chain with a node is written only if the list vocabulary is declared. -/
theorem exists_listWords {chain i : Nat} {item : Text} {items lines : List Text}
    (h : writeChain declared chain i (item :: items) = .ok lines) : Nonempty (ListWords declared) := by
  induction items generalizing item i lines with
  | nil =>
    unfold writeChain at h
    obtain ⟨_, hnil, h⟩ := bind_eq_ok_iff.mp h
    obtain ⟨_, hfirst, h⟩ := bind_eq_ok_iff.mp h
    obtain ⟨_, -, h⟩ := bind_eq_ok_iff.mp h
    obtain ⟨_, hrest, -⟩ := bind_eq_ok_iff.mp h
    obtain ⟨first, hfirst, -⟩ := exists_of_writeName hfirst
    obtain ⟨rest, hrest, -⟩ := exists_of_writeName hrest
    obtain ⟨nil, hnil, -⟩ := exists_of_writeName hnil
    exact ⟨⟨first, rest, nil, hfirst, hrest, hnil⟩⟩
  | cons next items ih =>
    unfold writeChain at h
    obtain ⟨_, -, h⟩ := bind_eq_ok_iff.mp h
    obtain ⟨_, -, h⟩ := bind_eq_ok_iff.mp h
    obtain ⟨_, -, h⟩ := bind_eq_ok_iff.mp h
    obtain ⟨_, -, h⟩ := bind_eq_ok_iff.mp h
    obtain ⟨_, hmore, -⟩ := bind_eq_ok_iff.mp h
    exact ih hmore

/-- The lines of a list's statement come from the identifiers that it names, and from its number. -/
theorem writeStatement_chain_eq_ok_iff {chain : Nat} {s : Statement} (h : takesChain s.object = true)
    {lines : List Text} :
    writeStatement declared chain s = .ok lines ↔
      ∃ (words : ListWords declared) (subject predicate : Text) (iris : List Text),
        Name.expand declared s.subject = .ok subject ∧
        Name.expand declared s.predicate = .ok predicate ∧
        s.object.identifiers declared = iris.map .ok ∧
        lines = line (reference subject) (reference predicate) (chainNode chain 0) ::
          chainLines words chain 0 iris := by
  obtain ⟨subject, predicate, _ | _ | _ | ⟨item, items⟩⟩ := s <;> try cases h
  have hiris (iris : List Text) : (item :: items).mapM (Name.expand declared) = .ok iris ↔
      (item :: items).map (Name.expand declared) = iris.map .ok := by
    rw [mapM_eq_ok_iff, ← List.forall₂_eq_eq_eq, List.forall₂_map_left_iff, List.forall₂_map_right_iff]
  constructor
  · intro h
    obtain ⟨_, hwritten, h⟩ := bind_eq_ok_iff.mp h
    obtain ⟨subject, hsubject, rfl⟩ := exists_of_writeName hwritten
    obtain ⟨_, hwritten, h⟩ := bind_eq_ok_iff.mp h
    obtain ⟨predicate, hpredicate, rfl⟩ := exists_of_writeName hwritten
    obtain ⟨more, hchain, h⟩ := bind_eq_ok_iff.mp h
    obtain ⟨words⟩ := exists_listWords hchain
    obtain ⟨iris, hitems, rfl⟩ := Traversal.map_eq_ok_iff.mp (writeChain_eq words chain 0 _ ▸ hchain)
    cases h
    exact ⟨words, subject, predicate, iris, hsubject, hpredicate, (hiris iris).mp hitems, rfl⟩
  · rintro ⟨words, _, _, iris, hsubject, hpredicate, hitems, rfl⟩
    refine bind_eq_ok_iff.mpr ⟨_, writeName_eq hsubject, bind_eq_ok_iff.mpr ⟨_, writeName_eq hpredicate,
      bind_eq_ok_iff.mpr ⟨chainLines words chain 0 iris, ?_, rfl⟩⟩⟩
    rw [writeChain_eq words, (hiris iris).mpr hitems]
    rfl

/-- Other statements take no number. -/
theorem writeStatement_eq_of_not_takesChain {s : Statement} (h : takesChain s.object = false)
    (chain chain' : Nat) : writeStatement declared chain s = writeStatement declared chain' s := by
  obtain ⟨subject, predicate, _ | _ | _ | ⟨item, items⟩⟩ := s <;> first | rfl | cases h

/-- Whether a statement can be written does not depend on its number. -/
theorem writeStatement_isOk_congr {s : Statement} (chain chain' : Nat)
    (h : ∃ lines, writeStatement declared chain s = .ok lines) :
    ∃ lines, writeStatement declared chain' s = .ok lines := by
  obtain ⟨lines, h⟩ := h
  cases hs : takesChain s.object with
  | false => exact ⟨lines, writeStatement_eq_of_not_takesChain hs chain chain' ▸ h⟩
  | true =>
    obtain ⟨words, subject, predicate, iris, hsubject, hpredicate, hitems, -⟩ :=
      (writeStatement_chain_eq_ok_iff hs).mp h
    exact ⟨_, (writeStatement_chain_eq_ok_iff hs).mpr
      ⟨words, subject, predicate, iris, hsubject, hpredicate, hitems, rfl⟩⟩

/-! ### The lines of the statements -/

/-- The line is one of the statement's, if its list takes the given number. -/
def HasLine (declared : PrefixMap) (chain : Nat) (s : Statement) (l : Text) : Prop :=
  ∃ lines, writeStatement declared chain s = .ok lines ∧ l ∈ lines

theorem hasLine_iff {chain : Nat} {s : Statement} {lines : List Text}
    (h : writeStatement declared chain s = .ok lines) {l : Text} :
    HasLine declared chain s l ↔ l ∈ lines := by
  constructor
  · rintro ⟨lines', h', hl⟩
    cases h.symm.trans h'
    exact hl
  · exact fun hl => ⟨lines, h, hl⟩

theorem writeFrom_isOk_iff_forall (chain : Nat) {statements : List Statement} :
    (∃ lines, writeFrom declared chain statements = .ok lines) ↔
      ∀ s ∈ statements, ∃ lines, writeStatement declared 0 s = .ok lines := by
  induction statements generalizing chain with
  | nil => simp [writeFrom]
  | cons s rest ih =>
    rw [List.forall_mem_cons]
    have hhere : (∃ lines, writeStatement declared chain s = .ok lines) ↔
        ∃ lines, writeStatement declared 0 s = .ok lines :=
      ⟨writeStatement_isOk_congr chain 0, writeStatement_isOk_congr 0 chain⟩
    rw [← hhere]
    exact exists_bind_iff fun _ => exists_bind_pure_iff.trans (ih _)

/-- The statements whose lists take numbers, in the order of these. -/
def chains (statements : List Statement) : List Statement :=
  statements.filter fun s => takesChain s.object

/-- A line of the view is one of a statement without a chain, or one of the `i`-th chain's statement, written
with this number. -/
theorem mem_writeFrom {chain : Nat} {statements : List Statement} {lines : List Text}
    (h : writeFrom declared chain statements = .ok lines) {l : Text} :
    l ∈ lines ↔ (∃ s ∈ statements, takesChain s.object = false ∧ HasLine declared 0 s l) ∨
      ∃ i s, (chains statements)[i]? = some s ∧ HasLine declared (chain + i) s l := by
  induction statements generalizing chain lines with
  | nil =>
    cases h
    simp [chains]
  | cons s rest ih =>
    obtain ⟨here, hhere, h⟩ := bind_eq_ok_iff.mp h
    obtain ⟨more, hmore, h⟩ := bind_eq_ok_iff.mp h
    cases h
    rw [List.mem_append, ← hasLine_iff hhere, ih hmore, List.exists_mem_cons_iff]
    cases hs : takesChain s.object with
    | false =>
      have hchains : chains (s :: rest) = chains rest := List.filter_cons_of_neg (by simp [hs])
      have hzero : HasLine declared chain s l ↔ HasLine declared 0 s l := by
        rw [HasLine, HasLine, writeStatement_eq_of_not_takesChain hs chain 0]
      simp [hchains, hzero, or_assoc]
    | true =>
      have hchains : chains (s :: rest) = s :: chains rest := List.filter_cons_of_pos hs
      -- the first number is for the first statement
      have hnumbers : (∃ i t, (s :: chains rest)[i]? = some t ∧ HasLine declared (chain + i) t l) ↔
          HasLine declared chain s l ∨
            ∃ i t, (chains rest)[i]? = some t ∧ HasLine declared (chain + 1 + i) t l := by
        rw [← Nat.or_exists_add_one]
        simp [Nat.add_assoc, Nat.add_comm 1]
      rw [hchains, hnumbers]
      simp [or_left_comm]

/-! ### Reading the numbers off -/

/-- Texts are cut at the first separator. -/
theorem eq_of_append_cons {α : Type} [DecidableEq α] {a : α} {x x' z z' : List α} (hx : a ∉ x)
    (hx' : a ∉ x') (h : x ++ a :: z = x' ++ a :: z') : x = x' ∧ z = z' := by
  have hrun {x : List α} (hx : a ∉ x) : ∀ c ∈ x, (c != a) = true := fun c hc =>
    bne_iff_ne.mpr fun hca => hx (hca ▸ hc)
  have hspan := congrArg (List.span (· != a)) h
  rw [span_append (hrun hx) (by simp), span_append (hrun hx') (by simp)] at hspan
  simpa using hspan

theorem notMem_decimalDigits {c : CodePoint} (hc : Text.isAsciiDigit c = false) (n : Nat) :
    c ∉ Text.decimalDigits n := by
  intro hmem
  rw [Text.isAsciiDigit_of_mem_decimalDigits hmem] at hc
  cases hc

theorem line_chainNode (chain i : Nat) (p o : Text) : (line (chainNode chain i) p o).toList =
    ("_:list" : Text).toList ++ (Text.decimalDigits chain ++
      .char '_' :: (Text.decimalDigits i ++ .char ' ' :: (p ++ " " ++ o ++ " .").toList)) := by
  simp [line, chainNode]

theorem line_chainNode_inj {chain chain' i i' : Nat} {p p' o o' : Text}
    (h : line (chainNode chain i) p o = line (chainNode chain' i') p' o') :
    chain = chain' ∧ i = i' ∧ p ++ " " ++ o ++ " ." = p' ++ " " ++ o' ++ " ." := by
  have h := congrArg Text.toList h
  rw [line_chainNode, line_chainNode] at h
  obtain ⟨hchain, h⟩ := eq_of_append_cons (notMem_decimalDigits (by decide) _) (notMem_decimalDigits (by decide) _)
    (List.append_cancel_left h)
  obtain ⟨hi, h⟩ := eq_of_append_cons (notMem_decimalDigits (by decide) _) (notMem_decimalDigits (by decide) _) h
  exact ⟨Text.decimalDigits_inj hchain, Text.decimalDigits_inj hi, Text.toList_inj.mp h⟩

theorem ListWords.exists_namespace (words : ListWords declared) :
    ∃ ns, words.first = ns ++ "first" ∧ words.rest = ns ++ "rest" := by
  have hfirst := words.first_eq
  have hrest := words.rest_eq
  have hlabel : Name.label Vocabulary.first = "rdf" ∧ Name.label Vocabulary.rest = "rdf" := by
    decide +kernel
  have hlocal : Name.localPart Vocabulary.first = "first" ∧ Name.localPart Vocabulary.rest = "rest" := by
    decide +kernel
  rw [Name.expand_eq declared (by decide), hlabel.1, hlocal.1] at hfirst
  rw [Name.expand_eq declared (by decide), hlabel.2, hlocal.2] at hrest
  cases hns : declared.lookup ("rdf" : Text) with
  | none =>
    rw [hns] at hfirst
    cases hfirst
  | some ns =>
    rw [hns] at hfirst hrest
    exact ⟨ns, (Except.ok.inj hfirst).symm, (Except.ok.inj hrest).symm⟩

theorem ListWords.unique (words words' : ListWords declared) : words = words' := by
  obtain ⟨first, rest, nil, hfirst, hrest, hnil⟩ := words
  obtain ⟨first', rest', nil', hfirst', hrest', hnil'⟩ := words'
  cases hfirst.symm.trans hfirst'
  cases hrest.symm.trans hrest'
  cases hnil.symm.trans hnil'
  rfl

theorem firstLine_inj {words : ListWords declared} {chain chain' i i' : Nat} {iri iri' : Text} :
    firstLine words chain i iri = firstLine words chain' i' iri' ↔
      chain = chain' ∧ i = i' ∧ iri = iri' := by
  constructor
  · intro h
    obtain ⟨hchain, hi, h⟩ := line_chainNode_inj h
    refine ⟨hchain, hi, ?_⟩
    simpa [reference] using h
  · rintro ⟨rfl, rfl, rfl⟩
    rfl

theorem firstLine_ne_restLine {words : ListWords declared} {chain chain' i i' : Nat} {iri : Text}
    {isLast : Bool} : firstLine words chain i iri ≠ restLine words chain' i' isLast := by
  intro h
  obtain ⟨-, -, h⟩ := line_chainNode_inj h
  obtain ⟨ns, hfirst, hrest⟩ := words.exists_namespace
  simp [reference, hfirst, hrest, ← Text.toList_inj] at h

/-- The chain that the first line of a node belongs to, the node's place in it and what it holds can be read
off the line. -/
theorem mem_chainLines {words : ListWords declared} {chain j k i : Nat} {iris : List Text}
    {iri : Text} : firstLine words k i iri ∈ chainLines words chain j iris ↔
      k = chain ∧ ∃ n, i = j + n ∧ iris[n]? = some iri := by
  induction iris generalizing j with
  | nil => simp [chainLines]
  | cons first iris ih =>
    -- the node is the first one or among those that follow
    have hplaces : (∃ n, i = j + n ∧ (first :: iris)[n]? = some iri) ↔
        i = j ∧ iri = first ∨ ∃ n, i = j + 1 + n ∧ iris[n]? = some iri := by
      rw [← Nat.or_exists_add_one]
      simp [Nat.add_assoc, Nat.add_comm 1, eq_comm]
    rw [chainLines, List.mem_cons, List.mem_cons, firstLine_inj, ih, hplaces, and_or_left]
    simp [firstLine_ne_restLine]

/-- A statement without a chain is one line, which begins with its subject. -/
theorem exists_of_writeStatement {chain : Nat} {s : Statement} (hs : takesChain s.object = false)
    {lines : List Text} (h : writeStatement declared chain s = .ok lines) :
    ∃ subject predicate o, Name.expand declared s.subject = .ok subject ∧
      Name.expand declared s.predicate = .ok predicate ∧
      ((∃ n ∈ termNames s.object, writeName declared n = .ok o) ∨
        ∃ l, s.object = .literal l ∧ writeLiteral declared l = .ok o) ∧
      lines = [line (reference subject) (reference predicate) o] := by
  obtain ⟨_, hwritten, h⟩ := bind_eq_ok_iff.mp h
  obtain ⟨subject, hsubject, rfl⟩ := exists_of_writeName hwritten
  obtain ⟨_, hwritten, h⟩ := bind_eq_ok_iff.mp h
  obtain ⟨predicate, hpredicate, rfl⟩ := exists_of_writeName hwritten
  refine ⟨subject, predicate, ?_⟩
  obtain ⟨_, _, n | l | _ | ⟨item, items⟩⟩ := s
  · obtain ⟨o, ho, h⟩ := bind_eq_ok_iff.mp h
    cases h
    exact ⟨o, hsubject, hpredicate, .inl ⟨n, List.mem_singleton_self n, ho⟩, rfl⟩
  · obtain ⟨o, ho, h⟩ := bind_eq_ok_iff.mp h
    cases h
    exact ⟨o, hsubject, hpredicate, .inr ⟨l, rfl, ho⟩, rfl⟩
  · obtain ⟨o, ho, h⟩ := bind_eq_ok_iff.mp h
    cases h
    exact ⟨o, hsubject, hpredicate, .inl ⟨_, List.mem_singleton_self _, ho⟩, rfl⟩
  · cases hs

theorem hasLine_firstLine_iff {words : ListWords declared} {chain k i : Nat} {iri : Text} {s : Statement}
    (hok : ∃ lines, writeStatement declared chain s = .ok lines) :
    HasLine declared chain s (firstLine words k i iri) ↔
      takesChain s.object = true ∧ k = chain ∧ (s.object.identifiers declared)[i]? = some (.ok iri) := by
  -- lines of other statements begin with an identifier, not with a node
  have hsubject (subject p o : Text) : firstLine words k i iri ≠ line (reference subject) p o := by
    intro h
    simp [firstLine, line, reference, chainNode, ← Text.toList_inj] at h
  obtain ⟨lines, hlines⟩ := hok
  rw [hasLine_iff hlines]
  cases hs : takesChain s.object with
  | true =>
    obtain ⟨words', subject, predicate, iris, -, -, hitems, rfl⟩ :=
      (writeStatement_chain_eq_ok_iff hs).mp hlines
    rw [words'.unique words, List.mem_cons, mem_chainLines, hitems, List.getElem?_map]
    simp [hsubject]
  | false =>
    obtain ⟨subject, predicate, o, -, -, -, rfl⟩ := exists_of_writeStatement hs hlines
    simp [hsubject]

/-- The identifiers of the chain with a given number, as they can be read off the lines of the view. -/
theorem firstLine_mem_writeFrom_iff {statements : List Statement} {lines : List Text}
    (h : writeFrom declared 0 statements = .ok lines) (words : ListWords declared) (k i : Nat)
    (iri : Text) : firstLine words k i iri ∈ lines ↔
      ∃ s, (chains statements)[k]? = some s ∧ (s.object.identifiers declared)[i]? = some (.ok iri) := by
  have hok := (writeFrom_isOk_iff_forall 0).mp ⟨lines, h⟩
  rw [mem_writeFrom h]
  constructor
  · rintro (⟨s, hs, hchain, hl⟩ | ⟨n, s, hs, hl⟩)
    · rw [hasLine_firstLine_iff (hok s hs), hchain] at hl
      cases hl.1
    · have hmem := List.mem_filter.mp (List.mem_of_getElem? hs)
      rw [hasLine_firstLine_iff (writeStatement_isOk_congr 0 _ (hok s hmem.1)), Nat.zero_add] at hl
      exact ⟨s, hl.2.1 ▸ hs, hl.2.2⟩
  · rintro ⟨s, hs, hi⟩
    have hmem := List.mem_filter.mp (List.mem_of_getElem? hs)
    refine .inr ⟨k, s, hs, ?_⟩
    rw [hasLine_firstLine_iff (writeStatement_isOk_congr 0 _ (hok s hmem.1)), Nat.zero_add]
    exact ⟨hmem.2, rfl, hi⟩

end NTriples

end Ontogram

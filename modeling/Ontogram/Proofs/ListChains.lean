/-
Lists in the flat view.

A list with items becomes a chain of nodes. The lines of all statements go into one set, where those that are the
same text become one, and are sorted as text. Still each chain can be followed from its first node to its end:

* `IsLine` — the lines of statements with numbered lists, told without the writer;
* `isLine_iff_mem_writeFrom` — the writer writes these lines and no others;
* `isLine_hasSubject_iff`, `isLine_hasObject_iff` — which lines begin and end with a node;
* `follows_placeAt_iff` — what is found from a place of a chain on;
* `lists_encoded` — the text of statements whose names are declared encodes them (`IsEncoding`).
-/
import Ontogram.Proofs.ChainNumbers
import Ontogram.Proofs.LineSpelling
namespace Ontogram

open NTriples (Triple)
open Traversal (bind_eq_ok_iff)

/-- Every name of the statement stands for an identifier. -/
def Statement.IsNamed (declared : PrefixMap) (s : Statement) : Prop :=
  ∀ n ∈ s.names, ∃ iri, Name.expand declared n = .ok iri

/-- A list denotes no triple. -/
theorem Statement.Denotes.ne_list {declared : PrefixMap} {s : Statement} {t : Triple}
    (h : s.Denotes declared t) (items : List Text) : s.object ≠ .list items := by
  intro hlist
  have hobject := h.object
  rw [hlist] at hobject
  cases hobject

namespace NTriples

variable {declared : PrefixMap}

/-! ### The lines of statements -/

/-- The `i`-th place of a chain of `n` items: a node or, behind the last one, the word for no list. -/
def placeAt (words : ListWords declared) (chain n i : Nat) : Text :=
  if i < n then chainNode chain i else reference words.nil

/-- The lines of statements, of which the lists with items are numbered as they are given. -/
inductive IsLine (words : ListWords declared) (statements numbered : List Statement) : Text → Prop
  /-- A statement of a name or a literal is the line of its triple. -/
  | plain {s : Statement} {t : Triple} (hs : s ∈ statements) (ht : s.Denotes declared t) :
      IsLine words statements numbered (Text.ofList (spell t))
  /-- A list without items is the word for it. -/
  | nil {s : Statement} {subject predicate : Text} (hs : s ∈ statements) (hlist : s.object = .list [])
      (hsubject : Name.expand declared s.subject = .ok subject)
      (hpredicate : Name.expand declared s.predicate = .ok predicate) :
      IsLine words statements numbered
        (line (reference subject) (reference predicate) (reference words.nil))
  /-- A list with items is the first node of its chain. -/
  | head {s : Statement} {k : Nat} {subject predicate : Text} (hs : numbered[k]? = some s)
      (hsubject : Name.expand declared s.subject = .ok subject)
      (hpredicate : Name.expand declared s.predicate = .ok predicate) :
      IsLine words statements numbered (line (reference subject) (reference predicate) (chainNode k 0))
  /-- A node holds the item of its place. -/
  | first {s : Statement} {k i : Nat} {iri : Text} (hs : numbered[k]? = some s)
      (hitem : (s.object.identifiers declared)[i]? = some (.ok iri)) :
      IsLine words statements numbered
        (line (chainNode k i) (reference words.first) (reference iri))
  /-- A node leads to the next place. -/
  | rest {s : Statement} {k i : Nat} {iri : Text} (hs : numbered[k]? = some s)
      (hitem : (s.object.identifiers declared)[i]? = some (.ok iri)) :
      IsLine words statements numbered
        (line (chainNode k i) (reference words.rest)
          (placeAt words k (s.object.identifiers declared).length (i + 1)))

/-- From a node on the lines lead through nodes that hold the identifiers to the word for no list. -/
inductive Follows (words : ListWords declared) (lines : List Text) : Text → List Text → Prop
  | done : Follows words lines (reference words.nil) []
  | step {node next iri : Text} {iris : List Text} (hnode : node ≠ reference words.nil)
      (hfirst : line node (reference words.first) (reference iri) ∈ lines)
      (hrest : line node (reference words.rest) next ∈ lines)
      (hmore : Follows words lines next iris) : Follows words lines node (iri :: iris)

/-- The node stands at the beginning of the line. -/
def HasSubject (node l : Text) : Prop := ∃ p o, l = line node p o

/-- The node stands at the end of the line. -/
def HasObject (node l : Text) : Prop := ∃ a p, l = line a p node

/-- The node is one of the chain that the statement's list takes. -/
def Owns (declared : PrefixMap) (numbered : List Statement) (s : Statement) (node : Text) : Prop :=
  ∃ k i, numbered[k]? = some s ∧ i < (s.object.identifiers declared).length ∧ node = chainNode k i

/-- The language of no literal has a blank. -/
def HasPlainLanguages (statements : List Statement) : Prop :=
  ∀ s ∈ statements, ∀ l, s.object = .literal l → .char ' ' ∉ (l.language.getD "").toList

/-- The lines encode the statements, of which the lists with items are numbered as they are given. -/
structure IsEncoding (words : ListWords declared) (statements numbered : List Statement)
    (lines : List Text) : Prop where
  /-- The lines do not repeat and stand in code-point order. -/
  sorted : lines.Pairwise (· < ·)
  /-- The statements of lists with items have one number each. -/
  numbers : ∀ s, s ∈ statements ∧ takesChain s.object = true ↔ ∃! k : Nat, numbered[k]? = some s
  /-- The numbers follow the order of the statements. -/
  ordered : numbered.Pairwise fun s t => s.key ≤ t.key
  /-- A statement of a name or a literal has one line. -/
  plain : ∀ s ∈ statements, (∀ items, s.object ≠ .list items) → ∃! t, s.Denotes declared t
  /-- There are the lines of the statements and no others; statements that are the same text share their line. -/
  mem_iff : ∀ l, l ∈ lines ↔ IsLine words statements numbered l
  /-- A node begins one line for its item and one for the next place. -/
  nodes : ∀ k i l, l ∈ lines ∧ HasSubject (chainNode k i) l ↔
    ∃ s iri, numbered[k]? = some s ∧ (s.object.identifiers declared)[i]? = some (.ok iri) ∧
      (l = line (chainNode k i) (reference words.first) (reference iri) ∨
        l = line (chainNode k i) (reference words.rest)
          (placeAt words k (s.object.identifiers declared).length (i + 1)))
  /-- Chains have no node in common. -/
  disjoint : ∀ s t node, Owns declared numbered s node → Owns declared numbered t node → s = t
  /-- Nothing but its own statement leads to a chain. -/
  heads : HasPlainLanguages statements → ∀ k l, l ∈ lines ∧ HasObject (chainNode k 0) l ↔
    ∃ s subject predicate, numbered[k]? = some s ∧ Name.expand declared s.subject = .ok subject ∧
      Name.expand declared s.predicate = .ok predicate ∧
      l = line (reference subject) (reference predicate) (chainNode k 0)
  /-- Following a chain finds the items of its statement in their order and comes to an end. -/
  follows : ∀ k s, numbered[k]? = some s → ∃ iris, s.object.identifiers declared = iris.map .ok ∧
    ∀ found, Follows words lines (chainNode k 0) found ↔ found = iris

/-! ### What the writer writes -/

theorem restLine_eq {words : ListWords declared} {k i n : Nat} :
    restLine words k i (decide (n ≤ i + 1)) =
      line (chainNode k i) (reference words.rest) (placeAt words k n (i + 1)) := by
  by_cases h : n ≤ i + 1
  · simp [restLine, placeAt, h, Nat.not_lt.mpr h]
  · simp [restLine, placeAt, h, Nat.lt_of_not_le h]

/-- The places of a list are the first one and those of the rest. -/
theorem exists_getElem?_cons {α : Type} {x : α} {xs : List α} {P : Nat → α → Prop} :
    (∃ i y, (x :: xs)[i]? = some y ∧ P i y) ↔ P 0 x ∨ ∃ i y, xs[i]? = some y ∧ P (i + 1) y := by
  rw [← Nat.or_exists_add_one]
  simp

theorem mem_chainLines_iff {words : ListWords declared} {k j : Nat} {iris : List Text} {l : Text} :
    l ∈ chainLines words k j iris ↔ ∃ i iri, iris[i]? = some iri ∧
      (l = firstLine words k (j + i) iri ∨
        l = restLine words k (j + i) (decide (iris.length ≤ i + 1))) := by
  induction iris generalizing j with
  | nil => simp [chainLines]
  | cons first iris ih =>
    have hlast : iris.isEmpty = decide ((first :: iris).length ≤ 0 + 1) := by
      cases iris <;> simp
    rw [chainLines, List.mem_cons, List.mem_cons, ih, exists_getElem?_cons, hlast, ← or_assoc]
    simp [Nat.add_assoc, Nat.add_comm 1]

theorem hasLine_plain_iff {chain : Nat} {s : Statement} (hlist : ∀ items, s.object ≠ .list items)
    {l : Text} : HasLine declared chain s l ↔ ∃ t, s.Denotes declared t ∧ l = Text.ofList (spell t) := by
  constructor
  · rintro ⟨lines, hlines, hl⟩
    obtain ⟨t, ht, rfl⟩ := (writeStatement_eq_ok_iff hlist).mp hlines
    exact ⟨t, ht, List.mem_singleton.mp hl⟩
  · rintro ⟨t, ht, rfl⟩
    exact ⟨_, (writeStatement_eq_ok_iff hlist).mpr ⟨t, ht, rfl⟩, List.mem_singleton_self _⟩

theorem hasLine_nil_iff (words : ListWords declared) {chain : Nat} {s : Statement}
    (hlist : s.object = .list []) {l : Text} :
    HasLine declared chain s l ↔ ∃ subject predicate, Name.expand declared s.subject = .ok subject ∧
      Name.expand declared s.predicate = .ok predicate ∧
      l = line (reference subject) (reference predicate) (reference words.nil) := by
  obtain ⟨subject, predicate, _⟩ := s
  subst hlist
  constructor
  · rintro ⟨lines, hlines, hl⟩
    obtain ⟨_, hwritten, h⟩ := bind_eq_ok_iff.mp hlines
    obtain ⟨subject, hsubject, rfl⟩ := exists_of_writeName hwritten
    obtain ⟨_, hwritten, h⟩ := bind_eq_ok_iff.mp h
    obtain ⟨predicate, hpredicate, rfl⟩ := exists_of_writeName hwritten
    obtain ⟨_, hnil, h⟩ := bind_eq_ok_iff.mp h
    cases h
    cases (writeName_eq words.nil_eq).symm.trans hnil
    exact ⟨subject, predicate, hsubject, hpredicate, List.mem_singleton.mp hl⟩
  · rintro ⟨_, _, hsubject, hpredicate, rfl⟩
    exact ⟨_, bind_eq_ok_iff.mpr ⟨_, writeName_eq hsubject, bind_eq_ok_iff.mpr ⟨_, writeName_eq hpredicate,
      bind_eq_ok_iff.mpr ⟨_, writeName_eq words.nil_eq, rfl⟩⟩⟩, List.mem_singleton_self _⟩

theorem hasLine_chain_iff (words : ListWords declared) {k : Nat} {s : Statement}
    (hs : takesChain s.object = true) (hok : ∃ lines, writeStatement declared 0 s = .ok lines) {l : Text} :
    HasLine declared k s l ↔
      (∃ subject predicate, Name.expand declared s.subject = .ok subject ∧
        Name.expand declared s.predicate = .ok predicate ∧
        l = line (reference subject) (reference predicate) (chainNode k 0)) ∨
      ∃ i iri, (s.object.identifiers declared)[i]? = some (.ok iri) ∧
        (l = line (chainNode k i) (reference words.first) (reference iri) ∨
          l = line (chainNode k i) (reference words.rest)
            (placeAt words k (s.object.identifiers declared).length (i + 1))) := by
  obtain ⟨lines, hlines⟩ := writeStatement_isOk_congr 0 k hok
  obtain ⟨words', subject, predicate, iris, hsubject, hpredicate, hitems, rfl⟩ :=
    (writeStatement_chain_eq_ok_iff hs).mp hlines
  rw [hasLine_iff hlines, words'.unique words, List.mem_cons, mem_chainLines_iff]
  simp [hsubject, hpredicate, hitems, restLine_eq, firstLine]

theorem takesChain_eq_false_iff {o : Term} :
    takesChain o = false ↔ (∀ items, o ≠ .list items) ∨ o = .list [] := by
  obtain _ | _ | _ | ⟨item, items⟩ := o <;> simp [takesChain]

/-- The lines of the view are the lines of the statements. -/
theorem isLine_iff_mem_writeFrom (words : ListWords declared) {statements : List Statement}
    {lines : List Text} (h : writeFrom declared 0 (Statement.sort statements) = .ok lines) {l : Text} :
    IsLine words statements (chains (Statement.sort statements)) l ↔ l ∈ lines := by
  have hok := (writeFrom_isOk_iff_forall 0).mp ⟨lines, h⟩
  -- a statement with a number is written as a head and a chain
  have hchain {k : Nat} {s : Statement} (hs : (chains (Statement.sort statements))[k]? = some s)
      (l : Text) :=
    have hmem := List.mem_filter.mp (List.mem_of_getElem? hs)
    hasLine_chain_iff words (k := k) (l := l) hmem.2 (hok s hmem.1)
  simp only [mem_writeFrom h, Nat.zero_add]
  constructor
  · rintro (⟨hs, ht⟩ | ⟨hs, hlist, hsubject, hpredicate⟩ | ⟨hs, hsubject, hpredicate⟩ | ⟨hs, hitem⟩ |
      ⟨hs, hitem⟩)
    · exact .inl ⟨_, Statement.mem_sort.mpr hs, takesChain_eq_false_iff.mpr (.inl ht.ne_list),
        (hasLine_plain_iff ht.ne_list).mpr ⟨_, ht, rfl⟩⟩
    · exact .inl ⟨_, Statement.mem_sort.mpr hs, takesChain_eq_false_iff.mpr (.inr hlist),
        (hasLine_nil_iff words hlist).mpr ⟨_, _, hsubject, hpredicate, rfl⟩⟩
    · exact .inr ⟨_, _, hs, (hchain hs _).mpr (.inl ⟨_, _, hsubject, hpredicate, rfl⟩)⟩
    · exact .inr ⟨_, _, hs, (hchain hs _).mpr (.inr ⟨_, _, hitem, .inl rfl⟩)⟩
    · exact .inr ⟨_, _, hs, (hchain hs _).mpr (.inr ⟨_, _, hitem, .inr rfl⟩)⟩
  · rintro (⟨s, hs, hplain, hl⟩ | ⟨k, s, hs, hl⟩)
    · rcases takesChain_eq_false_iff.mp hplain with hlist | hlist
      · obtain ⟨t, ht, rfl⟩ := (hasLine_plain_iff hlist).mp hl
        exact .plain (Statement.mem_sort.mp hs) ht
      · obtain ⟨subject, predicate, hsubject, hpredicate, rfl⟩ := (hasLine_nil_iff words hlist).mp hl
        exact .nil (Statement.mem_sort.mp hs) hlist hsubject hpredicate
    · rcases (hchain hs l).mp hl with ⟨subject, predicate, hsubject, hpredicate, rfl⟩ |
        ⟨i, iri, hitem, rfl | rfl⟩
      · exact .head hs hsubject hpredicate
      · exact .first hs hitem
      · exact .rest hs hitem

/-! ### What the lines show -/

theorem chainNode_inj {k k' i i' : Nat} (h : chainNode k i = chainNode k' i') : k = k' ∧ i = i' := by
  have hline : line (chainNode k i) "" "" = line (chainNode k' i') "" "" := by rw [h]
  obtain ⟨hk, hi, -⟩ := line_chainNode_inj hline
  exact ⟨hk, hi⟩

theorem chainNode_ne_reference {k i : Nat} {iri : Text} : chainNode k i ≠ reference iri := by
  intro h
  simp [chainNode, reference, ← Text.toList_inj] at h

/-- No identifier begins a line that a node begins. -/
theorem not_hasSubject_chainNode {k i : Nat} {subject p o : Text} :
    ¬ HasSubject (chainNode k i) (line (reference subject) p o) := by
  rintro ⟨p', o', h⟩
  simp [line, chainNode, reference, ← Text.toList_inj] at h

/-- The line of a triple begins with the identifiers of its subject and predicate. -/
theorem exists_line_of_denotes {s : Statement} {t : Triple} (h : s.Denotes declared t) :
    ∃ subject predicate, Text.ofList (spell t) =
      line (reference subject) (reference predicate) (Text.ofList (spellNode t.object)) := by
  obtain ⟨_, _, o⟩ := t
  obtain ⟨@⟨_, subject, -⟩, @⟨_, predicate, -⟩, -⟩ := h
  exact ⟨subject, predicate, by simp [spell, spellNode, line, reference, ← Text.toList_inj]⟩

/-- The lines that a node begins are its own. -/
theorem isLine_hasSubject_iff {words : ListWords declared} {statements numbered : List Statement}
    {k i : Nat} {l : Text} :
    IsLine words statements numbered l ∧ HasSubject (chainNode k i) l ↔
      ∃ s iri, numbered[k]? = some s ∧ (s.object.identifiers declared)[i]? = some (.ok iri) ∧
        (l = line (chainNode k i) (reference words.first) (reference iri) ∨
          l = line (chainNode k i) (reference words.rest)
            (placeAt words k (s.object.identifiers declared).length (i + 1))) := by
  constructor
  · -- the lines of statements begin with identifiers; the number and the place are read off the others
    rintro ⟨⟨hs, ht⟩ | ⟨hs, hlist, hsubject, hpredicate⟩ | ⟨hs, hsubject, hpredicate⟩ | ⟨hs, hitem⟩ |
      ⟨hs, hitem⟩, hnode⟩
    · obtain ⟨subject, predicate, hline⟩ := exists_line_of_denotes ht
      exact absurd (hline ▸ hnode) not_hasSubject_chainNode
    · exact absurd hnode not_hasSubject_chainNode
    · exact absurd hnode not_hasSubject_chainNode
    · obtain ⟨p, o, h⟩ := hnode
      obtain ⟨rfl, rfl, -⟩ := line_chainNode_inj h
      exact ⟨_, _, hs, hitem, .inl rfl⟩
    · obtain ⟨p, o, h⟩ := hnode
      obtain ⟨rfl, rfl, -⟩ := line_chainNode_inj h
      exact ⟨_, _, hs, hitem, .inr rfl⟩
  · rintro ⟨s, iri, hs, hitem, rfl | rfl⟩
    · exact ⟨.first hs hitem, _, _, rfl⟩
    · exact ⟨.rest hs hitem, _, _, rfl⟩

/-- Texts are cut at a mark if neither has the other's mark behind its own. -/
theorem eq_of_append_cons_of_notMem {α : Type} {a b : α} {before before' after after' : List α}
    (h : before ++ a :: after = before' ++ b :: after') (ha : a ∉ after') (hb : b ∉ after) :
    a = b ∧ after = after' := by
  rcases List.append_eq_append_iff.mp h with ⟨_ | ⟨c, more⟩, -, h⟩ | ⟨_ | ⟨c, more⟩, -, h⟩
  · exact List.cons.inj h
  · exact absurd (List.mem_append_right more List.mem_cons_self) ((List.cons.inj h).2 ▸ hb)
  · obtain ⟨rfl, rfl⟩ := List.cons.inj h
    exact ⟨rfl, rfl⟩
  · exact absurd (List.mem_append_right more List.mem_cons_self) ((List.cons.inj h).2 ▸ ha)

theorem notMem_chainNode {c : CodePoint} (hdigit : Text.isAsciiDigit c = false) (hword : c ∉ ("_:list" : Text).toList)
    (k i : Nat) :
    c ∉ (chainNode k i).toList := by
  have hunderscore : c ≠ '_' := fun h => hword (h ▸ by simp)
  have hdigits := notMem_decimalDigits hdigit
  have htext : (chainNode k i).toList =
      ("_:list" : Text).toList ++ (Text.decimalDigits k ++ .char '_' :: Text.decimalDigits i) := by
    simp [chainNode]
  rw [htext]
  simp only [List.mem_append, List.mem_cons, not_or]
  exact ⟨hword, hdigits k, hunderscore, hdigits i⟩

theorem line_toList (a p o : Text) :
    (line a p o).toList = (a.toList ++ .char ' ' :: p.toList) ++ .char ' ' :: o.toList ++ [.char ' ', .char '.'] := by
  simp [line]

/-- What ends with a bracket, a quote or a tag is no node. -/
theorem not_hasObject_of_end {k i : Nat} {a p o : Text} {before after : List CodePoint} {c : CodePoint}
    (ho : o.toList = before ++ c :: after) (hc : c ∈ [.char '>', .char '"', .char '@']) (hafter : .char ' ' ∉ after) :
    ¬ HasObject (chainNode k i) (line a p o) := by
  rintro ⟨a', p', h⟩
  have h := congrArg Text.toList h
  rw [line_toList, line_toList, ho, ← List.cons_append, ← List.append_assoc] at h
  have hnode : c ∉ (chainNode k i).toList := by
    simp only [List.mem_cons, List.not_mem_nil, or_false] at hc
    rcases hc with rfl | rfl | rfl <;> exact notMem_chainNode (by decide) (by decide) k i
  obtain ⟨rfl, -⟩ := eq_of_append_cons_of_notMem (List.append_cancel_right h) hnode hafter
  simp at hc

theorem not_hasObject_reference {k i : Nat} {a p iri : Text} :
    ¬ HasObject (chainNode k i) (line a p (reference iri)) := by
  have hend : (reference iri).toList = .char '<' :: iri.toList ++ .char '>' :: [] := by simp [reference]
  exact not_hasObject_of_end hend (by simp) List.not_mem_nil

theorem hasObject_chainNode {k k' i i' : Nat} {a p : Text}
    (h : HasObject (chainNode k i) (line a p (chainNode k' i'))) : k' = k ∧ i' = i := by
  obtain ⟨a', p', h⟩ := h
  have h := congrArg Text.toList h
  rw [line_toList, line_toList] at h
  have hblank := notMem_chainNode (c := ' ') (by decide) (by decide)
  obtain ⟨-, h⟩ := eq_of_append_cons_of_notMem (List.append_cancel_right h) (hblank k i) (hblank k' i')
  exact chainNode_inj (Text.toList_inj.mp h)

/-- The object of a triple ends with a bracket, a quote or a tag. -/
theorem exists_end_of_denotes {o : Term} {node : Node} (h : o.Denotes declared node)
    (hlanguage : ∀ l, o = .literal l → .char ' ' ∉ (l.language.getD "").toList) :
    ∃ before c after, spellNode node = before ++ c :: after ∧ c ∈ [.char '>', .char '"', .char '@'] ∧
      .char ' ' ∉ after := by
  cases h with
  | @name n iri => exact ⟨.char '<' :: iri.toList, .char '>', [], rfl, by simp, List.not_mem_nil⟩
  | @tagged l tag htag =>
    refine ⟨.char '"' :: escapeChars l.value.toList ++ [.char '"'], .char '@', tag.toList,
      by simp [spellNode, spellSuffix],
      by simp, ?_⟩
    have hblank := hlanguage l rfl
    rwa [nonempty_eq_some htag, Option.getD_some] at hblank
  | @typed l n iri =>
    exact ⟨.char '"' :: escapeChars l.value.toList ++ .char '"' :: .char '^' :: .char '^' :: .char '<' :: iri.toList,
      .char '>', [],
      by simp [spellNode, spellSuffix], by simp, List.not_mem_nil⟩
  | @plain l =>
    exact ⟨.char '"' :: escapeChars l.value.toList, .char '"', [], by simp [spellNode, spellSuffix], by simp,
      List.not_mem_nil⟩

/-- Only the statement of a list leads to its chain. -/
theorem isLine_hasObject_iff {words : ListWords declared} {statements numbered : List Statement}
    (hlanguages : HasPlainLanguages statements) {k : Nat} {l : Text} :
    IsLine words statements numbered l ∧ HasObject (chainNode k 0) l ↔
      ∃ s subject predicate, numbered[k]? = some s ∧ Name.expand declared s.subject = .ok subject ∧
        Name.expand declared s.predicate = .ok predicate ∧
        l = line (reference subject) (reference predicate) (chainNode k 0) := by
  constructor
  · rintro ⟨⟨hs, ht⟩ | ⟨hs, hlist, hsubject, hpredicate⟩ | ⟨hs, hsubject, hpredicate⟩ | ⟨hs, hitem⟩ |
      ⟨hs, hitem⟩, hnode⟩
    · obtain ⟨subject, predicate, hline⟩ := exists_line_of_denotes ht
      obtain ⟨before, c, after, hend, hc, hafter⟩ := exists_end_of_denotes ht.object (hlanguages _ hs)
      exact absurd (hline ▸ hnode) (not_hasObject_of_end (by rw [Text.toList_ofList, hend]) hc hafter)
    · exact absurd hnode not_hasObject_reference
    · obtain ⟨rfl, -⟩ := hasObject_chainNode hnode
      exact ⟨_, _, _, hs, hsubject, hpredicate, rfl⟩
    · exact absurd hnode not_hasObject_reference
    · -- no node leads back to the first one
      unfold placeAt at hnode
      split at hnode
      · obtain ⟨-, hi⟩ := hasObject_chainNode hnode
        cases hi
      · exact absurd hnode not_hasObject_reference
  · rintro ⟨s, subject, predicate, hs, hsubject, hpredicate, rfl⟩
    exact ⟨.head hs hsubject hpredicate, _, _, rfl⟩

/-! ### Following a chain -/

theorem line_right_inj {a p o o' : Text} : line a p o = line a p o' ↔ o = o' := by
  simp [line]

/-- Words for first and rest are told apart, whatever follows them. -/
theorem line_first_ne_line_rest {words : ListWords declared} {k k' i i' : Nat} {o o' : Text} :
    line (chainNode k i) (reference words.first) o ≠ line (chainNode k' i') (reference words.rest) o' := by
  intro h
  obtain ⟨-, -, h⟩ := line_chainNode_inj h
  obtain ⟨ns, hfirst, hrest⟩ := words.exists_namespace
  simp [reference, hfirst, hrest, ← Text.toList_inj] at h

section Chain

variable {words : ListWords declared} {lines : List Text} {k : Nat} {iris : List Text}
  (hfirst : ∀ i o, line (chainNode k i) (reference words.first) o ∈ lines ↔
    ∃ iri, iris[i]? = some iri ∧ o = reference iri)
  (hrest : ∀ i o, line (chainNode k i) (reference words.rest) o ∈ lines ↔
    i < iris.length ∧ o = placeAt words k iris.length (i + 1))

include hfirst hrest

/-- From each place of a chain on the items are found that stand behind it. -/
theorem follows_placeAt_iff {i : Nat} {found : List Text} :
    Follows words lines (placeAt words k iris.length i) found ↔ found = iris.drop i := by
  induction found generalizing i with
  | nil =>
    -- nothing is found at the end, and at a node there is something
    rw [eq_comm, List.drop_eq_nil_iff, placeAt]
    constructor
    · intro h
      by_contra hlt
      rw [if_pos (Nat.lt_of_not_le hlt)] at h
      generalize hnode : chainNode k i = node at h
      cases h
      exact chainNode_ne_reference hnode
    · intro hle
      rw [if_neg (Nat.not_lt.mpr hle)]
      exact .done
  | cons iri found ih =>
    constructor
    · intro h
      by_cases hi : i < iris.length
      · -- both lines of the node are settled, so there is one way to go on
        rw [placeAt, if_pos hi] at h
        obtain _ | ⟨-, hheld, hnext, hmore⟩ := h
        obtain ⟨iri', hiri', hsame⟩ := (hfirst i _).mp hheld
        obtain ⟨-, rfl⟩ := (hrest i _).mp hnext
        obtain rfl : iri = iri' := by simpa [reference] using hsame
        obtain ⟨_, rfl⟩ := List.getElem?_eq_some_iff.mp hiri'
        rw [List.drop_eq_getElem_cons hi, ih.mp hmore]
      · rw [placeAt, if_neg hi] at h
        obtain _ | ⟨hnode, -, -, -⟩ := h
        exact absurd rfl hnode
    · intro h
      have hi : i < iris.length := by
        by_contra hle
        rw [List.drop_eq_nil_of_le (Nat.not_lt.mp hle)] at h
        cases h
      rw [List.drop_eq_getElem_cons hi] at h
      obtain ⟨rfl, hfound⟩ := List.cons.inj h
      rw [placeAt, if_pos hi]
      exact .step chainNode_ne_reference ((hfirst i _).mpr ⟨_, List.getElem?_eq_getElem hi, rfl⟩)
        ((hrest i _).mpr ⟨hi, rfl⟩) (ih.mpr hfound)

end Chain

/-! ### Named statements -/

theorem listWords_of_has (h : Assoc.has declared "rdf" = true) : Nonempty (ListWords declared) := by
  have hword (name : Text) (hname : Name.IsQualified name) (hlabel : Name.label name = "rdf") :
      ∃ iri, Name.expand declared name = .ok iri :=
    (Name.expand_isOk_iff declared hname).mpr (hlabel ▸ h)
  obtain ⟨first, hfirst⟩ := hword Vocabulary.first (by decide) (by decide +kernel)
  obtain ⟨rest, hrest⟩ := hword Vocabulary.rest (by decide) (by decide +kernel)
  obtain ⟨nil, hnil⟩ := hword Vocabulary.nil (by decide) (by decide +kernel)
  exact ⟨⟨first, rest, nil, hfirst, hrest, hnil⟩⟩

section Named

variable {s : Statement} (h : s.IsNamed declared)

include h

theorem existsUnique_denotes (hlist : ∀ items, s.object ≠ .list items) :
    ∃! t, s.Denotes declared t := by
  obtain ⟨subject, predicate, object⟩ := s
  obtain ⟨hsubject, h⟩ := List.forall_mem_cons.mp h
  obtain ⟨hpredicate, hobject⟩ := List.forall_mem_cons.mp h
  obtain ⟨subject', hsubject⟩ := hsubject
  obtain ⟨predicate', hpredicate⟩ := hpredicate
  have hnode : ∃ node, object.Denotes declared node := by
    cases object with
    | name n =>
      obtain ⟨iri, hiri⟩ := hobject n (List.mem_singleton_self n)
      exact ⟨_, .name hiri⟩
    | literal l =>
      cases hlanguage : nonempty l.language with
      | some tag => exact ⟨_, .tagged hlanguage⟩
      | none =>
        cases hdatatype : nonempty l.datatype with
        | none => exact ⟨_, .plain hlanguage hdatatype⟩
        | some n =>
          obtain ⟨iri, hiri⟩ := hobject n (Option.mem_toList.mpr hdatatype)
          exact ⟨_, .typed hlanguage hdatatype hiri⟩
    | list items => exact absurd rfl (hlist items)
  obtain ⟨node, hnode⟩ := hnode
  exact ⟨⟨.iri subject', .iri predicate', node⟩, ⟨.name hsubject, .name hpredicate, hnode⟩,
    fun _ ht => ht.unique ⟨.name hsubject, .name hpredicate, hnode⟩⟩

theorem exists_identifiers : ∃ iris : List Text, s.object.identifiers declared = iris.map .ok := by
  obtain ⟨subject, predicate, _ | _ | items⟩ := s
  · exact ⟨[], rfl⟩
  · exact ⟨[], rfl⟩
  · obtain ⟨iris, hiris⟩ := Traversal.exists_forall₂ (List.forall_mem_cons.mp (List.forall_mem_cons.mp h).2).2
    refine ⟨iris, ?_⟩
    rw [Term.identifiers, ← List.forall₂_eq_eq_eq, List.forall₂_map_left_iff, List.forall₂_map_right_iff]
    exact hiris

theorem writeStatement_isOk (words : ListWords declared) :
    ∃ lines, writeStatement declared 0 s = .ok lines := by
  obtain ⟨subject, hsubject⟩ := h s.subject List.mem_cons_self
  obtain ⟨predicate, hpredicate⟩ := h s.predicate (List.mem_cons_of_mem _ List.mem_cons_self)
  cases hs : takesChain s.object with
  | true =>
    obtain ⟨iris, hiris⟩ := exists_identifiers h
    exact ⟨_, (writeStatement_chain_eq_ok_iff hs).mpr
      ⟨words, subject, predicate, iris, hsubject, hpredicate, hiris, rfl⟩⟩
  | false =>
    rcases takesChain_eq_false_iff.mp hs with hlist | hlist
    · obtain ⟨t, ht, -⟩ := existsUnique_denotes h hlist
      exact ⟨_, (writeStatement_eq_ok_iff hlist).mpr ⟨t, ht, rfl⟩⟩
    · obtain ⟨lines, hlines, -⟩ := (hasLine_nil_iff words hlist).mpr
        ⟨subject, predicate, hsubject, hpredicate, rfl⟩
      exact ⟨lines, hlines⟩

end Named

/-! ### The encoding -/

theorem owns_unique {numbered : List Statement} {s t : Statement} {node : Text}
    (hs : Owns declared numbered s node) (ht : Owns declared numbered t node) : s = t := by
  obtain ⟨k, i, hs, -, rfl⟩ := hs
  obtain ⟨k', i', ht, -, hnode⟩ := ht
  obtain ⟨rfl, -⟩ := chainNode_inj hnode
  exact Option.some.inj (hs.symm.trans ht)

/-- Following a chain finds the items of its statement. -/
theorem follows_chain {words : ListWords declared} {statements numbered : List Statement} {lines : List Text}
    (hmem : ∀ l, l ∈ lines ↔ IsLine words statements numbered l) {k : Nat} {s : Statement}
    (hs : numbered[k]? = some s) (hchain : takesChain s.object = true) {iris : List Text}
    (hiris : s.object.identifiers declared = iris.map .ok) (found : List Text) :
    Follows words lines (chainNode k 0) found ↔ found = iris := by
  -- what a node of this chain begins, for either word
  have hnode (i : Nat) (p o : Text) : line (chainNode k i) p o ∈ lines ↔ ∃ iri, iris[i]? = some iri ∧
      (line (chainNode k i) p o = line (chainNode k i) (reference words.first) (reference iri) ∨
        line (chainNode k i) p o =
          line (chainNode k i) (reference words.rest) (placeAt words k iris.length (i + 1))) := by
    have h := @isLine_hasSubject_iff declared words statements numbered k i (line (chainNode k i) p o)
    rw [and_iff_left ⟨p, o, rfl⟩, ← hmem] at h
    simpa [hs, hiris] using h
  have hfirst (i : Nat) (o : Text) : line (chainNode k i) (reference words.first) o ∈ lines ↔
      ∃ iri, iris[i]? = some iri ∧ o = reference iri := by
    rw [hnode]
    simp only [line_first_ne_line_rest, or_false, line_right_inj]
  have hrest (i : Nat) (o : Text) : line (chainNode k i) (reference words.rest) o ∈ lines ↔
      i < iris.length ∧ o = placeAt words k iris.length (i + 1) := by
    rw [hnode]
    simp only [line_first_ne_line_rest.symm, false_or, line_right_inj, exists_and_right,
      List.getElem?_eq_some_iff]
    simp
  have hne : 0 < iris.length := by
    obtain ⟨_, _, _ | _ | _ | ⟨item, items⟩⟩ := s <;> try cases hchain
    rw [← List.length_map (f := (Except.ok : Text → Except NameError Text)), ← hiris]
    exact Nat.succ_pos _
  have hplace : chainNode k 0 = placeAt words k iris.length 0 := (if_pos hne).symm
  rw [hplace, follows_placeAt_iff hfirst hrest, List.drop_zero]

theorem existsUnique_number_iff {numbered : List Statement} (hnodup : numbered.Nodup) {s : Statement} :
    s ∈ numbered ↔ ∃! k : Nat, numbered[k]? = some s := by
  constructor
  · intro h
    obtain ⟨k, hk⟩ := List.mem_iff_getElem?.mp h
    refine ⟨k, hk, fun k' hk' => ?_⟩
    obtain ⟨hlt, -⟩ := List.getElem?_eq_some_iff.mp hk'
    exact (List.getElem?_inj hlt hnodup).mp (hk'.trans hk.symm)
  · rintro ⟨k, hk, -⟩
    exact List.mem_of_getElem? hk

theorem pairwise_sortedLines (lines : List Text) : (sortedLines lines).Pairwise (· < ·) :=
  Traversal.pairwise_lt_mergeSort (fun _ _ => decide_eq_true_iff) Function.injective_id
    (Traversal.nodup_eraseDups lines)

theorem isEncoding_sortedLines (words : ListWords declared) {statements : List Statement} {lines : List Text}
    (hnodup : statements.Nodup) (hnames : ∀ s ∈ statements, s.IsNamed declared)
    (h : writeFrom declared 0 (Statement.sort statements) = .ok lines) :
    IsEncoding words statements (chains (Statement.sort statements)) (sortedLines lines) := by
  have hmem (l : Text) : l ∈ sortedLines lines ↔
      IsLine words statements (chains (Statement.sort statements)) l := by
    rw [mem_sortedLines, isLine_iff_mem_writeFrom words h]
  have hchains : (chains (Statement.sort statements)).Nodup :=
    ((Statement.sort_perm statements).nodup_iff.mpr hnodup).filter _
  have hnumbered {k : Nat} {s : Statement} (hs : (chains (Statement.sort statements))[k]? = some s) :=
    mem_chains_sort.mp (List.mem_of_getElem? hs)
  exact
    { sorted := pairwise_sortedLines lines
      numbers := fun s => mem_chains_sort.symm.trans (existsUnique_number_iff hchains)
      ordered := (Statement.pairwise_sort statements).filter _
      plain := fun s hs => existsUnique_denotes (hnames s hs)
      mem_iff := hmem
      nodes := fun k i l => by rw [hmem, isLine_hasSubject_iff]
      disjoint := fun _ _ _ => owns_unique
      heads := fun hlanguages k l => by rw [hmem, isLine_hasObject_iff hlanguages]
      follows := fun k s hs => by
        obtain ⟨iris, hiris⟩ := exists_identifiers (hnames s (hnumbered hs).1)
        exact ⟨iris, hiris, follows_chain hmem hs (hnumbered hs).2 hiris⟩ }

/-- The lines of the flat view encode the statements without loss, each list in a chain of its own. -/
theorem lists_encoded {statements : List Statement} (hnodup : statements.Nodup)
    (hnames : ∀ s ∈ statements, s.IsNamed declared) (hrdf : Assoc.has declared "rdf" = true) :
    ∃ (words : ListWords declared) (numbered : List Statement) (lines : List Text),
      write declared statements = .ok (Text.join (lines.map (· ++ "\n"))) ∧
      IsEncoding words statements numbered lines ∧
      ((∀ s ∈ statements, IsFeedFree declared s) →
        (Text.join (lines.map (· ++ "\n"))).toList.splitOn (.char '\n') = lines.map Text.toList ++ [[]]) := by
  obtain ⟨words⟩ := listWords_of_has hrdf
  obtain ⟨lines, hlines⟩ := (writeFrom_isOk_iff_forall 0).mpr fun s hs =>
    writeStatement_isOk (hnames s (Statement.mem_sort.mp hs)) words
  refine ⟨words, _, sortedLines lines, ?_, isEncoding_sortedLines words hnodup hnames hlines, fun hfree => ?_⟩
  · rw [← joinLines_eq]
    exact bind_eq_ok_iff.mpr ⟨lines, hlines, rfl⟩
  · rw [← joinLines_eq]
    exact splitOn_joinLines (feed_notMem_writeFrom (fun s hs => hfree s (Statement.mem_sort.mp hs)) hlines)

/-- Two lists of one subject and predicate, of which one begins as the other, beside a list without items, a
text and a name. -/
def sharedLists : List Statement :=
  [⟨"x:s", "x:p", .list ["x:a", "x:b"]⟩, ⟨"x:s", "x:p", .list ["x:a"]⟩, ⟨"x:s", "x:p", .list []⟩,
    ⟨"x:s", "x:p", .literal ⟨"a", none, some "en"⟩⟩, ⟨"x:s", "x:p", .name "x:a"⟩]

/-- Either list is found again from the first node of its own chain. -/
theorem lists_encoded_sharedLists :
    sharedLists.Nodup ∧ (∀ s ∈ sharedLists, s.IsNamed [("x", "http://x/"), ("rdf", "http://r/")]) ∧
      Assoc.has ([("x", "http://x/"), ("rdf", "http://r/")] : PrefixMap) "rdf" = true ∧
      ∃ (words : ListWords [("x", "http://x/"), ("rdf", "http://r/")]) (lines : List Text) (k k' : Nat),
        write [("x", "http://x/"), ("rdf", "http://r/")] sharedLists =
          .ok (Text.join (lines.map (· ++ "\n"))) ∧ k ≠ k' ∧
        (∀ found, Follows words lines (chainNode k 0) found ↔
          found = (["http://x/a", "http://x/b"] : List Text)) ∧
        ∀ found, Follows words lines (chainNode k' 0) found ↔ found = (["http://x/a"] : List Text) := by
  have hnodup : sharedLists.Nodup := by decide
  have hdeclared : ∀ s ∈ sharedLists, ∀ n ∈ s.names, Name.IsQualified n ∧
      Assoc.has ([("x", "http://x/"), ("rdf", "http://r/")] : PrefixMap) (Name.label n) = true := by
    decide +kernel
  have hnames : ∀ s ∈ sharedLists, s.IsNamed [("x", "http://x/"), ("rdf", "http://r/")] := fun s hs n hn =>
    (Name.expand_isOk_iff _ (hdeclared s hs n hn).1).mpr (hdeclared s hs n hn).2
  obtain ⟨words, numbered, lines, htext, hlines, -⟩ := lists_encoded hnodup hnames (by decide)
  -- the numbers of the two lists, and what is found from there
  have hfound (items iris : List Text) (hs : ⟨"x:s", "x:p", .list items⟩ ∈ sharedLists)
      (hchain : takesChain (.list items) = true) (hiris : items.map (Name.expand
        [("x", "http://x/"), ("rdf", "http://r/")]) = iris.map .ok) :
      ∃ k : Nat, numbered[k]? = some ⟨"x:s", "x:p", .list items⟩ ∧
        ∀ found, Follows words lines (chainNode k 0) found ↔ found = iris := by
    obtain ⟨k, hk, -⟩ := (hlines.numbers _).mp ⟨hs, hchain⟩
    obtain ⟨iris', hiris', hfollows⟩ := hlines.follows k _ hk
    have hsame : iris' = iris := List.map_injective_iff.mpr (fun _ _ => Except.ok.inj) (hiris'.symm.trans hiris)
    exact ⟨k, hk, hsame ▸ hfollows⟩
  obtain ⟨k, hk, hfollows⟩ := hfound ["x:a", "x:b"] ["http://x/a", "http://x/b"] (by decide) rfl
    (by decide +kernel)
  obtain ⟨k', hk', hfollows'⟩ := hfound ["x:a"] ["http://x/a"] (by decide) rfl (by decide +kernel)
  refine ⟨hnodup, hnames, by decide, words, lines, k, k', htext, ?_, hfollows, hfollows'⟩
  rintro rfl
  cases hk.symm.trans hk'

end NTriples

end Ontogram

/-
What a reading of an N-Triples line has read.

The reader goes through a line from left to right. A reading that succeeds says how the text was put
together, and these are the statements to that effect, from the parts of a line up to the line:

* `iriText_eq_ok_iff` — the shape of a written identifier;
* `readLiteral_eq_ok` — a literal is plain, has a language, or has a datatype;
* `readTriple_eq_ok` — the three nodes of a triple and what stands around them;
* `triples_eq_singleton` — the only triple of a text stands in one of its pieces;
* `mem_parseRaw` — each statement of a text is that of a triple in it;
* `statementOf_eq_ok` — the statement of a triple has names for its identifiers.
-/
import Mathlib.Data.List.TakeDrop
import Mathlib.Data.List.TakeWhile
import Ontogram.NTriples.Reader
import Ontogram.Proofs.Traversal
namespace Ontogram.NTriples

open Traversal (bind_eq_ok_iff mapM_eq_ok_iff)

/-! ### Runs of characters -/

section Span

variable {α : Type} {p : α → Bool}

/-- A run ends at the first thing that does not belong to it. -/
theorem span_append {run : List α} (hrun : ∀ x ∈ run, p x = true) {x : α} (hx : p x = false)
    (rest : List α) : (run ++ x :: rest).span p = (run, x :: rest) := by
  rw [List.span_eq_takeWhile_dropWhile, List.takeWhile_append_of_pos hrun,
    List.dropWhile_append_of_pos hrun]
  simp [hx]

/-- A run ends at the first thing that does not belong to it, or where everything ends. -/
theorem span_append_of_head? {run rest : List α} (hrun : ∀ x ∈ run, p x = true)
    (hrest : ∀ x ∈ rest.head?, p x = false) : (run ++ rest).span p = (run, rest) := by
  cases rest with
  | nil =>
    rw [List.append_nil, List.span_eq_takeWhile_dropWhile, List.takeWhile_eq_self_iff.mpr hrun,
      List.dropWhile_eq_nil_iff.mpr hrun]
  | cons x rest => exact span_append hrun (hrest x rfl) rest

theorem span_eq {xs run rest : List α} (h : xs.span p = (run, rest)) :
    xs = run ++ rest ∧ (∀ x ∈ run, p x = true) ∧ ∀ x ∈ rest.head?, p x = false := by
  rw [List.span_eq_takeWhile_dropWhile] at h
  obtain ⟨rfl, rfl⟩ := Prod.mk.inj h
  refine ⟨List.takeWhile_append_dropWhile.symm, fun x hx => List.mem_takeWhile_imp hx, ?_⟩
  intro x hx
  have hdrop := List.head?_dropWhile_not p xs
  rw [Option.mem_def] at hx
  simpa [hx] using hdrop

theorem forall_mem_of_any_eq_false {xs : List α} (h : xs.any p = false) : ∀ x ∈ xs, p x = false :=
  fun x hx => Bool.eq_false_iff.mpr (List.any_eq_false.mp h x hx)

end Span

/-! ### Identifiers -/

/-- A written identifier: something, a colon, and then nothing that ends it. -/
def IsIriText (cs : List CodePoint) : Prop :=
  ∃ start tail, start ≠ [] ∧ .char ':' ∉ start ∧ (∀ c ∈ tail, endsIri c = false) ∧ cs = start ++ .char ':' :: tail

theorem iriText_eq_ok_iff {cs written rest : List CodePoint} :
    iriText cs = .ok (written, rest) ↔ IsIriText written ∧ cs = written ++ .char '>' :: rest := by
  constructor
  · intro h
    unfold iriText at h
    split at h
    · rename_i c start d after hstart
      obtain ⟨hcs, hrun, hd⟩ := span_eq hstart
      split at h
      · rename_i tail after' htail
        obtain ⟨hafter, htails, -⟩ := span_eq htail
        cases h
        obtain rfl : d = ':' := by simpa using hd d rfl
        refine ⟨⟨c :: start, tail, by simp, ?_, ?_, rfl⟩, ?_⟩
        · intro hmem
          simpa using hrun _ hmem
        · intro x hx
          simpa using htails x hx
        · rw [hcs, hafter]
          simp
      · cases h
    · cases h
  · rintro ⟨⟨start, tail, hne, hstart, htail, rfl⟩, rfl⟩
    obtain ⟨c, start, rfl⟩ := List.exists_cons_of_ne_nil hne
    have hrun : ∀ x ∈ c :: start, (x != ':') = true := by
      intro x hx
      exact bne_iff_ne.mpr fun heq => hstart (heq ▸ hx)
    have htails : ∀ x ∈ tail, (!endsIri x) = true := by
      intro x hx
      rw [htail x hx]
      rfl
    have hspan := span_append hrun (x := ':') (by decide) (tail ++ .char '>' :: rest)
    have hspan' := span_append htails (x := '>') (by decide) rest
    have htext : (c :: start ++ .char ':' :: tail) ++ .char '>' :: rest =
        c :: start ++ .char ':' :: (tail ++ .char '>' :: rest) := by simp
    rw [iriText, htext, hspan]
    simp only [hspan']

theorem readIri_eq_ok {cs rest : List CodePoint} {node : Node} (h : readIri cs = .ok (node, rest)) :
    ∃ written iri, IsIriText written ∧ cs = written ++ .char '>' :: rest ∧ decode written = .ok iri ∧
      node = .iri iri := by
  obtain ⟨⟨written, after⟩, htext, h⟩ := bind_eq_ok_iff.mp h
  obtain ⟨iri, hiri, h⟩ := bind_eq_ok_iff.mp h
  obtain ⟨rfl, rfl⟩ := Prod.mk.inj (Except.ok.inj h)
  obtain ⟨hwritten, hcs⟩ := iriText_eq_ok_iff.mp htext
  exact ⟨written, iri, hwritten, hcs, hiri, rfl⟩

/-! ### Literals -/

theorem literalText_eq_some {cs written rest : List CodePoint} (h : literalText cs = some (written, rest)) :
    cs = written ++ .char '"' :: rest := by
  fun_induction literalText cs generalizing written with
  | case1 => cases h
  | case2 =>
    cases h
    rfl
  | case3 => cases h
  | case4 d after =>
    cases h
    rfl
  | case5 d after hquote ih =>
    obtain ⟨⟨text, rest'⟩, htext, h⟩ := Option.map_eq_some_iff.mp h
    cases h
    rw [ih htext]
    rfl
  | case6 c d after hquote hslash ih =>
    obtain ⟨⟨text, rest'⟩, htext, h⟩ := Option.map_eq_some_iff.mp h
    cases h
    rw [ih htext]
    rfl

/-- A literal that was read is plain, has a language, or has a datatype. -/
theorem readLiteral_eq_ok {cs rest : List CodePoint} {node : Node} (h : readLiteral cs = .ok (node, rest)) :
    ∃ written after value, literalText cs = some (written, after) ∧ decode written = .ok value ∧
      (node = .literal ⟨value, none, none⟩ ∧ rest = after ∨
        (∃ tag language, after = .char '@' :: tag ∧ languageTag? tag = some (language, rest) ∧
          node = .literal ⟨value, none, some (Text.ofList language)⟩) ∨
        ∃ tail datatype iri, after = .char '^' :: .char '^' :: .char '<' :: tail ∧ IsIriText datatype ∧
          tail = datatype ++ .char '>' :: rest ∧ decode datatype = .ok iri ∧
          node = .literal ⟨normalize (some iri) value, some iri, none⟩) := by
  unfold readLiteral at h
  split at h
  · cases h
  · rename_i written after htext
    have hplain : ∀ {n r}, ((do return (Node.literal ⟨← decode written, none, none⟩, after) :
        Reading (Node × List CodePoint)) = .ok (n, r)) →
        ∃ value, decode written = .ok value ∧ n = .literal ⟨value, none, none⟩ ∧ r = after := by
      intro n r h
      obtain ⟨value, hvalue, h⟩ := bind_eq_ok_iff.mp h
      obtain ⟨rfl, rfl⟩ := Prod.mk.inj (Except.ok.inj h)
      exact ⟨value, hvalue, rfl, rfl⟩
    refine ⟨written, after, ?_⟩
    split at h
    · split at h
      · rename_i tag _ language after' htag
        obtain ⟨value, hvalue, h⟩ := bind_eq_ok_iff.mp h
        obtain ⟨rfl, rfl⟩ := Prod.mk.inj (Except.ok.inj h)
        exact ⟨value, htext, hvalue, .inr (.inl ⟨tag, language, rfl, htag, rfl⟩)⟩
      · obtain ⟨value, hvalue, rfl, rfl⟩ := hplain h
        exact ⟨value, htext, hvalue, .inl ⟨rfl, rfl⟩⟩
    · split at h
      · rename_i tail _ datatype after' hdatatype
        obtain ⟨iri, hiri, h⟩ := bind_eq_ok_iff.mp h
        obtain ⟨value, hvalue, h⟩ := bind_eq_ok_iff.mp h
        obtain ⟨rfl, rfl⟩ := Prod.mk.inj (Except.ok.inj h)
        obtain ⟨hshape, htail⟩ := iriText_eq_ok_iff.mp hdatatype
        exact ⟨value, htext, hvalue, .inr (.inr ⟨tail, datatype, iri, rfl, hshape, htail, hiri, rfl⟩)⟩
      · obtain ⟨value, hvalue, rfl, rfl⟩ := hplain h
        exact ⟨value, htext, hvalue, .inl ⟨rfl, rfl⟩⟩
    · obtain ⟨value, hvalue, rfl, rfl⟩ := hplain h
      exact ⟨value, htext, hvalue, .inl ⟨rfl, rfl⟩⟩

/-! ### Triples -/

theorem readNodeLabel_eq_ok {cs rest : List CodePoint} {node : Node}
    (h : readNodeLabel cs = .ok (node, rest)) : ∃ label, node = .blank label := by
  unfold readNodeLabel at h
  split at h
  · split at h
    · cases h
      exact ⟨_, rfl⟩
    · cases h
  · cases h

/-- What is read as a subject may stand in the place of an object. -/
theorem readObject_of_readSubject {cs rest : List CodePoint} {node : Node}
    (h : readSubject cs = .ok (node, rest)) : readObject cs = .ok (node, rest) := by
  unfold readSubject at h
  split at h
  · exact h
  · exact h
  · cases h

theorem readObject_of_readPredicate {cs rest : List CodePoint} {node : Node}
    (h : readPredicate cs = .ok (node, rest)) : readObject cs = .ok (node, rest) := by
  unfold readPredicate at h
  split at h
  · exact h
  · cases h

theorem gap_eq_ok_iff {cs rest : List CodePoint} :
    gap cs = .ok rest ↔ cs.head?.any isGap = true ∧ cs.dropWhile isGap = rest := by
  unfold gap
  split <;> rename_i hgap <;> simp [hgap]

/-- The nodes of a triple that was read, with what was read of them, blanks and the end of the line. -/
theorem readTriple_eq_ok {line : List CodePoint} {t : Triple} (h : readTriple line = .ok (some t)) :
    ∃ afterSubject beforePredicate afterPredicate beforeObject afterObject,
      readSubject (line.dropWhile isGap) = .ok (t.subject, afterSubject) ∧
      gap afterSubject = .ok beforePredicate ∧
      readPredicate beforePredicate = .ok (t.predicate, afterPredicate) ∧
      gap afterPredicate = .ok beforeObject ∧
      readObject beforeObject = .ok (t.object, afterObject) ∧ endsLine afterObject = true := by
  unfold readTriple at h
  split at h
  · cases h
  · rename_i c rest hline
    split at h
    · cases h
    · obtain ⟨⟨subject, afterSubject⟩, hsubject, h⟩ := bind_eq_ok_iff.mp h
      obtain ⟨beforePredicate, hgap, h⟩ := bind_eq_ok_iff.mp h
      obtain ⟨⟨predicate, afterPredicate⟩, hpredicate, h⟩ := bind_eq_ok_iff.mp h
      obtain ⟨beforeObject, hgap', h⟩ := bind_eq_ok_iff.mp h
      obtain ⟨⟨object, afterObject⟩, hobject, h⟩ := bind_eq_ok_iff.mp h
      dsimp only at h
      split at h
      · rename_i hend
        cases h
        exact ⟨_, _, _, _, _, hline ▸ hsubject, hgap, hpredicate, hgap', hobject, hend⟩
      · cases h

theorem sublist_of_mem_pieces {cs piece : List CodePoint} (h : piece ∈ pieces cs) : piece.Sublist cs := by
  induction cs generalizing piece with
  | nil =>
    rw [List.mem_singleton.mp h]
  | cons c cs ih =>
    rw [pieces] at h
    split at h
    · rcases List.mem_cons.mp h with rfl | h
      · exact List.nil_sublist _
      · exact (ih h).cons c
    · split at h
      · rw [List.mem_singleton.mp h]
        exact List.singleton_sublist.mpr List.mem_cons_self
      · rename_i first more hpieces
        rw [hpieces] at ih
        rcases List.mem_cons.mp h with rfl | h
        · exact (ih List.mem_cons_self).cons_cons c
        · exact (ih (List.mem_cons_of_mem _ h)).cons c

theorem triples_eq_singleton {cs : List CodePoint} {t : Triple} (h : triples cs = .ok [t]) :
    ∃ piece ∈ pieces cs, readTriple piece = .ok (some t) := by
  obtain ⟨found, hfound, h⟩ := bind_eq_ok_iff.mp h
  have hmem : t ∈ found.filterMap id := by
    rw [Except.ok.inj h]
    exact List.mem_singleton_self t
  obtain ⟨x, hx, rfl⟩ := List.mem_filterMap.mp hmem
  obtain ⟨piece, hpiece, hread⟩ := Traversal.exists_of_mem_right (mapM_eq_ok_iff.mp hfound) hx
  exact ⟨piece, hpiece, hread⟩

/-! ### Statements -/

theorem nameOf_eq_ok_iff {declared : PrefixMap} {role : Role} {iri name : Text} :
    nameOf declared role iri = .ok name ↔ Name.shorten declared iri = .ok name := by
  unfold nameOf
  cases Name.shorten declared iri <;> simp

theorem nameOfNode_eq_ok {declared : PrefixMap} {role : Role} {node : Node} {name : Text}
    (h : nameOfNode declared role node = .ok name) :
    ∃ iri, node = .iri iri ∧ Name.shorten declared iri = .ok name := by
  cases node with
  | iri iri => exact ⟨iri, rfl, nameOf_eq_ok_iff.mp h⟩
  | _ => cases h

theorem termOf_eq_ok {declared : PrefixMap} {role : Role} {node : Node} {object : Term}
    (h : termOf declared role node = .ok object) :
    (∃ iri name, node = .iri iri ∧ Name.shorten declared iri = .ok name ∧ object = .name name) ∨
      (∃ l, node = .literal l ∧ nonempty l.datatype = none ∧
        object = .literal ⟨l.value, none, l.language⟩) ∨
      ∃ l iri name, node = .literal l ∧ nonempty l.datatype = some iri ∧
        Name.shorten declared iri = .ok name ∧ object = .literal ⟨l.value, some name, l.language⟩ := by
  cases node with
  | iri iri =>
    rw [termOf] at h
    cases hname : nameOf declared role iri with
    | ok name =>
      rw [hname] at h
      cases h
      exact .inl ⟨iri, name, rfl, nameOf_eq_ok_iff.mp hname, rfl⟩
    | error fault =>
      rw [hname] at h
      cases h
  | literal l =>
    rw [termOf] at h
    split at h
    · rename_i hdatatype
      cases h
      exact .inr (.inl ⟨l, rfl, hdatatype, rfl⟩)
    · rename_i iri hdatatype
      obtain ⟨name, hname, h⟩ := bind_eq_ok_iff.mp h
      cases h
      exact .inr (.inr ⟨l, iri, name, rfl, hdatatype, nameOf_eq_ok_iff.mp hname, rfl⟩)
  | blank _ => cases h

theorem statementOf_eq_ok {declared : PrefixMap} {t : Triple} {s : Statement}
    (h : statementOf declared t = .ok s) :
    (∃ iri, t.subject = .iri iri ∧ Name.shorten declared iri = .ok s.subject) ∧
      (∃ iri, t.predicate = .iri iri ∧ Name.shorten declared iri = .ok s.predicate) ∧
      termOf declared .object t.object = .ok s.object := by
  obtain ⟨subject, hsubject, h⟩ := bind_eq_ok_iff.mp h
  obtain ⟨predicate, hpredicate, h⟩ := bind_eq_ok_iff.mp h
  obtain ⟨object, hobject, h⟩ := bind_eq_ok_iff.mp h
  cases h
  exact ⟨nameOfNode_eq_ok hsubject, nameOfNode_eq_ok hpredicate, hobject⟩

theorem parseLine_eq_ok_iff {declared : PrefixMap} {line : Text} {s : Statement} :
    parseLine declared line = .ok s ↔
      ∃ t, triples line.toList = .ok [t] ∧ statementOf declared t = .ok s := by
  unfold parseLine
  split
  · rename_i h
    simp [h]
  · rename_i h
    simp [h]
  · rename_i t h
    cases ht : statementOf declared t <;> simp [h, ht]
  · rename_i ts hts h
    rw [h]
    constructor
    · intro h
      cases h
    · rintro ⟨t, ht, -⟩
      exact absurd (Except.ok.inj ht) (hts t)

/-- Each statement of a text is that of a triple in one of its lines. -/
theorem mem_parseRaw {declared : PrefixMap} {text : Text} {raw : List Statement}
    (h : parseRaw declared text = .ok raw) {s : Statement} (hs : s ∈ raw) :
    ∃ line ∈ Text.lines text.toList, ∃ piece ∈ pieces line, ∃ t, readTriple piece = .ok (some t) ∧
      statementOf declared t = .ok s := by
  obtain ⟨found, hfound, h⟩ := bind_eq_ok_iff.mp h
  rw [← Except.ok.inj h, List.mem_eraseDups] at hs
  obtain ⟨line, hmem, hline⟩ := Traversal.exists_of_mem_right (mapM_eq_ok_iff.mp hfound) hs
  obtain ⟨t, ht, hstatement⟩ := parseLine_eq_ok_iff.mp hline
  rw [Text.toList_ofList] at ht
  obtain ⟨piece, hpiece, hread⟩ := triples_eq_singleton ht
  exact ⟨line, (List.mem_filter.mp hmem).1, piece, hpiece, t, hread, hstatement⟩

end Ontogram.NTriples

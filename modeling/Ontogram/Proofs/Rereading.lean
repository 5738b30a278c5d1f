/-
Reading a written line again.

The line of a triple may be read as another triple. The order of triples by weight, then by the lengths of
what their nodes hold, makes it a lesser one:

* `Node.IsAbsolute` — what identifiers have that were read;
* `Triple.rank` — the place of a triple in that order;
* `readIri_spell_cases`, `readObject_spell_cases` — a node is read as it was written or as a lesser one;
* `rank_lt_of_readTriple` — so is a triple;
* `isReadable_of_preimages` — if of some triples each is read from a line of theirs, then all are read as
  they were written.
-/
import Ontogram.Proofs.LineWeight
namespace Ontogram.NTriples

open Traversal (bind_eq_ok_iff)

/-! ### Identifiers that were read -/

/-- The identifiers have colons. -/
def Node.IsAbsolute : Node → Prop
  | .iri u => .char ':' ∈ u.toList
  | .blank _ => True
  | .literal l => ∀ u ∈ l.datatype, .char ':' ∈ u.toList

theorem IsIriText.colon_mem {cs : List CodePoint} (h : IsIriText cs) : .char ':' ∈ cs := by
  obtain ⟨start, tail, -, -, -, rfl⟩ := h
  exact List.mem_append_right _ List.mem_cons_self

theorem colon_mem_of_decode {written : List CodePoint} {u : Text} (hshape : IsIriText written)
    (h : decode written = .ok u) : .char ':' ∈ u.toList :=
  (unescapes_of_decode h).colon_mem hshape.colon_mem

theorem isAbsolute_of_readObject {cs rest : List CodePoint} {node : Node}
    (h : readObject cs = .ok (node, rest)) : node.IsAbsolute := by
  unfold readObject at h
  split at h
  · obtain ⟨written, iri, hshape, -, hiri, rfl⟩ := readIri_eq_ok h
    exact colon_mem_of_decode hshape hiri
  · obtain ⟨label, rfl⟩ := readNodeLabel_eq_ok h
    trivial
  · obtain ⟨_, _, _, -, -, hnode | ⟨_, _, -, -, rfl⟩ | ⟨_, _, iri, -, hshape, -, hiri, rfl⟩⟩ :=
      readLiteral_eq_ok h
    · rw [hnode.1]
      rintro _ ⟨⟩
    · rintro _ ⟨⟩
    · rintro _ ⟨⟩
      exact colon_mem_of_decode hshape hiri
  · cases h

structure Triple.IsAbsolute (t : Triple) : Prop where
  subject : t.subject.IsAbsolute
  predicate : t.predicate.IsAbsolute
  object : t.object.IsAbsolute

theorem isAbsolute_of_readTriple {w : List CodePoint} {t : Triple} (h : readTriple w = .ok (some t)) :
    t.IsAbsolute := by
  obtain ⟨_, _, _, _, _, hsubject, -, hpredicate, -, hobject, -⟩ := readTriple_eq_ok h
  exact ⟨isAbsolute_of_readObject (readObject_of_readSubject hsubject),
    isAbsolute_of_readObject (readObject_of_readPredicate hpredicate), isAbsolute_of_readObject hobject⟩

/-! ### The order of triples -/

def Node.lengths : Node → List Nat
  | .iri u => [u.length]
  | .blank _ => []
  | .literal l => [(l.datatype.getD "").length, l.value.length]

/-- The weight of the line and the lengths of what the nodes hold. -/
def Triple.rank (t : Triple) : List Nat :=
  weight (spell t) :: (t.subject.lengths ++ t.predicate.lengths ++ t.object.lengths)

/-! ### Nodes -/

/-- The text of an identifier ends at the first closing bracket behind its first colon. -/
theorem iriText_end_cases {written u more rest : List CodePoint} (hshape : IsIriText written) (hcolon : .char ':' ∈ u)
    (h : u ++ .char '>' :: more = written ++ .char '>' :: rest) :
    written.length < u.length ∨ written = u ∧ rest = more := by
  rcases List.append_eq_append_iff.mp h with ⟨a, ha, hrest⟩ | ⟨a, ha, hrest⟩
  · cases a with
    | nil =>
      rw [List.append_nil] at ha
      exact .inr ⟨ha, (List.cons.inj hrest).2.symm⟩
    | cons c a =>
      -- a longer text would have the bracket behind its first colon
      obtain rfl : '>' = c := (List.cons.inj hrest).1
      obtain ⟨start, tail, -, hstart, htail, rfl⟩ := hshape
      rcases List.append_eq_append_iff.mp ha with ⟨b, hb, hbracket⟩ | ⟨b, hb, -⟩
      · have hmem : .char '>' ∈ .char ':' :: tail := hbracket ▸ List.mem_append_right _ List.mem_cons_self
        exact absurd (htail '>' (by simpa using hmem)) (by decide)
      · exact absurd (hb ▸ List.mem_append_left _ hcolon) hstart
  · cases a with
    | nil =>
      rw [List.append_nil] at ha
      exact .inr ⟨ha.symm, (List.cons.inj hrest).2⟩
    | cons c a =>
      left
      rw [ha, List.length_append, List.length_cons]
      omega

/-- An identifier with a colon is read whole or as a shorter one. -/
theorem readIri_spell_cases {u v : Text} {more rest : List CodePoint} (hcolon : .char ':' ∈ u.toList)
    (h : readIri (u.toList ++ .char '>' :: more) = .ok (.iri v, rest)) :
    v.length < u.length ∨ v = u ∧ rest = more ∧ IsReadableIri u := by
  obtain ⟨written, iri, hshape, hsplit, hdecode, hnode⟩ := readIri_eq_ok h
  obtain rfl : v = iri := Node.iri.inj hnode
  have hchars := unescapes_of_decode hdecode
  have hlength : v.length ≤ written.length := hchars.length_le
  rcases iriText_end_cases hshape hcolon hsplit with hshort | ⟨rfl, rfl⟩
  · exact .inl (hlength.trans_lt hshort)
  · rcases hlength.lt_or_eq with hlt | heq
    · exact .inl (Text.length_toList ▸ hlt)
    · have hsame : v.toList = u.toList := by
        refine hchars.eq_of_length_le ?_
        rw [Text.length_toList (s := v)]
        exact heq.ge
      obtain rfl : v = u := Text.toList_inj.mp hsame
      exact .inr ⟨rfl, rfl, hshape, hdecode⟩

/-- Normalising for a datatype leaves a value as it is, or makes the literal shorter or lighter. -/
theorem normalize_cases (u value : Text) :
    (Node.literal ⟨normalize (some u) value, some u, none⟩).lengths < (Node.literal ⟨value, some u, none⟩).lengths ∨
      weight (spellNode (.literal ⟨normalize (some u) value, some u, none⟩)) <
        weight (spellNode (.literal ⟨value, some u, none⟩)) ∨
      normalize (some u) value = value := by
  obtain ⟨hweight, hlength, hsame⟩ := weight_normalize (some u) value
  rcases hweight.lt_or_eq with hlt | heq
  · refine .inr (.inl ?_)
    rw [weight_spellLiteral, weight_spellLiteral]
    exact Nat.add_lt_add_right (Nat.add_lt_add_left hlt 2) _
  · rcases hlength.lt_or_eq with hlt | heq'
    · exact .inl (List.cons_lt_cons_iff.mpr (.inr ⟨rfl, List.cons_lt_cons_iff.mpr (.inl hlt)⟩))
    · exact .inr (.inr (hsame heq.ge heq'.ge))

theorem readLiteral_spell_cases {l : LiteralNode} {node : Node} {rest : List CodePoint}
    (hproper : (Node.literal l).IsProper) (habsolute : (Node.literal l).IsAbsolute)
    (h : readLiteral (escapeChars l.value.toList ++ .char '"' :: (spellSuffix l ++ [.char ' ', .char '.'])) =
      .ok (node, rest)) (hend : endsLine rest = true) :
    node.lengths < (Node.literal l).lengths ∨ weight (spellNode node) < weight (spellNode (.literal l)) ∨
      node = .literal l ∧ (Node.literal l).IsReadable := by
  obtain ⟨value, datatype, language⟩ := l
  obtain ⟨written, after, value', htext, hvalue, hnode⟩ := readLiteral_eq_ok h
  rw [literalText_escapeChars] at htext
  obtain ⟨rfl, rfl⟩ := Prod.mk.inj (Option.some.inj htext)
  cases (decode_escapeChars value).symm.trans hvalue
  -- what stands behind the closing quote
  cases language with
  | some tag =>
    obtain ⟨htag, rfl⟩ := hproper tag rfl
    right; right
    rcases hnode with ⟨-, rfl⟩ | ⟨tag', language, hafter, htag', rfl⟩ | ⟨_, _, _, hafter, -⟩
    · cases hend
    · obtain rfl : tag.toList ++ [.char ' ', .char '.'] = tag' := (List.cons.inj hafter).2
      have hends : EndsTag [.char ' ', .char '.'] := by
        rintro c ⟨⟩
        decide
      rw [languageTag?_append htag hends] at htag'
      obtain ⟨rfl, rfl⟩ := Prod.mk.inj (Option.some.inj htag')
      exact ⟨by rw [Text.ofList_toList], by rintro _ ⟨⟩⟩
    · cases hafter
  | none =>
    cases datatype with
    | none =>
      right; right
      rcases hnode with ⟨rfl, -⟩ | ⟨_, _, hafter, -⟩ | ⟨_, _, _, hafter, -⟩
      · exact ⟨rfl, by rintro _ ⟨⟩⟩
      · cases hafter
      · cases hafter
    | some u =>
      rcases hnode with ⟨-, rfl⟩ | ⟨_, _, hafter, -⟩ |
        ⟨tail, written, v, hafter, hshape, rfl, hdecode, rfl⟩
      · cases hend
      · cases hafter
      · have htail : u.toList ++ .char '>' :: [.char ' ', .char '.'] = written ++ .char '>' :: rest := by
          simpa [spellSuffix] using hafter
        have hread : readIri (u.toList ++ .char '>' :: [.char ' ', .char '.']) = .ok (.iri v, rest) := by
          rw [htail]
          exact bind_eq_ok_iff.mpr ⟨_, iriText_eq_ok_iff.mpr ⟨hshape, rfl⟩,
            bind_eq_ok_iff.mpr ⟨v, hdecode, rfl⟩⟩
        rcases readIri_spell_cases (habsolute u rfl) hread with hshort | ⟨rfl, -, hreadable⟩
        · exact .inl (List.cons_lt_cons_iff.mpr (.inl hshort))
        · -- with the same datatype only the value can have changed
          refine (normalize_cases v value).imp_right (Or.imp_right fun hvalue => ⟨by rw [hvalue], ?_⟩)
          rintro _ ⟨⟩
          exact ⟨hreadable, hvalue⟩

/-- An object is read as it was written or as something lighter or shorter. -/
theorem readObject_spell_cases {o node : Node} {rest : List CodePoint} (hproper : o.IsProper)
    (habsolute : o.IsAbsolute) (h : readObject (spellNode o ++ [.char ' ', .char '.']) = .ok (node, rest))
    (hend : endsLine rest = true) :
    node.lengths < o.lengths ∨ weight (spellNode node) < weight (spellNode o) ∨
      node = o ∧ o.IsReadable := by
  cases o with
  | iri u =>
    have h : readIri (u.toList ++ .char '>' :: [.char ' ', .char '.']) = .ok (node, rest) := by
      rw [spellNode, List.cons_append, List.append_assoc] at h
      exact h
    obtain ⟨_, v, -, -, -, rfl⟩ := readIri_eq_ok h
    rcases readIri_spell_cases habsolute h with hshort | ⟨rfl, -, hreadable⟩
    · exact .inl (List.cons_lt_cons_iff.mpr (.inl hshort))
    · exact .inr (.inr ⟨rfl, hreadable⟩)
  | blank label => exact absurd hproper id
  | literal l =>
    have h : readLiteral (escapeChars l.value.toList ++ .char '"' :: (spellSuffix l ++ [.char ' ', .char '.'])) =
        .ok (node, rest) := by
      rw [spellNode, List.cons_append, List.append_assoc] at h
      exact h
    exact readLiteral_spell_cases hproper habsolute h hend

/-! ### Triples -/

/-- **A line that is read again makes no greater triple.** The line of a triple is read as that triple, or
else as one of lower rank. -/
theorem rank_lt_of_readTriple {u t : Triple} (hu : u.IsProper) (habsolute : u.IsAbsolute)
    (ht : t.IsProper) (h : readTriple (spell u) = .ok (some t)) :
    t.rank < u.rank ∨ t = u ∧ u.IsReadable := by
  obtain ⟨_, _, o⟩ := u
  obtain ⟨⟨u₁, rfl⟩, ⟨u₂, rfl⟩, hproper⟩ := hu
  have hweight := weight_spell_le ht h
  obtain ⟨afterSubject, beforePredicate, afterPredicate, beforeObject, afterObject, hsubject, hgap,
    hpredicate, hgap', hobject, hend⟩ := readTriple_eq_ok h
  obtain ⟨subject, predicate, object⟩ := t
  obtain ⟨c, rest, hspell, hc⟩ := spellNode_cons hproper
  have hbracket : isGap '<' = false := by decide
  have hline : (spell ⟨.iri u₁, .iri u₂, o⟩).dropWhile isGap =
      .char '<' :: (u₁.toList ++ .char '>' :: .char ' ' :: .char '<' ::
      (u₂.toList ++ .char '>' :: .char ' ' :: (spellNode o ++ [.char ' ', .char '.']))) := by
    simp [spell, spellNode, hbracket]
  rw [hline] at hsubject
  obtain ⟨_, v₁, -, -, -, rfl⟩ := readIri_eq_ok hsubject
  rcases hweight.lt_or_eq with hlt | heq
  · exact .inl (List.cons_lt_cons_iff.mpr (.inl hlt))
  rcases readIri_spell_cases habsolute.subject hsubject with hshort | ⟨rfl, rfl, hr₁⟩
  · exact .inl (List.cons_lt_cons_iff.mpr (.inr ⟨heq, List.cons_lt_cons_iff.mpr (.inl hshort)⟩))
  -- the subject is the same, so the predicate is read where it was written
  obtain rfl := Except.ok.inj ((gap_cons hbracket _).symm.trans hgap)
  obtain ⟨_, v₂, -, -, -, rfl⟩ := readIri_eq_ok hpredicate
  rcases readIri_spell_cases habsolute.predicate hpredicate with hshort | ⟨rfl, rfl, hr₂⟩
  · exact .inl (List.cons_lt_cons_iff.mpr (.inr ⟨heq, List.cons_lt_cons_iff.mpr (.inr ⟨rfl,
      List.cons_lt_cons_iff.mpr (.inl hshort)⟩)⟩))
  rw [hspell, List.cons_append] at hgap'
  obtain rfl := Except.ok.inj ((gap_cons hc _).symm.trans hgap')
  rw [← List.cons_append, ← hspell] at hobject
  rcases readObject_spell_cases hproper habsolute.object hobject hend with hshort | hlt | ⟨rfl, hr₃⟩
  · exact .inl (List.cons_lt_cons_iff.mpr (.inr ⟨heq, List.cons_lt_cons_iff.mpr (.inr ⟨rfl,
      List.cons_lt_cons_iff.mpr (.inr ⟨rfl, hshort⟩)⟩)⟩))
  · rw [weight_spell, weight_spell] at heq
    dsimp only at heq hlt
    omega
  · exact .inr ⟨rfl, hr₁, hr₂, hr₃⟩

/-- If of some triples each is read from the lines of one of them, then each of their lines is unbroken and
is read as it was written. -/
theorem isReadable_of_preimages {ts : List Triple} (hproper : ∀ t ∈ ts, t.IsProper)
    (h : ∀ t ∈ ts, ∃ u ∈ ts, ∃ line ∈ Text.lines (spell u ++ [.char '\n']), ∃ piece ∈ pieces line,
      readTriple piece = .ok (some t)) :
    ∀ t ∈ ts, Unbroken (spell t) ∧ t.IsReadable := by
  refine Traversal.forall_mem_of_greater Triple.rank fun t ht hgreater => ?_
  obtain ⟨u, hu, line, hline, piece, hpiece, hread⟩ := h t ht
  have habsolute : u.IsAbsolute := by
    obtain ⟨_, -, _, -, _, -, hread⟩ := h u hu
    exact isAbsolute_of_readTriple hread
  rcases weight_of_mem_lines hline with ⟨rfl, hunbroken⟩ | hlight
  · rw [pieces_of_unbroken hunbroken, List.mem_singleton] at hpiece
    subst hpiece
    rcases rank_lt_of_readTriple (hproper u hu) habsolute (hproper t ht) hread with hlt | ⟨rfl, hreadable⟩
    · -- a greater triple is read as itself
      have hself := readTriple_spell (hproper u hu) (hgreater u hu hlt).2
      cases hself.symm.trans hread
      exact absurd hlt (lt_irrefl _)
    · exact ⟨hunbroken, hreadable⟩
  · -- a greater triple has a single line
    have hweight := (weight_spell_le (hproper t ht) hread).trans (weight_of_mem_pieces hpiece)
    have hlt : t.rank < u.rank := List.cons_lt_cons_iff.mpr (.inl (hweight.trans_lt hlight))
    rw [Text.lines_append (hgreater u hu hlt).1] at hline
    rw [List.mem_singleton.mp hline] at hlight
    exact absurd hlight (lt_irrefl _)

end Ontogram.NTriples

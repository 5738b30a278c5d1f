/-
The weight of a line.

Writing what was read from a line need not give the line again. But the new line is never heavier, where
blanks and backslashes weigh nothing and all other characters the same:

* `Unescapes.weight_le`, `weight_escapeChars` — unescaping makes no text heavier, and escaping leaves its
  weight as it is;
* `weight_normalize` — a value that its datatype changes gets lighter or shorter;
* `weight_spell_le` — the line of a triple is no heavier than the line that the triple was read from;
* `weight_of_mem_lines` — of a text that breaks each line is lighter than the text.
-/
import Ontogram.Proofs.LineSequence
import Ontogram.Proofs.LineSpelling
namespace Ontogram.NTriples

/-- The number of characters that are neither blanks nor backslashes. -/
def weight (cs : List CodePoint) : Nat := cs.countP fun c => c != .char ' ' && c != .char '\\'

theorem weight_cons (c : CodePoint) (cs : List CodePoint) : weight (c :: cs) = weight [c] + weight cs := by
  rw [weight, weight, weight, List.countP_cons, List.countP_singleton]
  omega

theorem weight_append (cs ds : List CodePoint) : weight (cs ++ ds) = weight cs + weight ds :=
  List.countP_append

theorem weight_le_of_sublist {cs ds : List CodePoint} (h : cs.Sublist ds) : weight cs ≤ weight ds :=
  h.countP_le

theorem weight_singleton_le (c : CodePoint) : weight [c] ≤ 1 := List.countP_le_length

/-! ### Escaping -/

theorem weight_letter? {d x : CodePoint} (h : letter? d = some x) : weight [x] = weight [d] := by
  unfold letter? at h
  split_ifs at h <;> cases h <;> subst_vars <;> decide

theorem Unescapes.weight_le {cs ds : List CodePoint} (h : Unescapes cs ds) : weight ds ≤ weight cs := by
  induction h with
  | nil => exact le_rfl
  | @keep c cs ds _ ih =>
    rw [weight_cons c cs, weight_cons c ds]
    exact Nat.add_le_add_left ih _
  | @letter d x cs ds hx _ ih =>
    rw [weight_cons x ds, weight_cons _ (d :: cs), weight_cons d cs, weight_letter? hx]
    omega
  | @code mark x digits cs ds _ hmark _ _ ih =>
    -- the mark of the code weighs as much as any character
    have hx := weight_singleton_le x
    have hmark : weight [mark] = 1 := by
      rcases hmark with rfl | rfl <;> decide
    rw [weight_cons x ds, weight_cons _ (mark :: _), weight_cons mark (digits ++ cs), weight_append, hmark]
    omega

theorem weight_escapeChars (cs : List CodePoint) : weight (escapeChars cs) = weight cs := by
  induction cs with
  | nil => rfl
  | cons c cs ih =>
    unfold escapeChars at ih ⊢
    rw [List.flatMap_cons, weight_append, ih, weight_cons c]
    rcases escapeChar_cases c with ⟨d, hc, hd, -⟩ | ⟨hc, -⟩
    · have hslash : weight [.char '\\', d] = weight [d] := by
        rw [weight_cons]
        exact Nat.zero_add _
      rw [hc, hslash, weight_letter? hd]
    · rw [hc]

/-! ### Values -/

theorem weight_replaceBreaks (cs : List CodePoint) :
    weight (replaceBreaks cs) ≤ weight cs ∧
      (weight cs ≤ weight (replaceBreaks cs) → replaceBreaks cs = cs) := by
  induction cs with
  | nil => exact ⟨le_rfl, fun _ => rfl⟩
  | cons c cs ih =>
    obtain ⟨hle, heq⟩ := ih
    unfold replaceBreaks at hle heq ⊢
    rw [List.map_cons, weight_cons, weight_cons c]
    split
    · rename_i hbreak
      have hblank : weight [.char ' '] = 0 := by decide
      have hc : weight [c] = 1 := by
        rcases hbreak with rfl | rfl | rfl <;> decide
      rw [hblank, hc]
      exact ⟨by omega, fun h => absurd h (by omega)⟩
    · exact ⟨by omega, fun h => by rw [heq (by omega)]⟩

theorem collapseBlanks_sublist (cs : List CodePoint) : (collapseBlanks cs).Sublist cs := by
  fun_induction collapseBlanks cs with
  | case1 => exact .slnil
  | case2 c => exact List.Sublist.refl _
  | case3 c d rest _ ih => exact ih.cons c
  | case4 c d rest _ ih => exact ih.cons_cons c

theorem trim_sublist (cs : List CodePoint) : (Text.trim cs).Sublist cs := by
  have hend : (Text.trimEnd (Text.trimStart cs)).Sublist (Text.trimStart cs) := by
    rw [← List.reverse_sublist, Text.trimEnd, List.reverse_reverse]
    exact List.dropWhile_sublist _
  exact hend.trans (List.dropWhile_sublist _)

/-- A value that its datatype changes gets lighter, or at least shorter. -/
theorem weight_normalize (datatype : Option Text) (value : Text) :
    weight (normalize datatype value).toList ≤ weight value.toList ∧
      (normalize datatype value).length ≤ value.length ∧
      (weight value.toList ≤ weight (normalize datatype value).toList →
        value.length ≤ (normalize datatype value).length → normalize datatype value = value) := by
  have hreplace := weight_replaceBreaks value.toList
  have hlength : (replaceBreaks value.toList).length = value.toList.length := List.length_map _
  unfold normalize
  split
  · rw [Text.toList_ofList, ← Text.length_toList, ← Text.length_toList, Text.toList_ofList]
    exact ⟨hreplace.1, hlength.le, fun h _ => by rw [hreplace.2 h, Text.ofList_toList]⟩
  · split
    · rw [Text.toList_ofList, ← Text.length_toList, ← Text.length_toList, Text.toList_ofList]
      have hsub := (collapseBlanks_sublist _).trans (trim_sublist (replaceBreaks value.toList))
      have hweight := weight_le_of_sublist hsub
      refine ⟨hweight.trans hreplace.1, hlength ▸ hsub.length_le, fun h hshort => ?_⟩
      -- no break was replaced, so the length tells whether blanks were dropped
      rw [hreplace.2 (h.trans hweight)] at hsub ⊢
      rw [hreplace.2 (h.trans hweight)] at hshort
      rw [hsub.eq_of_length_le hshort, Text.ofList_toList]
    · exact ⟨le_rfl, le_rfl, fun _ _ => rfl⟩

/-! ### Nodes -/

theorem weight_readIri {cs rest : List CodePoint} {node : Node} (h : readIri cs = .ok (node, rest)) :
    weight (spellNode node) + weight rest ≤ weight (.char '<' :: cs) := by
  obtain ⟨written, iri, -, rfl, hiri, rfl⟩ := readIri_eq_ok h
  have hweight := (unescapes_of_decode hiri).weight_le
  rw [spellNode, weight_cons, weight_append, weight_cons '<' (written ++ _), weight_append,
    weight_cons '>' rest]
  omega

theorem weight_spellLiteral (l : LiteralNode) :
    weight (spellNode (.literal l)) = 2 + weight l.value.toList + weight (spellSuffix l) := by
  have hquote : weight [.char '"'] = 1 := by decide
  rw [spellNode, weight_cons, weight_append, weight_cons '"' (spellSuffix l), weight_escapeChars, hquote]
  omega

theorem weight_readLiteral {cs rest : List CodePoint} {node : Node} (h : readLiteral cs = .ok (node, rest)) :
    weight (spellNode node) + weight rest ≤ weight (.char '"' :: cs) := by
  obtain ⟨written, after, value, htext, hvalue, hnode⟩ := readLiteral_eq_ok h
  have hweight := (unescapes_of_decode hvalue).weight_le
  have hquote : weight [.char '"'] = 1 := by decide
  rw [literalText_eq_some htext, weight_cons, weight_append, weight_cons '"' after, hquote]
  -- plain, with a language or with a datatype
  rcases hnode with ⟨rfl, rfl⟩ | ⟨tag, language, rfl, htag, rfl⟩ |
    ⟨tail, datatype, iri, rfl, -, rfl, hiri, rfl⟩
  · have hsuffix : spellSuffix ⟨value, none, none⟩ = [] := rfl
    rw [weight_spellLiteral, hsuffix]
    show 2 + weight value.toList + 0 + weight rest ≤ _
    omega
  · obtain ⟨rfl, -, -⟩ := languageTag?_eq_some htag
    have hsuffix : spellSuffix ⟨value, none, some (Text.ofList language)⟩ = .char '@' :: language := by
      simp [spellSuffix]
    rw [weight_spellLiteral, hsuffix, weight_cons _ language, weight_cons _ (language ++ rest),
      weight_append]
    dsimp only
    omega
  · have hiri := (unescapes_of_decode hiri).weight_le
    have hnormalize := (weight_normalize (some iri) value).1
    have hsuffix : spellSuffix ⟨normalize (some iri) value, some iri, none⟩ =
        [.char '^', .char '^', .char '<'] ++ (iri.toList ++ [.char '>']) := rfl
    have hafter : .char '^' :: .char '^' :: .char '<' :: (datatype ++ .char '>' :: rest) =
        [.char '^', .char '^', .char '<'] ++ (datatype ++ [.char '>'] ++ rest) := by simp
    rw [weight_spellLiteral, hsuffix, hafter, weight_append, weight_append, weight_append, weight_append,
      weight_append]
    dsimp only
    omega

theorem weight_readObject {cs rest : List CodePoint} {node : Node} (hproper : node.IsProper)
    (h : readObject cs = .ok (node, rest)) : weight (spellNode node) + weight rest ≤ weight cs := by
  unfold readObject at h
  split at h
  · exact weight_readIri h
  · obtain ⟨label, rfl⟩ := readNodeLabel_eq_ok h
    exact absurd hproper id
  · exact weight_readLiteral h
  · cases h

/-! ### Triples -/

theorem weight_spell (t : Triple) : weight (spell t) =
    weight (spellNode t.subject) + weight (spellNode t.predicate) + weight (spellNode t.object) + 1 := by
  have hblank : weight [.char ' '] = 0 := by decide
  have hstop : weight [.char ' ', .char '.'] = 1 := by decide
  rw [spell, weight_append, weight_cons, weight_append, weight_cons _ (spellNode t.object ++ _),
    weight_append, hblank, hstop]
  omega

theorem weight_gap {cs rest : List CodePoint} (h : gap cs = .ok rest) : weight rest ≤ weight cs := by
  obtain ⟨-, rfl⟩ := gap_eq_ok_iff.mp h
  exact weight_le_of_sublist (List.dropWhile_sublist _)

theorem weight_endsLine {cs : List CodePoint} (h : endsLine cs = true) : 1 ≤ weight cs := by
  unfold endsLine at h
  split at h
  · rename_i rest hrest
    have hsub : weight (.char '.' :: rest) ≤ weight cs := by
      rw [← hrest]
      exact weight_le_of_sublist (List.dropWhile_sublist _)
    have hstop : weight [.char '.'] = 1 := by decide
    rw [weight_cons] at hsub
    omega
  · cases h

/-- The line of a triple is no heavier than the line that the triple was read from. -/
theorem weight_spell_le {w : List CodePoint} {t : Triple} (hproper : t.IsProper)
    (h : readTriple w = .ok (some t)) : weight (spell t) ≤ weight w := by
  obtain ⟨afterSubject, beforePredicate, afterPredicate, beforeObject, afterObject, hsubject, hgap,
    hpredicate, hgap', hobject, hend⟩ := readTriple_eq_ok h
  have hline : weight (w.dropWhile isGap) ≤ weight w := weight_le_of_sublist (List.dropWhile_sublist _)
  obtain ⟨subject, predicate, object⟩ := t
  obtain ⟨⟨u₁, rfl⟩, ⟨u₂, rfl⟩, hproper⟩ := hproper
  have hiri : ∀ u, (Node.iri u).IsProper := fun _ => trivial
  have hsubject := weight_readObject (hiri u₁) (readObject_of_readSubject hsubject)
  have hpredicate := weight_readObject (hiri u₂) (readObject_of_readPredicate hpredicate)
  have hobject := weight_readObject hproper hobject
  have hgap := weight_gap hgap
  have hgap' := weight_gap hgap'
  have hend := weight_endsLine hend
  rw [weight_spell]
  dsimp only at hsubject hpredicate hobject ⊢
  omega

/-! ### Lines -/

/-- A line that is not all of a text is lighter than the text. -/
theorem weight_of_mem_lines {cs w : List CodePoint} (h : w ∈ Text.lines (cs ++ [.char '\n'])) :
    w = cs ∧ Unbroken cs ∨ weight w < weight cs := by
  by_cases hunbroken : Unbroken cs
  · rw [Text.lines_append hunbroken] at h
    exact .inl ⟨List.mem_singleton.mp h, hunbroken⟩
  · -- what is left out has some weight
    right
    have hsub := weight_le_of_sublist (Text.sublist_of_mem_lines h)
    have hfeed : (cs ++ [CodePoint.char '\n']).filter (fun c => !Text.isLineBreak c) =
        cs.filter fun c => !Text.isLineBreak c := by
      simp [List.filter_append, show Text.isLineBreak '\n' = true from rfl]
    rw [hfeed] at hsub
    have hsplit : weight cs = weight (cs.filter fun c => !Text.isLineBreak c) +
        weight (cs.filter fun c => !!Text.isLineBreak c) :=
      List.countP_eq_countP_filter_add cs _ _
    have hbreak : 0 < weight (cs.filter fun c => !!Text.isLineBreak c) := by
      simp only [Unbroken, not_forall, Bool.not_eq_false] at hunbroken
      obtain ⟨c, hc, hcbreak⟩ := hunbroken
      refine List.countP_pos_iff.mpr ⟨c, List.mem_filter.mpr ⟨hc, by simpa using hcbreak⟩, ?_⟩
      rw [Bool.and_eq_true, bne_iff_ne, bne_iff_ne]
      constructor <;> rintro rfl <;> cases hcbreak
    omega

theorem weight_of_mem_pieces {cs w : List CodePoint} (h : w ∈ pieces cs) : weight w ≤ weight cs :=
  weight_le_of_sublist (sublist_of_mem_pieces h)

end Ontogram.NTriples

/-
How raw text is refused.

A line that cannot be used is reported with its text, but for one case: a code that no character has is reported
alone, even on a line that is no triple. So it matters which texts of a line the reader comes to decode:

* `IsStray` — an escaped text with a code beyond all characters;
* `NodeText` — a node at the start of a text and what is written in it, whatever the codes are;
* `strays_readTriple_iff` — the reader of a line ends at a code iff a node of the line has a stray one;
* `raw_failure_names_line_iff` — a text that cannot be used is reported with its first unusable line, and a document
  with this text refused, iff no node of the line has a stray code.
-/
import Ontogram.Proofs.LineReading
import Ontogram.Proofs.LineSequence
import Ontogram.Proofs.Responses
import Ontogram.Service.Endpoint
namespace Ontogram

namespace NTriples

open Traversal (bind_eq_error_iff exists_map_eq_ok_iff mapM_eq_error_iff)

/-! ### Codes -/

/-- The codes of an escaped text, which is gone through from left to right. -/
inductive HasCode : List CodePoint → Nat → Prop
  | here {mark : CodePoint} {cs rest : List CodePoint} {n : Nat} (hletter : letter? mark = none)
      (hcode : code? mark cs = some (n, rest)) : HasCode (.char '\\' :: mark :: cs) n
  | code {mark : CodePoint} {cs rest : List CodePoint} {m n : Nat} (hletter : letter? mark = none)
      (hcode : code? mark cs = some (m, rest)) (h : HasCode rest n) : HasCode (.char '\\' :: mark :: cs) n
  | letter {d x : CodePoint} {cs : List CodePoint} {n : Nat} (hletter : letter? d = some x) (h : HasCode cs n) :
      HasCode (.char '\\' :: d :: cs) n
  | slash {d : CodePoint} {cs : List CodePoint} {n : Nat} (hletter : letter? d = none) (hcode : code? d cs = none)
      (h : HasCode (d :: cs) n) : HasCode (.char '\\' :: d :: cs) n
  | keep {c : CodePoint} {cs : List CodePoint} {n : Nat} (hc : c ≠ '\\') (h : HasCode cs n) : HasCode (c :: cs) n

/-- A code of the text is beyond all characters. -/
def IsStray (cs : List CodePoint) : Prop := ∃ n, HasCode cs n ∧ 0x10FFFF < n

theorem not_isStray_nil : ¬ IsStray [] := by
  rintro ⟨n, h, -⟩
  cases h

theorem not_isStray_singleton (c : CodePoint) : ¬ IsStray [c] := by
  rintro ⟨n, h, -⟩
  cases h with
  | keep _ h => cases h

theorem isStray_keep_iff {c : CodePoint} (hc : c ≠ '\\') {cs : List CodePoint} : IsStray (c :: cs) ↔ IsStray cs := by
  refine exists_congr fun n => and_congr_left fun _ => ⟨fun h => ?_, .keep hc⟩
  cases h with
  | keep _ h => exact h
  | here | code | letter | slash => exact absurd rfl hc

theorem isStray_letter_iff {d x : CodePoint} (hletter : letter? d = some x) {cs : List CodePoint} :
    IsStray (.char '\\' :: d :: cs) ↔ IsStray cs := by
  refine exists_congr fun n => and_congr_left fun _ => ⟨fun h => ?_, .letter hletter⟩
  cases h with
  | letter _ h => exact h
  | here hnone | code hnone | slash hnone => cases hnone.symm.trans hletter
  | keep hc => exact absurd rfl hc

theorem isStray_slash_iff {d : CodePoint} (hletter : letter? d = none) {cs : List CodePoint}
    (hcode : code? d cs = none) : IsStray (.char '\\' :: d :: cs) ↔ IsStray (d :: cs) := by
  refine exists_congr fun n => and_congr_left fun _ => ⟨fun h => ?_, .slash hletter hcode⟩
  cases h with
  | slash _ _ h => exact h
  | letter hsome => cases hsome.symm.trans hletter
  | here _ hsome | code _ hsome => cases hsome.symm.trans hcode
  | keep hc => exact absurd rfl hc

theorem isStray_code_iff {mark : CodePoint} (hletter : letter? mark = none) {cs rest : List CodePoint} {n : Nat}
    (hcode : code? mark cs = some (n, rest)) :
    IsStray (.char '\\' :: mark :: cs) ↔ 0x10FFFF < n ∨ IsStray rest := by
  constructor
  · rintro ⟨m, h, hm⟩
    cases h with
    | here _ hsome =>
      cases hsome.symm.trans hcode
      exact .inl hm
    | code _ hsome h =>
      cases hsome.symm.trans hcode
      exact .inr ⟨m, h, hm⟩
    | letter hsome => cases hsome.symm.trans hletter
    | slash _ hnone => cases hnone.symm.trans hcode
    | keep hc => exact absurd rfl hc
  · rintro (hn | ⟨m, h, hm⟩)
    · exact ⟨n, .here hletter hcode, hn⟩
    · exact ⟨m, .code hletter hcode h, hm⟩

theorem ofCode_isOk_iff {n : Nat} : (∃ x, ofCode n = .ok x) ↔ n ≤ 0x10FFFF := by
  unfold ofCode
  split
  · rename_i hn
    simp [hn]
  · rename_i hn
    split <;> simp [hn]

/-- Unescaping fails on stray codes and on nothing else. -/
theorem unescapeChars_isOk_iff {cs : List CodePoint} : (∃ ds, unescapeChars cs = .ok ds) ↔ ¬ IsStray cs := by
  fun_induction unescapeChars cs with
  | case1 => exact iff_of_true ⟨_, rfl⟩ not_isStray_nil
  | case2 c => exact iff_of_true ⟨_, rfl⟩ (not_isStray_singleton c)
  | case3 d rest x hx ih => rw [exists_map_eq_ok_iff, ih, isStray_letter_iff hx]
  | case4 d rest hletter n rest' hcode x hx ih =>
    have hn : ¬ 0x10FFFF < n := Nat.not_lt.mpr (ofCode_isOk_iff.mp ⟨x, hx⟩)
    rw [exists_map_eq_ok_iff, ih, isStray_code_iff hletter hcode, or_iff_right hn]
  | case5 d rest hletter n rest' hcode e he =>
    -- here unescaping ends, whatever follows the code
    have hn : 0x10FFFF < n := by
      by_contra hle
      obtain ⟨x, hx⟩ := ofCode_isOk_iff.mpr (Nat.not_lt.mp hle)
      cases he.symm.trans hx
    refine iff_of_false ?_ (not_not.mpr ((isStray_code_iff hletter hcode).mpr (.inl hn)))
    rintro ⟨_, ⟨⟩⟩
  | case6 d rest hletter hcode ih => rw [exists_map_eq_ok_iff, ih, isStray_slash_iff hletter hcode]
  | case7 c d rest hc ih => rw [exists_map_eq_ok_iff, ih, isStray_keep_iff hc]

/-! ### Readings that end at a code -/

/-- The reading ends at a code that is no character. -/
def Strays {α : Type} (r : Reading α) : Prop := ∃ e, r = .error (.escape e)

section Strays

variable {α β : Type}

theorem not_strays_ok (a : α) : ¬ Strays (.ok a : Reading α) := by
  rintro ⟨_, ⟨⟩⟩

theorem not_strays_syntaxError : ¬ Strays (.error .syntaxError : Reading α) := by
  rintro ⟨_, ⟨⟩⟩

theorem strays_bind_iff {x : Reading α} {f : α → Reading β} :
    Strays (x >>= f) ↔ Strays x ∨ ∃ a, x = .ok a ∧ Strays (f a) := by
  simp only [Strays, bind_eq_error_iff, exists_or]
  refine or_congr_right ⟨?_, ?_⟩
  · rintro ⟨e, a, ha, he⟩
    exact ⟨a, ha, e, he⟩
  · rintro ⟨a, ha, e, he⟩
    exact ⟨e, a, ha, he⟩

end Strays

theorem decode_isOk_iff {cs : List CodePoint} : (∃ s, decode cs = .ok s) ↔ ¬ IsStray cs := by
  rw [← unescapeChars_isOk_iff]
  unfold decode
  cases unescapeChars cs <;> simp

theorem strays_decode_iff {cs : List CodePoint} : Strays (decode cs) ↔ IsStray cs := by
  rw [← not_not (a := IsStray cs), ← unescapeChars_isOk_iff]
  unfold Strays decode
  cases unescapeChars cs <;> simp

/-! ### Nodes -/

/-- What follows the closing quote of a literal: a language, the text of a datatype, or neither. -/
inductive LiteralEnd : List CodePoint → Option (List CodePoint) → List CodePoint → Prop
  | tagged {tag language rest : List CodePoint} (h : languageTag? tag = some (language, rest)) :
      LiteralEnd (.char '@' :: tag) none rest
  | typed {datatype rest : List CodePoint} (h : IsIriText datatype) :
      LiteralEnd (.char '^' :: .char '^' :: .char '<' :: (datatype ++ .char '>' :: rest)) (some datatype) rest
  | plain {rest : List CodePoint} (htag : ∀ tag, rest = .char '@' :: tag → languageTag? tag = none)
      (htyped : ∀ datatype after, IsIriText datatype →
        rest ≠ .char '^' :: .char '^' :: .char '<' :: (datatype ++ .char '>' :: after)) : LiteralEnd rest none rest

/-- A node in the given place at the start of a text: the texts written in it, in the order in which they are
decoded, and what stands behind it. -/
inductive NodeText : Role → List CodePoint → List (List CodePoint) → List CodePoint → Prop
  | iri {role : Role} {written rest : List CodePoint} (h : IsIriText written) :
      NodeText role (.char '<' :: (written ++ .char '>' :: rest)) [written] rest
  | blank {role : Role} {cs rest : List CodePoint} {node : Node} (hrole : role ≠ .predicate)
      (h : readNodeLabel cs = .ok (node, rest)) : NodeText role (.char '_' :: cs) [] rest
  | literal {cs value after rest : List CodePoint} {datatype : Option (List CodePoint)}
      (hvalue : literalText cs = some (value, after)) (hend : LiteralEnd after datatype rest) :
      NodeText .object (.char '"' :: cs) (datatype.toList ++ [value]) rest

def readAt : Role → List CodePoint → Reading (Node × List CodePoint)
  | .subject => readSubject
  | .predicate => readPredicate
  | .object => readObject

/-- The reading decodes the texts, and if it succeeds it stops there. -/
structure Decodes (texts : List (List CodePoint)) (rest : List CodePoint) (r : Reading (Node × List CodePoint)) :
    Prop where
  strays_iff : Strays r ↔ ∃ t ∈ texts, IsStray t
  isOk_iff : ∀ behind, (∃ node, r = .ok (node, behind)) ↔ behind = rest ∧ ∀ t ∈ texts, ¬ IsStray t

theorem decodes_ok (node : Node) (rest : List CodePoint) : Decodes [] rest (.ok (node, rest)) where
  strays_iff := iff_of_false (not_strays_ok _) (by simp)
  isOk_iff behind := by simp [eq_comm]

theorem Decodes.bind {texts : List (List CodePoint)} {t rest : List CodePoint}
    {f : Text → Reading (Node × List CodePoint)} (h : ∀ s, Decodes texts rest (f s)) :
    Decodes (t :: texts) rest (decode t >>= f) := by
  by_cases ht : IsStray t
  · obtain ⟨e, he⟩ := strays_decode_iff.mpr ht
    rw [he]
    exact
      { strays_iff := iff_of_true ⟨e, rfl⟩ ⟨t, List.mem_cons_self, ht⟩
        isOk_iff := fun behind => iff_of_false (by rintro ⟨_, ⟨⟩⟩) fun h => h.2 t List.mem_cons_self ht }
  · obtain ⟨s, hs⟩ := decode_isOk_iff.mpr ht
    rw [hs]
    exact
      { strays_iff := (h s).strays_iff.trans (by simp [ht])
        isOk_iff := fun behind => ((h s).isOk_iff behind).trans (by simp [ht]) }

theorem decodes_readIri {written rest : List CodePoint} (h : IsIriText written) :
    Decodes [written] rest (readIri (written ++ .char '>' :: rest)) := by
  rw [readIri, iriText_eq_ok_iff.mpr ⟨h, rfl⟩]
  exact .bind fun s => decodes_ok _ _

theorem decodes_readLiteral {cs value after rest : List CodePoint} {datatype : Option (List CodePoint)}
    (hvalue : literalText cs = some (value, after)) (hend : LiteralEnd after datatype rest) :
    Decodes (datatype.toList ++ [value]) rest (readLiteral cs) := by
  unfold readLiteral
  rw [hvalue]
  cases hend with
  | tagged h =>
    simp only [h]
    exact .bind fun s => decodes_ok _ _
  | typed h =>
    simp only [iriText_eq_ok_iff.mpr ⟨h, rfl⟩]
    exact .bind fun datatype => .bind fun s => decodes_ok _ _
  | plain htag htyped =>
    -- what looks like a language or a datatype and is none is left to the rest of the line
    dsimp only
    split
    · rename_i tag
      rw [htag tag rfl]
      exact .bind fun s => decodes_ok _ _
    · rename_i iri
      split
      · rename_i datatype after h
        obtain ⟨hshape, rfl⟩ := iriText_eq_ok_iff.mp h
        exact absurd rfl (htyped _ _ hshape)
      · exact .bind fun s => decodes_ok _ _
    · exact .bind fun s => decodes_ok _ _

theorem exists_literalEnd (after : List CodePoint) : ∃ datatype rest, LiteralEnd after datatype rest := by
  by_cases htag : ∃ tag language rest, after = .char '@' :: tag ∧ languageTag? tag = some (language, rest)
  · obtain ⟨tag, language, rest, rfl, h⟩ := htag
    exact ⟨none, rest, .tagged h⟩
  by_cases htyped : ∃ datatype rest, IsIriText datatype ∧
      after = .char '^' :: .char '^' :: .char '<' :: (datatype ++ .char '>' :: rest)
  · obtain ⟨datatype, rest, h, rfl⟩ := htyped
    exact ⟨some datatype, rest, .typed h⟩
  refine ⟨none, after, .plain (fun tag hafter => ?_) fun datatype rest h hafter => ?_⟩
  · by_contra hsome
    obtain ⟨⟨language, rest⟩, h⟩ := Option.ne_none_iff_exists'.mp hsome
    exact htag ⟨tag, language, rest, hafter, h⟩
  · exact htyped ⟨datatype, rest, h, hafter⟩

theorem decodes_readAt {role : Role} {cs rest : List CodePoint} {texts : List (List CodePoint)}
    (h : NodeText role cs texts rest) : Decodes texts rest (readAt role cs) := by
  cases h with
  | iri h => cases role <;> exact decodes_readIri h
  | @blank _ cs _ node hrole h =>
    have hread : readAt role (.char '_' :: cs) = .ok (node, rest) := by
      cases role with
      | predicate => exact absurd rfl hrole
      | subject | object => exact h
    rw [hread]
    exact decodes_ok _ _
  | literal hvalue hend => exact decodes_readLiteral hvalue hend

theorem iriText_eq_error {cs : List CodePoint}
    (h : ∀ written rest, IsIriText written → cs ≠ written ++ .char '>' :: rest) :
    iriText cs = .error .syntaxError := by
  cases htext : iriText cs with
  | ok read =>
    obtain ⟨hshape, rfl⟩ := iriText_eq_ok_iff.mp htext
    exact absurd rfl (h _ _ hshape)
  | error e =>
    unfold iriText at htext
    split at htext
    · split at htext
      · cases htext
      · exact htext.symm
    · exact htext.symm

theorem readNodeLabel_eq_error {cs : List CodePoint} (h : ∀ node rest, readNodeLabel cs ≠ .ok (node, rest)) :
    readNodeLabel cs = .error .syntaxError := by
  cases hread : readNodeLabel cs with
  | ok read => exact absurd hread (h _ _)
  | error e =>
    unfold readNodeLabel at hread
    split at hread
    · split at hread
      · cases hread
      · exact hread.symm
    · exact hread.symm

/-- Where no node begins, nothing is decoded. -/
theorem readAt_eq_error {role : Role} {cs : List CodePoint} (h : ∀ texts rest, ¬ NodeText role cs texts rest) :
    readAt role cs = .error .syntaxError := by
  -- identifiers and labels are read alike in all places
  have hiri {rest : List CodePoint} (hcs : cs = .char '<' :: rest) : readIri rest = .error .syntaxError := by
    have htext : iriText rest = .error .syntaxError :=
      iriText_eq_error fun written after hshape hrest => h [written] after (hcs ▸ hrest ▸ .iri hshape)
    rw [readIri, htext]
    rfl
  have hblank {rest : List CodePoint} (hrole : role ≠ .predicate) (hcs : cs = .char '_' :: rest) :
      readNodeLabel rest = .error .syntaxError :=
    readNodeLabel_eq_error fun node after hread => h [] after (hcs ▸ .blank hrole hread)
  cases role with
  | subject =>
    show readSubject cs = _
    unfold readSubject
    split
    · exact hiri rfl
    · exact hblank (by simp) rfl
    · rfl
  | predicate =>
    show readPredicate cs = _
    unfold readPredicate
    split
    · exact hiri rfl
    · rfl
  | object =>
    show readObject cs = _
    unfold readObject
    split
    · exact hiri rfl
    · exact hblank (by simp) rfl
    · rename_i rest
      cases hvalue : literalText rest with
      | none => rw [readLiteral, hvalue]
      | some read =>
        obtain ⟨datatype, after, hend⟩ := exists_literalEnd read.2
        exact absurd (.literal hvalue hend) (h _ _)
    · rfl

/-- A reading goes on behind the node if it comes to its end. -/
theorem strays_readAt_bind_iff {α : Type} {role : Role} {cs : List CodePoint} {f : Node × List CodePoint → Reading α}
    {P : List CodePoint → Prop} (hf : ∀ node rest, Strays (f (node, rest)) ↔ P rest) :
    Strays (readAt role cs >>= f) ↔
      ∃ texts rest, NodeText role cs texts rest ∧ ((∃ t ∈ texts, IsStray t) ∨ P rest) := by
  rw [strays_bind_iff]
  constructor
  · intro h
    by_cases hnode : ∃ texts rest, NodeText role cs texts rest
    · obtain ⟨texts, rest, hnode⟩ := hnode
      refine ⟨texts, rest, hnode, ?_⟩
      rcases h with h | ⟨⟨node, behind⟩, hread, h⟩
      · exact .inl ((decodes_readAt hnode).strays_iff.mp h)
      · obtain ⟨rfl, -⟩ := ((decodes_readAt hnode).isOk_iff behind).mp ⟨node, hread⟩
        exact .inr ((hf node behind).mp h)
    · rw [readAt_eq_error fun texts rest h => hnode ⟨texts, rest, h⟩] at h
      rcases h with h | ⟨_, hread, -⟩
      · exact absurd h not_strays_syntaxError
      · cases hread
  · rintro ⟨texts, rest, hnode, h⟩
    by_cases hstray : ∃ t ∈ texts, IsStray t
    · exact .inl ((decodes_readAt hnode).strays_iff.mpr hstray)
    · have hfine : ∀ t ∈ texts, ¬ IsStray t := fun t ht hs => hstray ⟨t, ht, hs⟩
      obtain ⟨node, hread⟩ := ((decodes_readAt hnode).isOk_iff rest).mpr ⟨rfl, hfine⟩
      exact .inr ⟨_, hread, (hf node rest).mpr (h.resolve_left hstray)⟩

/-- The node in the given place has a stray code, or there is one behind the gap that follows. -/
def StrayFrom (role : Role) (P : List CodePoint → Prop) (cs : List CodePoint) : Prop :=
  ∃ texts rest, NodeText role cs texts rest ∧
    ((∃ t ∈ texts, IsStray t) ∨ ∃ behind, gap rest = .ok behind ∧ P behind)

theorem strays_readAt_gap_bind_iff {α : Type} {role : Role} {cs : List CodePoint}
    {f : Node × List CodePoint → List CodePoint → Reading α} {P : List CodePoint → Prop}
    (hf : ∀ read cs, Strays (f read cs) ↔ P cs) :
    Strays (readAt role cs >>= fun read => gap read.2 >>= f read) ↔ StrayFrom role P cs := by
  refine strays_readAt_bind_iff fun node rest => ?_
  have hgap : ¬ Strays (gap rest) := by
    unfold gap
    split
    · exact not_strays_ok _
    · exact not_strays_syntaxError
  rw [strays_bind_iff, or_iff_right hgap]
  exact exists_congr fun behind => and_congr_right fun _ => hf (node, rest) behind

/-! ### Lines -/

/-- The subject of the line has a stray code, or the predicate behind it, or the object behind that. -/
def HasStrayNode (line : List CodePoint) : Prop :=
  StrayFrom .subject (StrayFrom .predicate (StrayFrom .object fun _ => False)) (line.dropWhile isGap)

/-- The reader of a line ends at a code iff a node of the line has a stray one; what follows the object, or stands
in the place of a node, does not matter. -/
theorem strays_readTriple_iff {line : List CodePoint} : Strays (readTriple line) ↔ HasStrayNode line := by
  unfold HasStrayNode
  -- an empty line and a comment hold no triple, and they begin with no node
  cases hline : line.dropWhile isGap with
  | nil =>
    refine iff_of_false ?_ ?_
    · rw [readTriple, hline]
      exact not_strays_ok none
    · rintro ⟨_, _, ⟨⟩, -⟩
  | cons c cs =>
    by_cases hc : c = '#'
    · subst hc
      refine iff_of_false ?_ ?_
      · rw [readTriple, hline]
        exact not_strays_ok none
      · rintro ⟨_, _, ⟨⟩, -⟩
    · have hread : readTriple line = (readAt .subject (c :: cs) >>= fun subject => gap subject.2 >>= fun cs =>
          readAt .predicate cs >>= fun predicate => gap predicate.2 >>= fun cs =>
          readAt .object cs >>= fun object =>
          if endsLine object.2 then pure (some ⟨subject.1, predicate.1, object.1⟩)
          else .error .syntaxError) := by
        rw [readTriple, hline]
        exact if_neg hc
      -- nothing is decoded behind the object
      have hobject (subject predicate : Node) (cs : List CodePoint) : Strays (readAt .object cs >>= fun object =>
          if endsLine object.2 then pure (some (Triple.mk subject predicate object.1))
          else .error .syntaxError) ↔ StrayFrom .object (fun _ => False) cs := by
        refine (strays_readAt_bind_iff (P := fun _ => False) fun object rest => iff_of_false ?_ id).trans ?_
        · split
          · exact not_strays_ok _
          · exact not_strays_syntaxError
        · simp [StrayFrom]
      rw [hread]
      exact strays_readAt_gap_bind_iff fun subject _ =>
        strays_readAt_gap_bind_iff fun predicate cs => hobject subject.1 predicate.1 cs

theorem strays_triples_iff {line : List CodePoint} (h : Unbroken line) : Strays (triples line) ↔ HasStrayNode line := by
  have htriples : triples line = readTriple line >>= fun t => pure ([t].filterMap id) := by
    rw [triples, pieces_of_unbroken h, List.mapM_cons]
    cases readTriple line <;> rfl
  rw [htriples, strays_bind_iff, strays_readTriple_iff]
  exact or_iff_left fun ⟨_, _, ht⟩ => not_strays_ok _ ht

variable {declared : PrefixMap}

/-- A line that cannot be used is reported with its text, unless a code in it is. -/
theorem parseLine_eq_error {line : Text} (h : Unbroken line.toList) {e : RawError}
    (he : parseLine declared line = .error e) :
    (∃ fault, e = .line line fault) ∧ ¬ HasStrayNode line.toList ∨
      (∃ code, e = .escape code) ∧ HasStrayNode line.toList := by
  rw [← strays_triples_iff h]
  unfold parseLine at he
  split at he
  · rename_i htriples
    cases he
    exact .inl ⟨⟨_, rfl⟩, htriples ▸ not_strays_syntaxError⟩
  · rename_i code htriples
    cases he
    exact .inr ⟨⟨_, rfl⟩, code, htriples⟩
  · rename_i t htriples
    split at he
    · cases he
    · cases he
      exact .inl ⟨⟨_, rfl⟩, htriples ▸ not_strays_ok _⟩
  · rename_i htriples
    cases he
    exact .inl ⟨⟨_, rfl⟩, htriples ▸ not_strays_ok _⟩

/-! ### Texts -/

/-- The lines that are no blank lines and no comments. -/
def contentLines (text : Text) : List Text :=
  ((Text.lines text.toList).filter fun line => !isComment line).map Text.ofList

/-- The first line that cannot be used. -/
structure IsFirstUnusable (declared : PrefixMap) (text line : Text) : Prop where
  splits : ∃ before after, contentLines text = before ++ line :: after ∧
    ∀ l ∈ before, ∃ s, parseLine declared l = .ok s
  unusable : ∀ s, parseLine declared line ≠ .ok s

theorem unbroken_of_mem_contentLines {text line : Text} (h : line ∈ contentLines text) :
    Unbroken line.toList := by
  obtain ⟨cs, hcs, rfl⟩ := List.mem_map.mp h
  rw [Text.toList_ofList]
  exact Text.unbroken_of_mem_lines (List.mem_filter.mp hcs).1

theorem parseRaw_eq (declared : PrefixMap) (text : Text) : parseRaw declared text =
    (contentLines text).mapM (parseLine declared) >>= fun found => pure found.eraseDups := by
  rw [parseRaw, contentLines, List.mapM_map]
  rfl

theorem exists_isFirstUnusable {text : Text} {e : RawError} (h : parseRaw declared text = .error e) :
    ∃ line, IsFirstUnusable declared text line := by
  rw [parseRaw_eq] at h
  rcases bind_eq_error_iff.mp h with h | ⟨_, _, h⟩
  · obtain ⟨before, line, after, hlines, hbefore, he⟩ := mapM_eq_error_iff.mp h
    refine ⟨line, ⟨before, after, hlines, hbefore⟩, fun s hs => ?_⟩
    cases he.symm.trans hs
  · cases h

/-- Of the errors of raw text, the service answers those that name their line with a refusal, if that can be sent. -/
theorem status_refused_iff {e : RawError} : (Service.refused (.raw e)).status = 400 ↔
    (∃ source fault, e = .line source fault) ∧ e.message.isEncodable = true := by
  cases e with
  | line source fault =>
    have hrefused : Service.refused (.raw (.line source fault)) =
        .refusal 400 (RawError.line source fault).message := rfl
    rw [hrefused, Service.Response.status_refusal (by decide)]
    exact (and_iff_right ⟨source, fault, rfl⟩).symm
  | escape code =>
    have hstatus : (Service.refused (.raw (.escape code))).status = 500 := rfl
    refine iff_of_false (by simp [hstatus]) ?_
    rintro ⟨⟨_, _, ⟨⟩⟩, -⟩

namespace IsFirstUnusable

variable {text line : Text} (h : IsFirstUnusable declared text line)

include h

theorem unbroken_toList : Unbroken line.toList := by
  obtain ⟨before, after, hlines, -⟩ := h.splits
  exact unbroken_of_mem_contentLines (hlines ▸ List.mem_append_right before List.mem_cons_self)

/-- A text is refused as its first unusable line is. -/
theorem refused : ∃ e, parseLine declared line = .error e ∧ parseRaw declared text = .error e := by
  obtain ⟨⟨before, after, hlines, hbefore⟩, hunusable⟩ := h
  cases he : parseLine declared line with
  | ok s => exact absurd he (hunusable s)
  | error e =>
    refine ⟨e, rfl, ?_⟩
    rw [parseRaw_eq]
    exact bind_eq_error_iff.mpr (.inl (mapM_eq_error_iff.mpr ⟨before, line, after, hlines, hbefore, he⟩))

end IsFirstUnusable

/-- A text is accepted iff all its lines can be used. If not, its first unusable line is reported, and a document
with this text is refused, unless a node of the line has a stray code. The refusal is sent iff its message has a form
in UTF-8. -/
theorem raw_failure_names_line_iff (declared : PrefixMap) (text : Text) :
    ((∃ raw, parseRaw declared text = .ok raw) ↔ ∀ line, ¬ IsFirstUnusable declared text line) ∧
      ∀ line, IsFirstUnusable declared text line →
        ((∃ fault, parseRaw declared text = .error (.line line fault) ∧
          (RawError.line line fault).message = fault.message ++ "\nSource: " ++ line) ↔
        ¬ HasStrayNode line.toList) ∧
        ∀ canonical d, d.namespaces = declared → d.rawStatements = text →
          ∃ e, Compilation.ofDocument canonical d = .error e ∧
            ((Service.refused e).status = 400 ↔ ¬ HasStrayNode line.toList ∧ e.message.isEncodable = true) := by
  refine ⟨⟨?_, fun hnone => ?_⟩, fun line hline => ?_⟩
  · rintro ⟨raw, hraw⟩ line hline
    obtain ⟨e, -, he⟩ := hline.refused
    cases hraw.symm.trans he
  · cases hraw : parseRaw declared text with
    | ok raw => exact ⟨raw, rfl⟩
    | error e =>
      obtain ⟨line, hline⟩ := exists_isFirstUnusable hraw
      exact absurd hline (hnone line)
  · obtain ⟨e, hparse, hraw⟩ := hline.refused
    have hdocument (canonical : Text) (d : Document) (hdeclared : d.namespaces = declared)
        (htext : d.rawStatements = text) : Compilation.ofDocument canonical d = .error (.raw e) := by
      simp only [Compilation.ofDocument, hdeclared, htext, hraw]
    rw [hraw]
    rcases parseLine_eq_error hline.unbroken_toList hparse with ⟨⟨fault, rfl⟩, hstray⟩ | ⟨⟨code, rfl⟩, hstray⟩
    · refine ⟨iff_of_true ⟨fault, rfl, rfl⟩ hstray, fun canonical d hdeclared htext => ?_⟩
      refine ⟨_, hdocument canonical d hdeclared htext, status_refused_iff.trans (and_congr_left' ?_)⟩
      exact iff_of_true ⟨line, fault, rfl⟩ hstray
    · refine ⟨iff_of_false ?_ (not_not.mpr hstray), fun canonical d hdeclared htext => ?_⟩
      · rintro ⟨fault, ⟨⟩, -⟩
      · refine ⟨_, hdocument canonical d hdeclared htext, status_refused_iff.trans (and_congr_left' ?_)⟩
        refine iff_of_false ?_ (not_not.mpr hstray)
        rintro ⟨_, _, ⟨⟩⟩

/-- A line about a node without a name is the first one that cannot be used, and it is reported. -/
theorem raw_failure_names_line_blankNode :
    IsFirstUnusable [("x", "http://x/")] "# note\n_:b <http://x/p> <http://x/o> .\n?"
        "_:b <http://x/p> <http://x/o> ." ∧
      ¬ HasStrayNode ("_:b <http://x/p> <http://x/o> ." : Text).toList ∧
      ∃ fault, parseRaw [("x", "http://x/")] "# note\n_:b <http://x/p> <http://x/o> .\n?" =
          .error (.line "_:b <http://x/p> <http://x/o> ." fault) ∧
        (RawError.line "_:b <http://x/p> <http://x/o> ." fault).message =
          fault.message ++ "\nSource: " ++ "_:b <http://x/p> <http://x/o> ." := by
  have hlines : contentLines "# note\n_:b <http://x/p> <http://x/o> .\n?" =
      ["_:b <http://x/p> <http://x/o> .", "?"] := by decide +kernel
  have hline : parseLine [("x", "http://x/")] "_:b <http://x/p> <http://x/o> ." =
      .error (.line "_:b <http://x/p> <http://x/o> ." (.blankNode .subject)) := by decide +kernel
  have hfirst : IsFirstUnusable [("x", "http://x/")] "# note\n_:b <http://x/p> <http://x/o> .\n?"
      "_:b <http://x/p> <http://x/o> ." :=
    ⟨⟨[], _, hlines, by simp⟩, fun s hs => by cases hline.symm.trans hs⟩
  have hread : readTriple ("_:b <http://x/p> <http://x/o> ." : Text).toList =
      .ok (some ⟨.blank "b", .iri "http://x/p", .iri "http://x/o"⟩) := by decide +kernel
  have hstray : ¬ HasStrayNode ("_:b <http://x/p> <http://x/o> ." : Text).toList :=
    strays_readTriple_iff.not.mp (hread ▸ not_strays_ok _)
  exact ⟨hfirst, hstray, ((raw_failure_names_line_iff _ _).2 _ hfirst).1.mpr hstray⟩

/-- A code beyond all characters in the object of a triple is not reported as a fault of its line. -/
theorem raw_failure_without_line :
    ∃ e, parseRaw [("x", "http://x/")] "<http://x/s> <http://x/p> \"\\U00110000\" ." = .error e ∧
      ∀ source fault, e ≠ .line source fault := by
  have hraw : parseRaw [("x", "http://x/")] "<http://x/s> <http://x/p> \"\\U00110000\" ." =
      .error (.escape .beyondUnicode) := by decide +kernel
  refine ⟨_, hraw, ?_⟩
  rintro source fault ⟨⟩

end NTriples

end Ontogram

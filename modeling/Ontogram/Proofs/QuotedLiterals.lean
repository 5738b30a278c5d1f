/-
Quoted literals, written and read back.

Both views escape a literal alike as long as it stays on one line, and both readers undo it, the one of notes and the
one of raw lines. An escaped value has no quote that closes it early and no line end that breaks it off:

* `unescape_escapeChars`, `body?_escapeChars` — the reader of notes finds the end of an escaped value, and the value;
* `parse_quoted_eq_some_iff` — what is read from a quoted value, whatever stands behind its quotes;
* `QuotesObject`, `parseLine_of_quotesObject` — what is read from a raw line about a quoted value;
* `quoted_value_comes_back` — both readers and both writers together.
-/
import Ontogram.Proofs.LineSequence
import Ontogram.Proofs.LineSpelling
import Ontogram.Proofs.QuotedText
import Ontogram.Proofs.Tagging
import Ontogram.Turtle.Writer
namespace Ontogram

open NTriples (escapeChars forall_mem_of_any_eq_false)
open Traversal (bind_eq_ok_iff mapM_eq_ok_iff)

/-- An escaped value between quotes. -/
def quoted (value : Text) : Text := "\"" ++ NTriples.escape value ++ "\""

theorem toList_quoted (value : Text) :
    (quoted value).toList = .char '"' :: (escapeChars value.toList ++ [.char '"']) := by
  simp [quoted, NTriples.escape]

namespace LiteralText

/-! ### Literals of notes -/

theorem unescape_cons {c : CodePoint} (h : c ≠ '\\') (rest : List CodePoint) :
    unescape (c :: rest) = c :: unescape rest := by
  cases rest with
  | nil => rfl
  | cons d rest => rw [unescape, if_neg h]

/-- An escaped character is read back, with a backslash or without one. -/
theorem unescape_escapeChar (c : CodePoint) (rest : List CodePoint) :
    unescape (NTriples.escapeChar c ++ rest) = c :: unescape rest := by
  unfold NTriples.escapeChar
  by_cases h₁ : c = '\\'
  · subst h₁
    rfl
  by_cases h₂ : c = '\n'
  · subst h₂
    rfl
  by_cases h₃ : c = '\r'
  · subst h₃
    rfl
  by_cases h₄ : c = '\t'
  · subst h₄
    rfl
  by_cases h₅ : c = '"'
  · subst h₅
    rfl
  rw [if_neg h₁, if_neg h₂, if_neg h₃, if_neg h₄, if_neg h₅]
  exact unescape_cons h₁ rest

theorem unescape_escapeChars (cs : List CodePoint) : unescape (escapeChars cs) = cs := by
  induction cs with
  | nil => rfl
  | cons c cs ih =>
    unfold escapeChars at ih ⊢
    rw [List.flatMap_cons, unescape_escapeChar, ih]

theorem body?_quote (rest : List CodePoint) : body? '"' (.char '"' :: rest) = some ([], rest) := by
  cases rest <;> simp [body?]

theorem body?_cons {c : CodePoint} (hquote : c ≠ '"') (hslash : c ≠ '\\') (rest : List CodePoint) :
    body? '"' (c :: rest) = (body? '"' rest).map fun p => (c :: p.1, p.2) := by
  cases rest <;> simp [body?, hquote, hslash]

/-- The text of a literal ends where its escaped value ends. -/
theorem body?_escapeChars (cs rest : List CodePoint) :
    body? '"' (escapeChars cs ++ .char '"' :: rest) = some (escapeChars cs, rest) := by
  induction cs with
  | nil => exact body?_quote rest
  | cons c cs ih =>
    unfold escapeChars at ih ⊢
    rw [List.flatMap_cons, List.append_assoc]
    rcases NTriples.escapeChar_cases c with ⟨d, hc, -, hbreak, -⟩ | ⟨hc, hslash, hquote, -, -⟩
    · -- behind the backslash there is a letter, a quote or a backslash, but no line feed
      have hfeed : d ≠ '\n' := by
        rintro rfl
        cases hbreak
      rw [hc]
      simp [body?, ih, hfeed]
    · rw [hc, List.cons_append, List.nil_append, body?_cons hquote hslash, ih]
      rfl

/-- Two quotes in a row at the start belong to an empty value, and a third one does not follow. -/
theorem ne_quotes_of_escapeChars {cs after : List CodePoint} (h : after.head? ≠ some (.char '"'))
    (rest : List CodePoint) :
    escapeChars cs ++ .char '"' :: after ≠ .char '"' :: .char '"' :: rest := by
  intro heq
  cases cs with
  | nil =>
    obtain ⟨-, rfl⟩ := List.cons.inj heq
    exact h rfl
  | cons c cs =>
    rw [escapeChars, List.flatMap_cons, List.append_assoc] at heq
    rcases NTriples.escapeChar_cases c with ⟨d, hc, -⟩ | ⟨hc, -, hquote, -⟩
    · rw [hc] at heq
      cases heq
    · rw [hc] at heq
      exact hquote (List.cons.inj heq).1

theorem parseQuoted_eq_short {quote : CodePoint} {cs : List CodePoint} (h : ∀ rest, cs ≠ quote :: quote :: rest) :
    parseQuoted quote cs = parseQuoted.short quote cs := by
  unfold parseQuoted
  split
  · rename_i a b rest
    refine if_neg ?_
    rintro ⟨rfl, rfl⟩
    exact h rest rfl
  · rfl

/-- A quoted value is read with whatever suffix may stand behind its quotes, blanks at the end apart. -/
theorem parse_quoted_eq_some_iff {value suffix : Text} (h : suffix.toList.head? ≠ some (.char '"')) {l : LiteralText} :
    parse (quoted value ++ suffix) = some l ↔ ∃ language datatype,
      IsSuffix (Text.trimEnd suffix.toList) language datatype ∧ l = ⟨value, language, datatype⟩ := by
  have htrim : Text.trim (quoted value ++ suffix).toList =
      .char '"' :: (escapeChars value.toList ++ .char '"' :: Text.trimEnd suffix.toList) := by
    have htext : (quoted value ++ suffix).toList =
        (.char '"' :: escapeChars value.toList) ++ .char '"' :: suffix.toList := by
      simp [toList_quoted]
    rw [htext, Text.trim, List.cons_append, Text.trimStart_cons (by decide), ← List.cons_append,
      Text.trimEnd_append_cons (by decide), List.cons_append]
  have hhead : (Text.trimEnd suffix.toList).head? ≠ some (.char '"') := by
    intro hquote
    obtain ⟨rest, hrest⟩ := List.head?_eq_some_iff.mp hquote
    obtain ⟨more, hmore⟩ := Text.trimEnd_prefix suffix.toList
    exact h (by rw [← hmore, hrest]; rfl)
  have hparse : parse (quoted value ++ suffix) =
      (parseSuffix (Text.trimEnd suffix.toList)).map fun p => ⟨value, p.1, p.2⟩ := by
    rw [parse, htrim, parseChars, if_pos (.inl rfl), parseQuoted_eq_short (ne_quotes_of_escapeChars hhead),
      parseQuoted.short, body?_escapeChars]
    simp only [unescape_escapeChars, Text.ofList_toList]
  rw [hparse, Option.map_eq_some_iff]
  constructor
  · rintro ⟨⟨language, datatype⟩, hsuffix, rfl⟩
    exact ⟨language, datatype, parseSuffix_eq_some_iff.mp hsuffix, rfl⟩
  · rintro ⟨language, datatype, hsuffix, rfl⟩
    exact ⟨(language, datatype), parseSuffix_eq_some_iff.mpr hsuffix, rfl⟩

theorem IsSuffix.not_isBlank {cs : List CodePoint} {language datatype : Option Text}
    (h : IsSuffix cs language datatype) : ∀ c ∈ cs, Text.isBlank c = false := by
  cases h with
  | nothing => exact List.forall_mem_nil _
  | language h =>
    refine List.forall_mem_cons.mpr ⟨by decide, fun c hc => ?_⟩
    exact NTriples.IsTagChar.not_isBlank (NTriples.isTagChar_of_mem (NTriples.isTag_of_isNoteTag h) c hc)
  | datatype _ h =>
    exact List.forall_mem_cons.mpr ⟨by decide, List.forall_mem_cons.mpr ⟨by decide, h⟩⟩

/-- A quoted value with a suffix is read as that value with what the suffix says. -/
theorem parse_quoted_of_isSuffix {value suffix : Text} {language datatype : Option Text}
    (h : IsSuffix suffix.toList language datatype) :
    parse (quoted value ++ suffix) = some ⟨value, language, datatype⟩ := by
  have hhead : suffix.toList.head? ≠ some (.char '"') := by
    intro hquote
    cases h' : suffix.toList with
    | nil => simp [h'] at hquote
    | cons c rest =>
      rw [h'] at h hquote
      cases h <;> cases hquote
  have htrim : Text.trimEnd suffix.toList = suffix.toList :=
    Text.trimEnd_eq_self fun c hc => h.not_isBlank c (List.mem_of_getLast? hc)
  refine (parse_quoted_eq_some_iff hhead).mpr ⟨language, datatype, ?_, rfl⟩
  rwa [htrim]

end LiteralText

namespace NTriples

/-! ### Literals of raw lines -/

/-- A written identifier that the declared namespaces have a name for. -/
def IsNamed (declared : PrefixMap) (written : List CodePoint) (name : Text) : Prop :=
  IsIriText written ∧ ∃ iri, decode written = .ok iri ∧ Name.shorten declared iri = .ok name

/-- Blanks and tabs. -/
def IsGapText (cs : List CodePoint) : Prop := ∀ c ∈ cs, isGap c = true

instance (cs : List CodePoint) : Decidable (IsGapText cs) := decidable_of_iff (cs.all isGap = true) List.all_eq_true

/-- A line with named identifiers for its subject and its predicate and a quoted text for its object. A comment may
follow its full stop. -/
inductive QuotesObject (declared : PrefixMap) (subject predicate : Text) (text : List CodePoint) : List CodePoint → Prop
  | line {lead written gap written' gap' before after comment : List CodePoint} (hlead : IsGapText lead)
      (hsubject : IsNamed declared written subject) (hgap : gap ≠ [] ∧ IsGapText gap)
      (hpredicate : IsNamed declared written' predicate) (hgap' : gap' ≠ [] ∧ IsGapText gap')
      (hbefore : IsGapText before) (hafter : IsGapText after) (hcomment : ∀ c ∈ comment.head?, c = '#') :
      QuotesObject declared subject predicate text
        (lead ++ .char '<' :: (written ++ .char '>' :: (gap ++ .char '<' :: (written' ++ .char '>' :: (gap' ++
          .char '"' :: (text ++ .char '"' :: (before ++ .char '.' :: (after ++ comment))))))))

theorem endsLine_of_isGapText {before after comment : List CodePoint} (hbefore : IsGapText before)
    (hafter : IsGapText after) (hcomment : ∀ c ∈ comment.head?, c = '#') :
    endsLine (before ++ .char '.' :: (after ++ comment)) = true := by
  unfold endsLine
  rw [List.dropWhile_append_of_pos hbefore, List.dropWhile_cons_of_neg (by decide)]
  simp only
  rw [List.dropWhile_append_of_pos hafter]
  cases comment with
  | nil => rfl
  | cons c rest =>
    obtain rfl := hcomment c rfl
    rfl

/-- In front of a blank or a full stop a quoted value has neither a language nor a datatype. -/
theorem readLiteral_escapeChars (value : Text) {rest : List CodePoint} (hrest : ∀ c ∈ rest.head?, c ≠ '@' ∧ c ≠ '^') :
    readLiteral (escapeChars value.toList ++ .char '"' :: rest) = .ok (.literal ⟨value, none, none⟩, rest) := by
  unfold readLiteral
  simp only [literalText_escapeChars, decode_escapeChars]
  split
  · exact absurd rfl (hrest '@' rfl).1
  · exact absurd rfl (hrest '^' rfl).2
  · rfl

variable {declared : PrefixMap} {subject predicate value : Text} {line : List CodePoint}

theorem readTriple_of_quotesObject
    (h : QuotesObject declared subject predicate (escapeChars value.toList) line) :
    ∃ iri iri', readTriple line = .ok (some ⟨.iri iri, .iri iri', .literal ⟨value, none, none⟩⟩) ∧
      Name.shorten declared iri = .ok subject ∧ Name.shorten declared iri' = .ok predicate := by
  cases h with
  | @line lead written gap written' gap' before after comment hlead hsubject hgap hpredicate hgap' hbefore hafter
      hcomment =>
    obtain ⟨hshape, iri, hiri, hname⟩ := hsubject
    obtain ⟨hshape', iri', hiri', hname'⟩ := hpredicate
    refine ⟨iri, iri', ?_, hname, hname'⟩
    have hrest : ∀ c ∈ (before ++ .char '.' :: (after ++ comment)).head?, c ≠ '@' ∧ c ≠ '^' := by
      intro c hc
      cases before with
      | nil =>
        cases hc
        decide
      | cons b before =>
        cases hc
        have hb := hbefore c List.mem_cons_self
        constructor <;> rintro rfl <;> cases hb
    unfold readTriple
    rw [List.dropWhile_append_of_pos hlead, List.dropWhile_cons_of_neg (by decide)]
    simp only
    rw [if_neg (by decide)]
    refine bind_eq_ok_iff.mpr ⟨_, readIri_append hshape hiri _, ?_⟩
    refine bind_eq_ok_iff.mpr ⟨_, gap_append hgap.1 hgap.2 (by decide) _, ?_⟩
    refine bind_eq_ok_iff.mpr ⟨_, readIri_append hshape' hiri' _, ?_⟩
    refine bind_eq_ok_iff.mpr ⟨_, gap_append hgap'.1 hgap'.2 (by decide) _, ?_⟩
    refine bind_eq_ok_iff.mpr ⟨_, readLiteral_escapeChars value hrest, ?_⟩
    exact if_pos (endsLine_of_isGapText hbefore hafter hcomment)

/-- A line about a quoted value is read as the statement with that value. -/
theorem parseLine_of_quotesObject
    (h : QuotesObject declared subject predicate (escapeChars value.toList) line) (hfeed : .char '\n' ∉ line)
    (hreturn : .char '\r' ∉ line) :
    parseLine declared (Text.ofList line) = .ok ⟨subject, predicate, .literal ⟨value, none, none⟩⟩ := by
  obtain ⟨iri, iri', hread, hname, hname'⟩ := readTriple_of_quotesObject h
  rw [parseLine_eq_ok_iff, Text.toList_ofList]
  have hsubject : nameOfNode declared .subject (.iri iri) = .ok subject := nameOf_eq_ok_iff.mpr hname
  have hpredicate : nameOfNode declared .predicate (.iri iri') = .ok predicate := nameOf_eq_ok_iff.mpr hname'
  have hobject : termOf declared .object (.literal ⟨value, none, none⟩) = .ok (.literal ⟨value, none, none⟩) := rfl
  refine ⟨⟨.iri iri, .iri iri', .literal ⟨value, none, none⟩⟩, ?_, bind_eq_ok_iff.mpr ⟨_, hsubject,
    bind_eq_ok_iff.mpr ⟨_, hpredicate, bind_eq_ok_iff.mpr ⟨_, hobject, rfl⟩⟩⟩⟩
  rw [triples, pieces_eq_singleton hfeed hreturn]
  exact bind_eq_ok_iff.mpr ⟨_, mapM_eq_ok_iff.mpr (.cons hread .nil), rfl⟩

end NTriples

/-! ### Both views -/

/-- On one line the grouped view writes a plain literal as the flat view does. -/
theorem Turtle.renderTerm_plain {value : Text} (h : .char '\n' ∉ value.toList) :
    renderTerm (.literal ⟨value, none, none⟩) = quoted value := by
  have hbare : isBare ⟨value, none, none⟩ = false := rfl
  have hlayout : layout false value.toList = none := by simp [layout, h]
  rw [← Text.toList_inj, toList_quoted]
  show (renderLiteral ⟨value, none, none⟩).toList = _
  rw [renderLiteral, hbare]
  simp [nonempty, quote_of_not_layout hlayout]

/-- Both readers take a quoted value for what it was before it was escaped: that of notes with whatever suffix may
stand behind the quotes, that of raw lines in any line about it. The grouped view quotes a plain value on one line as
the flat view does. -/
theorem quoted_value_comes_back (value : Text) :
    LiteralText.parse (quoted value) = some ⟨value, none, none⟩ ∧
      (∀ suffix language datatype, LiteralText.IsSuffix suffix.toList language datatype →
        LiteralText.parse (quoted value ++ suffix) = some ⟨value, language, datatype⟩) ∧
      (∀ suffix l, suffix.toList.head? ≠ some (.char '"') → LiteralText.parse (quoted value ++ suffix) = some l →
        ∃ language datatype, LiteralText.IsSuffix (Text.trimEnd suffix.toList) language datatype ∧
          l = ⟨value, language, datatype⟩) ∧
      (∀ declared subject predicate line,
        NTriples.QuotesObject declared subject predicate (escapeChars value.toList) line → .char '\n' ∉ line →
        .char '\r' ∉ line → NTriples.parseLine declared (Text.ofList line) =
          .ok ⟨subject, predicate, .literal ⟨value, none, none⟩⟩) ∧
      (.char '\n' ∉ value.toList → Turtle.renderTerm (.literal ⟨value, none, none⟩) = quoted value) := by
  refine ⟨?_, fun _ _ _ h => LiteralText.parse_quoted_of_isSuffix h,
    fun _ _ hhead h => (LiteralText.parse_quoted_eq_some_iff hhead).mp h,
    fun _ _ _ _ h hfeed hreturn => NTriples.parseLine_of_quotesObject h hfeed hreturn,
    fun h => Turtle.renderTerm_plain h⟩
  have hnothing : LiteralText.IsSuffix ("" : Text).toList none none := .nothing
  have hread : LiteralText.parse (quoted value ++ "") = _ := LiteralText.parse_quoted_of_isSuffix hnothing
  rwa [Text.append_empty] at hread

/-- A quote, a backslash and both breaks come back, with a language and from a raw line with a comment. -/
theorem quoted_value_comes_back_breaks :
    NTriples.QuotesObject [("x", "http://x/")] "x:s" "x:p" (escapeChars ("a\"b\\\r\n" : Text).toList)
        ("<http://x/s> <http://x/p>\t\"a\\\"b\\\\\\r\\n\" . # note" : Text).toList ∧
      NTriples.parseLine [("x", "http://x/")] "<http://x/s> <http://x/p>\t\"a\\\"b\\\\\\r\\n\" . # note" =
        .ok ⟨"x:s", "x:p", .literal ⟨"a\"b\\\r\n", none, none⟩⟩ ∧
      LiteralText.parse "\"a\\\"b\\\\\\r\\n\"@en-GB" = some ⟨"a\"b\\\r\n", some "en-GB", none⟩ := by
  have hquoted : quoted "a\"b\\\r\n" ++ "@en-GB" = "\"a\\\"b\\\\\\r\\n\"@en-GB" := by decide +kernel
  have hsuffix : LiteralText.IsSuffix ("@en-GB" : Text).toList (some "en-GB") none :=
    LiteralText.parseSuffix_eq_some_iff.mp (by decide +kernel)
  have hsubject : NTriples.IsNamed [("x", "http://x/")] ("http://x/s" : Text).toList "x:s" :=
    ⟨⟨("http" : Text).toList, ("//x/s" : Text).toList, by decide, by decide, forall_mem_of_any_eq_false (by decide),
      rfl⟩, "http://x/s", by decide +kernel, by decide +kernel⟩
  have hpredicate : NTriples.IsNamed [("x", "http://x/")] ("http://x/p" : Text).toList "x:p" :=
    ⟨⟨("http" : Text).toList, ("//x/p" : Text).toList, by decide, by decide, forall_mem_of_any_eq_false (by decide),
      rfl⟩, "http://x/p", by decide +kernel, by decide +kernel⟩
  have hline : NTriples.QuotesObject [("x", "http://x/")] "x:s" "x:p" (escapeChars ("a\"b\\\r\n" : Text).toList)
      ("<http://x/s> <http://x/p>\t\"a\\\"b\\\\\\r\\n\" . # note" : Text).toList :=
    @NTriples.QuotesObject.line _ _ _ _ [] _ [.char ' '] _ [.char '\t'] [.char ' '] [.char ' ']
      ("# note" : Text).toList (by decide) hsubject
      ⟨by decide, by decide⟩ hpredicate ⟨by decide, by decide⟩ (by decide) (by decide)
      fun c hc => (Option.some_inj.mp hc).symm
  obtain ⟨-, hread, -, hraw, -⟩ := quoted_value_comes_back "a\"b\\\r\n"
  refine ⟨hline, ?_, hquoted ▸ hread _ _ _ hsuffix⟩
  have hparsed := hraw _ _ _ _ hline (by decide) (by decide)
  rwa [Text.ofList_toList] at hparsed

end Ontogram

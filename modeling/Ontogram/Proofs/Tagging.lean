/-
The languages and datatypes of literals.

A literal comes into a statement from a rule, from the label of a note, from a text on the diagram or from a
raw line. Each way it has a language or a datatype or neither, and a language is a tag that the reader of
lines takes whole:

* `Literal.IsSingle` — such a literal;
* `isTag_of_noteLabel`, `LiteralText.exists_suffix_of_parse` — the tags of notes and of written literals;
* `LiteralText.IsSuffix` — what may stand behind the quotes of a written literal;
* `isSingle_of_mem_statements` — the statements of an accepted document have no other literals.
-/
import Ontogram.Proofs.Acceptance
namespace Ontogram

/-- The language of a literal, if it has one, is a tag. -/
def Term.IsTagged (o : Term) : Prop :=
  ∀ l tag, o = .literal l → nonempty l.language = some tag → NTriples.IsTag tag.toList

/-- A literal with a language or with a datatype or with neither. -/
structure Literal.IsSingle (l : Literal) : Prop where
  single : l.language = none ∨ l.datatype = none
  isTag : ∀ tag ∈ l.language, NTriples.IsTag tag.toList
  isQualified : ∀ n ∈ l.datatype, Name.IsQualified n

theorem Literal.isSingle_untyped {value : Text} {language : Option Text}
    (h : ∀ tag ∈ language, NTriples.IsTag tag.toList) : IsSingle ⟨value, none, language⟩ :=
  ⟨.inr rfl, h, by rintro _ ⟨⟩⟩

theorem Literal.isSingle_typed {value datatype : Text} (h : Name.IsQualified datatype) :
    IsSingle ⟨value, some datatype, none⟩ :=
  ⟨.inl rfl, by rintro _ ⟨⟩, by rintro _ ⟨⟩; exact h⟩

namespace Literal.IsSingle

variable {l : Literal} (h : l.IsSingle)

include h

theorem nonempty_language : nonempty l.language = l.language := by
  cases hl : l.language with
  | none => rfl
  | some tag => exact nonempty_of_ne (h.isTag tag hl).ne_empty

theorem nonempty_datatype : nonempty l.datatype = l.datatype := by
  cases hl : l.datatype with
  | none => rfl
  | some n =>
    refine nonempty_of_ne ?_
    rintro rfl
    exact absurd (h.isQualified "" hl) (by decide)

theorem language_eq_none {n : Text} (hn : l.datatype = some n) : l.language = none :=
  h.single.resolve_right (hn ▸ Option.some_ne_none n)

/-- Literals of one datatype are told apart by their texts. -/
theorem eq_of_datatype {m : Literal} (hm : m.IsSingle) {n : Text} (hln : l.datatype = some n)
    (hmn : m.datatype = some n) (hvalue : l.value = m.value) : l = m := by
  have hllanguage := h.language_eq_none hln
  have hmlanguage := hm.language_eq_none hmn
  obtain ⟨value, _, _⟩ := l
  obtain ⟨value', _, _⟩ := m
  simp_all

end Literal.IsSingle

/-- The object, if it is a literal, is such a one. -/
def Term.IsSingle (o : Term) : Prop := ∀ l, o = .literal l → l.IsSingle

theorem Term.IsSingle.isTagged {o : Term} (h : o.IsSingle) : o.IsTagged :=
  fun l tag hl htag => (h l hl).isTag tag (nonempty_eq_some htag)

/-! ### Labels and notes -/

theorem isTag_of_noteLabel {text : Text} {label : NoteLabel} (h : NoteLabel.parse text = some label) :
    NTriples.IsTag label.language.toList := by
  have hdefault : NTriples.IsTag NoteLabel.defaultLanguage.toList := by
    unfold NTriples.IsTag
    decide
  obtain ⟨h, -⟩ := Option.filter_eq_some_iff.mp h
  split at h
  · cases h
    exact hdefault
  · dsimp only at h
    split at h
    · rename_i htag
      cases h
      rw [Text.toList_ofList]
      exact NTriples.isTag_of_isNoteTag (NTriples.isLanguageTag_iff.mp htag)
    · cases h
  · cases h

namespace LiteralText

/-- What may stand behind the closing quotes: nothing, a language or a datatype. -/
inductive IsSuffix : List CodePoint → Option Text → Option Text → Prop
  | nothing : IsSuffix [] none none
  | language {tag : List CodePoint} (h : NTriples.IsNoteTag tag) :
      IsSuffix (.char '@' :: tag) (some (Text.ofList tag)) none
  | datatype {name : List CodePoint} (hne : name ≠ []) (h : ∀ c ∈ name, Text.isBlank c = false) :
      IsSuffix (.char '^' :: .char '^' :: name) none (some (Text.ofList name))

theorem parseSuffix_eq_some_iff {cs : List CodePoint} {language datatype : Option Text} :
    parseSuffix cs = some (language, datatype) ↔ IsSuffix cs language datatype := by
  constructor
  · intro h
    unfold parseSuffix at h
    split at h
    · cases h
      exact .nothing
    · split at h
      · rename_i htag
        cases h
        exact .language (NTriples.isLanguageTag_iff.mp htag)
      · cases h
    · split at h
      · rename_i hname
        cases h
        rw [Bool.and_eq_true, List.all_eq_true] at hname
        exact .datatype (by simpa using hname.1) fun c hc => by simpa using hname.2 c hc
      · cases h
    · cases h
  · intro h
    cases h with
    | nothing => rfl
    | language h => exact if_pos (NTriples.isLanguageTag_iff.mpr h)
    | datatype hne h =>
      refine if_pos ?_
      rw [Bool.and_eq_true, List.all_eq_true]
      exact ⟨by simpa using hne, fun c hc => by simpa using h c hc⟩

theorem IsSuffix.isTag {cs : List CodePoint} {language datatype : Option Text} (h : IsSuffix cs language datatype) :
    ∀ tag ∈ language, NTriples.IsTag tag.toList := by
  cases h with
  | language h =>
    rintro _ ⟨⟩
    rw [Text.toList_ofList]
    exact NTriples.isTag_of_isNoteTag h
  | nothing | datatype => rintro _ ⟨⟩

theorem IsSuffix.single {cs : List CodePoint} {language datatype : Option Text} (h : IsSuffix cs language datatype) :
    language = none ∨ datatype = none := by
  cases h with
  | nothing | datatype => exact .inl rfl
  | language => exact .inr rfl

theorem suffix_of_longBody? {quote : CodePoint} {cs body : List CodePoint} {suffix : Option Text × Option Text}
    (h : longBody? quote cs = some (body, suffix)) : ∃ after, parseSuffix after = some suffix := by
  induction cs generalizing body with
  | nil => cases h
  | cons c rest ih =>
    unfold longBody? at h
    dsimp only at h
    split at h
    · rename_i found hfound
      cases h
      split at hfound
      · split at hfound
        · exact ⟨_, hfound⟩
        · cases hfound
      · cases hfound
    · obtain ⟨⟨body', suffix'⟩, hrest, h⟩ := Option.map_eq_some_iff.mp h
      cases h
      exact ih hrest

theorem exists_suffix_of_short {quote : CodePoint} {cs : List CodePoint} {l : LiteralText}
    (h : parseQuoted.short quote cs = some l) :
    ∃ after, parseSuffix after = some (l.language, l.datatype) := by
  unfold parseQuoted.short at h
  split at h
  · cases h
  · obtain ⟨⟨language, datatype⟩, hsuffix, h⟩ := Option.map_eq_some_iff.mp h
    cases h
    exact ⟨_, hsuffix⟩

/-- What a written literal has besides its text was read behind the text. -/
theorem exists_suffix_of_parse {text : Text} {l : LiteralText} (h : parse text = some l) :
    ∃ after, parseSuffix after = some (l.language, l.datatype) := by
  unfold parse parseChars at h
  split at h
  · split at h
    · unfold parseQuoted at h
      split at h
      · split at h
        · obtain ⟨⟨body, language, datatype⟩, hbody, h⟩ := Option.map_eq_some_iff.mp h
          cases h
          exact suffix_of_longBody? hbody
        · exact exists_suffix_of_short h
      · exact exists_suffix_of_short h
    · cases h
  · cases h

theorem single_of_parse {text : Text} {l : LiteralText} (h : parse text = some l) :
    l.language = none ∨ l.datatype = none := by
  obtain ⟨_, hafter⟩ := exists_suffix_of_parse h
  exact (parseSuffix_eq_some_iff.mp hafter).single

theorem isTag_of_parse {text : Text} {l : LiteralText} (h : parse text = some l) :
    ∀ tag ∈ l.language, NTriples.IsTag tag.toList := by
  obtain ⟨_, hafter⟩ := exists_suffix_of_parse h
  exact (parseSuffix_eq_some_iff.mp hafter).isTag

end LiteralText

/-- The rules declare such literals only. -/
theorem Diagram.isSingle_of_declares {d : Diagram} {s : Statement} (h : d.Declares s) :
    s.object.IsSingle := by
  have hname : ∀ n, (Term.name n).IsSingle := by rintro n _ ⟨⟩
  have hnat : ∀ n, (Term.literal (.ofNat n)).IsSingle := by
    rintro n _ ⟨⟩
    exact Literal.isSingle_typed (by decide)
  have hdescribes : ∀ {kind link subject name object : Text} {c : Cardinality} {s : Statement},
      Describes kind link subject name object c s → s.object.IsSingle := by
    intro kind link subject name object c s h
    cases h with
    | min => exact hnat _
    | max => exact hnat _
    | _ => exact hname _
  cases h with
  | domainName =>
    rintro _ ⟨⟩
    exact Literal.isSingle_untyped (by rintro _ ⟨⟩)
  | attributeOf _ hs => exact hdescribes hs
  | relationshipOf _ hs => exact hdescribes hs
  | annotationOf h =>
    rintro _ ⟨⟩
    exact Literal.isSingle_untyped (by rintro _ ⟨⟩; exact isTag_of_noteLabel h.labelled)
  | spelledOut h =>
    obtain ⟨_, -, hobject⟩ := h.object
    cases hobject with
    | name => exact hname _
    | untyped hparsed _ =>
      rintro _ ⟨⟩
      exact Literal.isSingle_untyped (LiteralText.isTag_of_parse hparsed)
    | typed hparsed htyped hresolved =>
      rintro _ ⟨⟩
      have hnone := (LiteralText.single_of_parse hparsed).resolve_right (by simp [htyped])
      rw [hnone]
      exact Literal.isSingle_typed (Name.isQualified_of_resolve hresolved)
  | enumerationOf => rintro _ ⟨⟩
  | primaryKeyOf => rintro _ ⟨⟩
  | _ => exact hname _

theorem Diagram.isSingle_of_mem_allStatements {d : Diagram}
    (hid : ∀ id e, (id, e) ∈ d.elements → e.id = id) {s : Statement} (h : s ∈ d.allStatements) :
    s.object.IsSingle := by
  rcases declares_or_keyList hid h with h | ⟨k, -, rfl⟩
  · exact isSingle_of_declares h
  · rintro _ ⟨⟩

theorem NTriples.isSingle_of_mem_parseRaw {declared : PrefixMap} {text : Text} {raw : List Statement}
    (h : parseRaw declared text = .ok raw) {s : Statement} (hs : s ∈ raw) : s.object.IsSingle := by
  obtain ⟨_, -, piece, -, t, hread, hstatement⟩ := mem_parseRaw h hs
  obtain ⟨_, _, _, _, _, -, -, -, -, hobject, -⟩ := readTriple_eq_ok hread
  obtain ⟨-, -, hterm⟩ := statementOf_eq_ok hstatement
  intro l hl
  rw [hl] at hterm
  rcases termOf_eq_ok hterm with ⟨_, _, -, -, ⟨⟩⟩ | ⟨node, hnode, -, ⟨⟩⟩ |
    ⟨node, iri, name, hnode, hdatatype, hname, ⟨⟩⟩
  · rw [hnode] at hobject
    exact Literal.isSingle_untyped fun tag htag => (language_of_readObject hobject tag htag).1
  · rw [hnode] at hobject
    have hnone : node.language = none := by
      refine Option.eq_none_iff_forall_not_mem.mpr fun tag htag => ?_
      cases (language_of_readObject hobject tag htag).2.symm.trans (nonempty_eq_some hdatatype)
    obtain ⟨label, _, localPart, -, -, -, rfl⟩ := Name.shorten_eq_ok hname
    rw [hnone]
    exact Literal.isSingle_typed (Name.isQualified_append label localPart)

/-! ### The statements of a compilation -/

theorem isSingle_of_mem_statements {v : Json} {c : Compilation} (h : compile v = .ok c) {s : Statement}
    (hs : s ∈ c.statements) : s.object.IsSingle := by
  obtain ⟨hdocument, hgenerated, hraw⟩ := of_compile h
  rcases Compilation.mem_statements_iff.mp hs with hs | hs
  · rw [hgenerated, generate, Diagram.mem_statements_iff] at hs
    exact Diagram.isSingle_of_mem_allStatements (id_eq_of_document hdocument) hs.1
  · exact NTriples.isSingle_of_mem_parseRaw hraw hs

theorem isTagged_of_mem_statements {v : Json} {c : Compilation} (h : compile v = .ok c) {s : Statement}
    (hs : s ∈ c.statements) : s.object.IsTagged :=
  (isSingle_of_mem_statements h hs).isTagged

end Ontogram

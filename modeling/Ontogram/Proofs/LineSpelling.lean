/-
The line of a statement, written and read.

A statement without a list denotes a triple of absolute identifiers and literals, and the flat view spells
that triple:

* `Statement.Denotes` — the triple of a statement;
* `spell` — the line of a triple;
* `writeStatement_eq_ok_iff` — the flat view of a statement is the line of its triple;
* `IsReadableIri`, `Node.IsReadable` — what the reader can take back;
* `unbroken_spell` — what breaks the line of a triple;
* `readTriple_spell` — the line of a triple of readable nodes is read as that triple.
-/
import Ontogram.NTriples.Writer
import Ontogram.Proofs.Escaping
import Ontogram.Proofs.LanguageTag
namespace Ontogram

open NTriples (Node LiteralNode Triple)
open Traversal (bind_eq_ok_iff)

/-! ### The triple of a statement -/

/-- The node of an object. A language stands in the place of a datatype. -/
inductive Term.Denotes (declared : PrefixMap) : Term → Node → Prop
  | name {n iri : Text} (h : Name.expand declared n = .ok iri) : Denotes declared (.name n) (.iri iri)
  | tagged {l : Literal} {tag : Text} (hlanguage : nonempty l.language = some tag) :
      Denotes declared (.literal l) (.literal ⟨l.value, none, some tag⟩)
  | typed {l : Literal} {n iri : Text} (hlanguage : nonempty l.language = none)
      (hdatatype : nonempty l.datatype = some n) (h : Name.expand declared n = .ok iri) :
      Denotes declared (.literal l) (.literal ⟨l.value, some iri, none⟩)
  | plain {l : Literal} (hlanguage : nonempty l.language = none)
      (hdatatype : nonempty l.datatype = none) :
      Denotes declared (.literal l) (.literal ⟨l.value, none, none⟩)

/-- The triple of a statement. -/
structure Statement.Denotes (declared : PrefixMap) (s : Statement) (t : Triple) : Prop where
  subject : Term.Denotes declared (.name s.subject) t.subject
  predicate : Term.Denotes declared (.name s.predicate) t.predicate
  object : Term.Denotes declared s.object t.object

theorem Term.Denotes.unique {declared : PrefixMap} {o : Term} {a b : Node}
    (ha : o.Denotes declared a) (hb : o.Denotes declared b) : a = b := by
  cases ha <;> cases hb <;> simp_all

theorem Statement.Denotes.unique {declared : PrefixMap} {s : Statement} {t u : Triple}
    (ht : s.Denotes declared t) (hu : s.Denotes declared u) : t = u := by
  obtain ⟨subject, predicate, object⟩ := t
  obtain ⟨subject', predicate', object'⟩ := u
  obtain rfl : subject = subject' := ht.subject.unique hu.subject
  obtain rfl : predicate = predicate' := ht.predicate.unique hu.predicate
  obtain rfl : object = object' := ht.object.unique hu.object
  rfl

namespace NTriples

/-! ### The line of a triple -/

/-- What follows the closing quote of a literal. -/
def spellSuffix (l : LiteralNode) : List CodePoint :=
  match l.language, l.datatype with
  | some tag, _ => .char '@' :: tag.toList
  | none, some iri => .char '^' :: .char '^' :: .char '<' :: (iri.toList ++ [.char '>'])
  | none, none => []

def spellNode : Node → List CodePoint
  | .iri iri => .char '<' :: (iri.toList ++ [.char '>'])
  | .blank label => .char '_' :: .char ':' :: label.toList
  | .literal l => .char '"' :: (escapeChars l.value.toList ++ .char '"' :: spellSuffix l)

/-- The line of a triple. -/
def spell (t : Triple) : List CodePoint :=
  spellNode t.subject ++ .char ' ' ::
    (spellNode t.predicate ++ .char ' ' :: (spellNode t.object ++ [.char ' ', .char '.']))

theorem writeName_eq_ok_iff {declared : PrefixMap} {n text : Text} :
    writeName declared n = .ok text ↔
      ∃ node, Term.Denotes declared (.name n) node ∧ text = Text.ofList (spellNode node) := by
  have hspell : ∀ iri, "<" ++ iri ++ ">" = Text.ofList (spellNode (.iri iri)) := by
    intro iri
    simp [← Text.toList_inj, spellNode]
  constructor
  · intro h
    obtain ⟨iri, hiri, h⟩ := bind_eq_ok_iff.mp h
    cases h
    exact ⟨.iri iri, .name hiri, hspell iri⟩
  · rintro ⟨_, @⟨_, iri, hiri⟩, rfl⟩
    exact bind_eq_ok_iff.mpr ⟨iri, hiri, congrArg Except.ok (hspell iri)⟩

theorem writeLiteral_eq_ok_iff {declared : PrefixMap} {l : Literal} {text : Text} :
    writeLiteral declared l = .ok text ↔
      ∃ node, Term.Denotes declared (.literal l) node ∧ text = Text.ofList (spellNode node) := by
  unfold writeLiteral
  cases hlanguage : nonempty l.language with
  | some tag =>
    have hspell : "\"" ++ escape l.value ++ "\"" ++ "@" ++ tag =
        Text.ofList (spellNode (.literal ⟨l.value, none, some tag⟩)) := by
      simp [← Text.toList_inj, spellNode, spellSuffix, escape]
    constructor
    · intro h
      cases h
      exact ⟨_, .tagged hlanguage, hspell⟩
    · rintro ⟨node, hnode, rfl⟩
      rw [hnode.unique (.tagged hlanguage), ← hspell]
  | none =>
    cases hdatatype : nonempty l.datatype with
    | none =>
      have hspell : "\"" ++ escape l.value ++ "\"" =
          Text.ofList (spellNode (.literal ⟨l.value, none, none⟩)) := by
        simp [← Text.toList_inj, spellNode, spellSuffix, escape]
      constructor
      · intro h
        cases h
        exact ⟨_, .plain hlanguage hdatatype, hspell⟩
      · rintro ⟨node, hnode, rfl⟩
        rw [hnode.unique (.plain hlanguage hdatatype), ← hspell]
    | some n =>
      have hspell : ∀ iri, "\"" ++ escape l.value ++ "\"" ++ "^^" ++ Text.ofList (spellNode (.iri iri)) =
          Text.ofList (spellNode (.literal ⟨l.value, some iri, none⟩)) := by
        intro iri
        simp [← Text.toList_inj, spellNode, spellSuffix, escape]
      constructor
      · intro h
        obtain ⟨name, hname, h⟩ := bind_eq_ok_iff.mp h
        obtain ⟨_, @⟨_, iri, hiri⟩, rfl⟩ := writeName_eq_ok_iff.mp hname
        cases h
        exact ⟨_, .typed hlanguage hdatatype hiri, hspell iri⟩
      · rintro ⟨node, hnode, rfl⟩
        cases hnode with
        | typed _ hn hiri =>
          cases hdatatype.symm.trans hn
          exact bind_eq_ok_iff.mpr ⟨_, writeName_eq_ok_iff.mpr ⟨_, .name hiri, rfl⟩,
            congrArg Except.ok (hspell _)⟩
        | tagged h => cases hlanguage.symm.trans h
        | plain _ h => cases hdatatype.symm.trans h

/-- The flat view of a statement without a list is the line of its triple. -/
theorem writeStatement_eq_ok_iff {declared : PrefixMap} {chain : Nat} {s : Statement}
    (hlist : ∀ items, s.object ≠ .list items) {lines : List Text} :
    writeStatement declared chain s = .ok lines ↔
      ∃ t, s.Denotes declared t ∧ lines = [Text.ofList (spell t)] := by
  obtain ⟨subject, predicate, object⟩ := s
  have hspell : ∀ a b c, line (Text.ofList (spellNode a)) (Text.ofList (spellNode b))
      (Text.ofList (spellNode c)) = Text.ofList (spell ⟨a, b, c⟩) := by
    intro a b c
    simp [← Text.toList_inj, line, spell]
  -- the object, with whatever writes it
  have hobject : ∀ write : Except NameError Text,
      (∀ text, write = .ok text ↔
        ∃ node, Term.Denotes declared object node ∧ text = Text.ofList (spellNode node)) →
      ((do
        let a ← writeName declared subject
        let b ← writeName declared predicate
        return [line a b (← write)]) = Except.ok lines ↔
        ∃ t, Statement.Denotes declared ⟨subject, predicate, object⟩ t ∧
          lines = [Text.ofList (spell t)]) := by
    intro write hwrite
    constructor
    · intro h
      obtain ⟨_, hsubject, h⟩ := bind_eq_ok_iff.mp h
      obtain ⟨_, hpredicate, h⟩ := bind_eq_ok_iff.mp h
      obtain ⟨_, hwritten, h⟩ := bind_eq_ok_iff.mp h
      obtain ⟨a, ha, rfl⟩ := writeName_eq_ok_iff.mp hsubject
      obtain ⟨b, hb, rfl⟩ := writeName_eq_ok_iff.mp hpredicate
      obtain ⟨c, hc, rfl⟩ := (hwrite _).mp hwritten
      cases h
      exact ⟨⟨a, b, c⟩, ⟨ha, hb, hc⟩, by rw [hspell]⟩
    · rintro ⟨⟨a, b, c⟩, ⟨ha, hb, hc⟩, rfl⟩
      refine bind_eq_ok_iff.mpr ⟨_, writeName_eq_ok_iff.mpr ⟨a, ha, rfl⟩, bind_eq_ok_iff.mpr ⟨_,
        writeName_eq_ok_iff.mpr ⟨b, hb, rfl⟩, bind_eq_ok_iff.mpr ⟨_, (hwrite _).mpr ⟨c, hc, rfl⟩, ?_⟩⟩⟩
      rw [hspell]
      rfl
  cases object with
  | name n => exact hobject _ fun _ => writeName_eq_ok_iff
  | literal l => exact hobject _ fun _ => writeLiteral_eq_ok_iff
  | list items => exact absurd rfl (hlist items)

/-! ### Line breaks -/

theorem unbroken_append {cs ds : List CodePoint} : Unbroken (cs ++ ds) ↔ Unbroken cs ∧ Unbroken ds :=
  List.forall_mem_append

theorem unbroken_cons {c : CodePoint} (h : Text.isLineBreak c = false) {cs : List CodePoint} :
    Unbroken (c :: cs) ↔ Unbroken cs := by
  rw [Unbroken, List.forall_mem_cons]
  exact and_iff_right h

theorem unbroken_of_isTag {tag : List CodePoint} (h : IsTag tag) : Unbroken tag := by
  intro c hc
  by_contra hbreak
  have hchar := isTagChar_of_mem h c hc
  simp only [Bool.not_eq_false, Text.isLineBreak, Bool.or_eq_true, beq_iff_eq, or_assoc] at hbreak
  rcases hbreak with rfl | rfl | rfl | rfl | rfl | rfl | rfl | rfl | rfl | rfl
  all_goals exact absurd hchar (by simp [IsTagChar]; decide)

/-- The identifiers of the node have no line breaks, its value none but line feeds and carriage returns. -/
def Node.IsUnbroken : Node → Prop
  | .iri u => Unbroken u.toList
  | .blank _ => False
  | .literal l => (∀ c ∈ l.value.toList, Text.isLineBreak c = true → c = '\n' ∨ c = '\r') ∧
      ∀ u ∈ l.datatype, Unbroken u.toList

/-! ### Readable nodes -/

/-- The reader finds the end of the identifier and decodes what stands before it to the same text. -/
structure IsReadableIri (iri : Text) : Prop where
  shape : IsIriText iri.toList
  decodes : decode iri.toList = .ok iri

/-- The identifiers are readable, and a datatype leaves the value of its literal as it is. -/
def Node.IsReadable : Node → Prop
  | .iri u => IsReadableIri u
  | .blank _ => False
  | .literal l => ∀ u ∈ l.datatype, IsReadableIri u ∧ normalize (some u) l.value = l.value

/-- A node that a statement can denote: a language is a tag and stands without a datatype. -/
def Node.IsProper : Node → Prop
  | .iri _ => True
  | .blank _ => False
  | .literal l => ∀ tag ∈ l.language, IsTag tag.toList ∧ l.datatype = none

theorem Node.isProper_of_denotes {declared : PrefixMap} {o : Term} {node : Node}
    (h : o.Denotes declared node)
    (htags : ∀ l tag, o = .literal l → nonempty l.language = some tag → IsTag tag.toList) :
    node.IsProper := by
  cases h with
  | name => trivial
  | tagged hlanguage =>
    rintro _ ⟨⟩
    exact ⟨htags _ _ rfl hlanguage, rfl⟩
  | typed => rintro _ ⟨⟩
  | plain => rintro _ ⟨⟩

/-- A triple that a statement can denote. -/
structure Triple.IsProper (t : Triple) : Prop where
  subject : ∃ u, t.subject = .iri u
  predicate : ∃ u, t.predicate = .iri u
  object : t.object.IsProper

structure Triple.IsReadable (t : Triple) : Prop where
  subject : t.subject.IsReadable
  predicate : t.predicate.IsReadable
  object : t.object.IsReadable

theorem unbroken_spellIri {u : Text} : Unbroken (spellNode (.iri u)) ↔ Unbroken u.toList := by
  have hend : Unbroken [.char '>'] := by simp [Unbroken]; decide
  rw [spellNode, unbroken_cons (by decide), unbroken_append]
  exact and_iff_left hend

theorem unbroken_spellNode {node : Node} (h : node.IsProper) :
    Unbroken (spellNode node) ↔ node.IsUnbroken := by
  cases node with
  | iri u => exact unbroken_spellIri
  | blank _ => exact absurd h id
  | literal l =>
    obtain ⟨value, datatype, language⟩ := l
    rw [spellNode, unbroken_cons (by decide), unbroken_append, unbroken_cons (by decide),
      unbroken_escapeChars]
    refine and_congr_right fun _ => ?_
    cases language with
    | some tag =>
      obtain ⟨htag, rfl⟩ := h tag rfl
      refine iff_of_true ?_ (by rintro _ ⟨⟩)
      exact (unbroken_cons (by decide)).mpr (unbroken_of_isTag htag)
    | none =>
      cases datatype with
      | none => exact iff_of_true (by simp [Unbroken, spellSuffix]) (by rintro _ ⟨⟩)
      | some u =>
        have hsuffix : spellSuffix ⟨value, some u, none⟩ = .char '^' :: .char '^' :: spellNode (.iri u) := rfl
        rw [hsuffix, unbroken_cons (by decide), unbroken_cons (by decide), unbroken_spellIri]
        simp

/-- The line of a triple is one line iff none of its nodes breaks it. -/
theorem unbroken_spell {t : Triple} (h : t.IsProper) :
    Unbroken (spell t) ↔ t.subject.IsUnbroken ∧ t.predicate.IsUnbroken ∧ t.object.IsUnbroken := by
  have hstop : Unbroken [.char ' ', .char '.'] := by simp [Unbroken]; decide
  obtain ⟨_, _, object⟩ := t
  obtain ⟨⟨u₁, rfl⟩, ⟨u₂, rfl⟩, hproper⟩ := h
  rw [spell, unbroken_append, unbroken_cons (by decide), unbroken_append, unbroken_cons (by decide),
    unbroken_append, unbroken_spellIri, unbroken_spellIri, unbroken_spellNode hproper]
  rw [and_iff_left hstop]
  rfl

theorem spellNode_cons {node : Node} (h : node.IsProper) :
    ∃ c rest, spellNode node = c :: rest ∧ isGap c = false := by
  cases node with
  | iri iri => exact ⟨'<', _, rfl, rfl⟩
  | blank _ => exact absurd h id
  | literal l => exact ⟨'"', _, rfl, rfl⟩

/-! ### Reading a line back -/

/-- Blanks and tabs are skipped up to what is none. -/
theorem gap_append {blanks : List CodePoint} (hne : blanks ≠ []) (hblanks : ∀ c ∈ blanks, isGap c = true)
    {c : CodePoint}
    (hc : isGap c = false) (rest : List CodePoint) : gap (blanks ++ c :: rest) = .ok (c :: rest) := by
  rw [gap_eq_ok_iff, List.dropWhile_append_of_pos hblanks, List.dropWhile_cons_of_neg (by simp [hc])]
  obtain ⟨b, blanks, rfl⟩ := List.exists_cons_of_ne_nil hne
  exact ⟨hblanks b List.mem_cons_self, rfl⟩

theorem gap_cons {c : CodePoint} (h : isGap c = false) (rest : List CodePoint) :
    gap (.char ' ' :: c :: rest) = .ok (c :: rest) :=
  @gap_append [.char ' '] (by simp) (List.forall_mem_singleton.mpr (by decide)) c h rest

theorem readIri_append {written : List CodePoint} {iri : Text} (hshape : IsIriText written)
    (hdecodes : decode written = .ok iri) (rest : List CodePoint) :
    readIri (written ++ .char '>' :: rest) = .ok (.iri iri, rest) :=
  bind_eq_ok_iff.mpr ⟨_, iriText_eq_ok_iff.mpr ⟨hshape, rfl⟩, bind_eq_ok_iff.mpr ⟨iri, hdecodes, rfl⟩⟩

theorem readIri_spell {iri : Text} (h : IsReadableIri iri) (rest : List CodePoint) :
    readIri (iri.toList ++ .char '>' :: rest) = .ok (.iri iri, rest) :=
  readIri_append h.shape h.decodes rest

theorem readLiteral_spell {l : LiteralNode} (h : (Node.literal l).IsReadable)
    (hproper : (Node.literal l).IsProper) (rest : List CodePoint) :
    readLiteral (escapeChars l.value.toList ++ .char '"' :: (spellSuffix l ++ .char ' ' :: rest)) =
      .ok (.literal l, .char ' ' :: rest) := by
  obtain ⟨value, datatype, language⟩ := l
  unfold readLiteral
  simp only [literalText_escapeChars, spellSuffix, decode_escapeChars]
  cases language with
  | some tag =>
    obtain ⟨htag, rfl⟩ := hproper tag rfl
    have hends : EndsTag (.char ' ' :: rest) := by
      rintro c ⟨⟩
      decide
    simp only [List.cons_append, languageTag?_append htag hends]
    simp [bind, Except.bind, pure, Except.pure]
  | none =>
    cases datatype with
    | none => simp [bind, Except.bind, pure, Except.pure]
    | some u =>
      obtain ⟨⟨hshape, hdecodes⟩, hvalue⟩ := h u rfl
      have hiri : iriText (u.toList ++ .char '>' :: .char ' ' :: rest) = .ok (u.toList, .char ' ' :: rest) :=
        iriText_eq_ok_iff.mpr ⟨hshape, rfl⟩
      have htext : .char '^' :: .char '^' :: .char '<' :: (u.toList ++ [.char '>']) ++ .char ' ' :: rest =
          .char '^' :: .char '^' :: .char '<' :: (u.toList ++ .char '>' :: .char ' ' :: rest) := by simp
      simp only [htext, hiri, hdecodes]
      simp [bind, Except.bind, pure, Except.pure, hvalue]

theorem readObject_spell {node : Node} (h : node.IsReadable) (hproper : node.IsProper)
    (rest : List CodePoint) : readObject (spellNode node ++ .char ' ' :: rest) = .ok (node, .char ' ' :: rest) := by
  cases node with
  | iri u =>
    rw [spellNode, List.cons_append, List.append_assoc]
    exact readIri_spell h _
  | blank _ => exact absurd h id
  | literal l =>
    rw [spellNode, List.cons_append, List.append_assoc]
    exact readLiteral_spell h hproper rest

/-- The line of a triple of readable nodes is read as that triple. -/
theorem readTriple_spell {t : Triple} (hproper : t.IsProper) (h : t.IsReadable) :
    readTriple (spell t) = .ok (some t) := by
  obtain ⟨_, _, o⟩ := t
  obtain ⟨⟨u₁, rfl⟩, ⟨u₂, rfl⟩, hproper⟩ := hproper
  obtain ⟨h₁, h₂, ho⟩ := h
  obtain ⟨c, rest, hspell, hc⟩ := spellNode_cons hproper
  have hgap : isGap '<' = false := by decide
  have hline : (spell ⟨.iri u₁, .iri u₂, o⟩).dropWhile isGap =
      .char '<' :: (u₁.toList ++ .char '>' :: .char ' ' :: .char '<' ::
      (u₂.toList ++ .char '>' :: .char ' ' :: (spellNode o ++ [.char ' ', .char '.']))) := by
    simp [spell, spellNode, hgap]
  have hsubject := readIri_spell h₁
    (.char ' ' :: .char '<' :: (u₂.toList ++ .char '>' :: .char ' ' :: (spellNode o ++ [.char ' ', .char '.'])))
  have hpredicate := readIri_spell h₂ (.char ' ' :: (spellNode o ++ [.char ' ', .char '.']))
  have hobject := readObject_spell ho hproper [.char '.']
  have hgap₂ : gap (.char ' ' :: (spellNode o ++ [.char ' ', .char '.'])) =
      .ok (spellNode o ++ [.char ' ', .char '.']) := by
    rw [hspell]
    exact gap_cons hc _
  unfold readTriple
  rw [hline]
  dsimp only
  rw [if_neg (by decide)]
  exact bind_eq_ok_iff.mpr ⟨_, hsubject, bind_eq_ok_iff.mpr ⟨_, gap_cons hgap _, bind_eq_ok_iff.mpr ⟨_,
    hpredicate, bind_eq_ok_iff.mpr ⟨_, hgap₂, bind_eq_ok_iff.mpr ⟨_, hobject, rfl⟩⟩⟩⟩⟩

end NTriples

end Ontogram

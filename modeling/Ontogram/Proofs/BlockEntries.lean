/-
The entries of the grouped view.

A block has an entry for each written predicate and object of its subject, each once. So a statement is lost
iff another one of its subject is written alike, and in an accepted document that happens only to typed
literals that are set as long texts with the same lines:

* `mem_group_iff` — the blocks of the view;
* `length_entriesOf_eq_iff` — a block has as many entries as its subject has statements iff no two of them
  are written alike;
* `block_keeps_statements_iff` — when that is so in an accepted document.
-/
import Mathlib.Data.List.Dedup
import Ontogram.Proofs.Views
import Ontogram.Proofs.WrittenObjects
namespace Ontogram

namespace Turtle

/-- The entry of a statement in the block of its subject. -/
def entry (s : Statement) : Entry := (s.predicate, renderTerm s.object)

/-- Each subject has one block. -/
theorem mem_group_iff {statements : List Statement} {subject : Text} {entries : List Entry} :
    (subject, entries) ∈ group statements ↔
      (∃ s ∈ statements, s.subject = subject) ∧ entries = entriesOf subject statements := by
  have hsubjects : subject ∈ sortSubjects (statements.map (·.subject)).eraseDups ↔
      ∃ s ∈ statements, s.subject = subject := by
    rw [sortSubjects, (List.mergeSort_perm _ _).mem_iff, List.mem_eraseDups, List.mem_map]
  rw [group, List.mem_map, ← hsubjects]
  constructor
  · rintro ⟨subject', hmem, heq⟩
    cases heq
    exact ⟨hmem, rfl⟩
  · rintro ⟨hmem, rfl⟩
    exact ⟨subject, hmem, rfl⟩

theorem length_eraseDups_eq_iff {α : Type} [BEq α] [LawfulBEq α] {xs : List α} :
    xs.eraseDups.length = xs.length ↔ xs.Nodup := by
  classical
  have hperm : xs.eraseDups.Perm xs.dedup :=
    (List.perm_ext_iff_of_nodup (Traversal.nodup_eraseDups xs) (List.nodup_dedup xs)).mpr fun x => by
      rw [List.mem_eraseDups, List.mem_dedup]
  rw [hperm.length_eq]
  constructor
  · intro h
    exact List.dedup_eq_self.mp ((List.dedup_sublist xs).eq_of_length h)
  · intro h
    rw [List.dedup_eq_self.mpr h]

theorem length_entriesOf (subject : Text) (statements : List Statement) :
    (entriesOf subject statements).length =
      ((statements.filter fun s => s.subject == subject).map entry).eraseDups.length :=
  (List.mergeSort_perm _ _).length_eq

/-- Of statements without repetitions each has its own entry iff no two are written alike. -/
theorem length_entriesOf_eq_iff {statements : List Statement} (hnodup : statements.Nodup)
    (subject : Text) : (entriesOf subject statements).length =
        (statements.filter fun s => s.subject == subject).length ↔
      ∀ s ∈ statements, ∀ t ∈ statements, s.subject = subject → t.subject = subject →
        entry s = entry t → s = t := by
  rw [length_entriesOf, ← List.length_map entry, length_eraseDups_eq_iff,
    List.nodup_map_iff_inj_on (hnodup.filter _)]
  constructor
  · intro h s hs t ht hss hts
    exact h s (List.mem_filter.mpr ⟨hs, beq_iff_eq.mpr hss⟩) t (List.mem_filter.mpr ⟨ht, beq_iff_eq.mpr hts⟩)
  · intro h s hs t ht
    obtain ⟨hs, hss⟩ := List.mem_filter.mp hs
    obtain ⟨ht, hts⟩ := List.mem_filter.mp ht
    exact h s hs t ht (beq_iff_eq.mp hss) (beq_iff_eq.mp hts)

end Turtle

open Turtle
open Traversal (bind_eq_ok_iff mapM_eq_ok_iff)

theorem Compilation.nodup_statements (c : Compilation) : c.statements.Nodup :=
  Traversal.nodup_eraseDups _

/-- In an accepted document an object is clear if its names do not blur its form. -/
theorem isClear_of_mem_statements {v : Json} {c : Compilation} (h : compile v = .ok c) {s : Statement}
    (hs : s ∈ c.statements) (hplain : IsPlain s.object) : IsClear s.object :=
  ⟨isSingle_of_mem_statements h hs,
    fun _ hn => isQualified_of_mem_statements h hs _ (List.mem_cons_of_mem _ (List.mem_cons_of_mem _ hn)),
    hplain⟩

/-- **Which statements the grouped view keeps apart.** In an accepted document, if no names blur the objects
of a subject, then different statements of the subject have different entries, and its block has as many
entries as there are statements, iff no two different literals under one predicate are laid out alike. -/
theorem block_keeps_statements_iff {v : Json} {c : Compilation} (h : compile v = .ok c) {subject : Text}
    {entries : List Entry} (hblock : (subject, entries) ∈ group c.statements)
    (hplain : ∀ s ∈ c.statements, s.subject = subject → IsPlain s.object) :
    ((∀ s ∈ c.statements, ∀ t ∈ c.statements, s.subject = subject → t.subject = subject →
        entry s = entry t → s = t) ∧
      entries.length = (c.statements.filter fun s => s.subject == subject).length) ↔
    ∀ predicate l m, ⟨subject, predicate, .literal l⟩ ∈ c.statements →
      ⟨subject, predicate, .literal m⟩ ∈ c.statements → LaidOutAlike l m → l = m := by
  obtain ⟨-, rfl⟩ := mem_group_iff.mp hblock
  rw [length_entriesOf_eq_iff c.nodup_statements, and_self]
  have hclear {s : Statement} (hs : s ∈ c.statements) (hss : s.subject = subject) : IsClear s.object :=
    isClear_of_mem_statements h hs (hplain s hs hss)
  constructor
  · -- literals that are laid out alike are written alike
    intro hinj predicate l m hl hm halike
    have hwritten : renderTerm (.literal l) = renderTerm (.literal m) :=
      (renderTerm_eq_iff (hclear hl rfl) (hclear hm rfl)).mpr (.inr ⟨l, m, rfl, rfl, halike⟩)
    have heq := hinj _ hl _ hm rfl rfl (Prod.ext rfl hwritten)
    injection heq with _ _ hobject
    exact Term.literal.inj hobject
  · -- and nothing else is
    rintro hlaid ⟨subject₁, predicate, a⟩ hs ⟨subject₂, predicate', b⟩ ht hss hts hentry
    obtain rfl : subject₁ = subject := hss
    obtain rfl : subject₂ = subject₁ := hts
    obtain ⟨rfl, hwritten⟩ : predicate = predicate' ∧ renderTerm a = renderTerm b := Prod.mk.inj hentry
    rcases (renderTerm_eq_iff (hclear hs rfl) (hclear ht rfl)).mp hwritten with rfl | ⟨l, m, rfl, rfl, halike⟩
    · rfl
    · rw [hlaid predicate l m hs ht halike]

/-! ### Two lines -/

/-- A statement whose literal has a datatype, and its line. -/
def typedStatement (value : List CodePoint) : Statement :=
  ⟨"x:s", "x:p", .literal ⟨Text.ofList value, some "x:t", none⟩⟩

def typedLine (value : List CodePoint) : List CodePoint :=
  ("<http://x/s> <http://x/p> \"" : Text).toList ++ value ++ ("\"^^<http://x/t> ." : Text).toList

theorem parseLine_typedLine {value : List CodePoint} (h : NTriples.triples (typedLine value) =
      .ok [⟨.iri "http://x/s", .iri "http://x/p", .literal ⟨Text.ofList value, some "http://x/t", none⟩⟩]) :
    NTriples.parseLine [("x", "http://x/")] (Text.ofList (typedLine value)) =
      .ok (typedStatement value) := by
  have hname : ∀ p ∈ ([("http://x/s", "x:s"), ("http://x/p", "x:p"), ("http://x/t", "x:t")] : List (Text × Text)),
      Name.shorten [("x", "http://x/")] p.1 = .ok p.2 := by
    decide +kernel
  have hnamed (role : NTriples.Role) : NTriples.nameOf [("x", "http://x/")] role "http://x/s" = .ok "x:s" ∧
      NTriples.nameOf [("x", "http://x/")] role "http://x/p" = .ok "x:p" ∧
      NTriples.nameOf [("x", "http://x/")] role "http://x/t" = .ok "x:t" := by
    simp only [NTriples.nameOf_eq_ok_iff]
    simpa using hname
  rw [NTriples.parseLine_eq_ok_iff, Text.toList_ofList]
  refine ⟨_, h, bind_eq_ok_iff.mpr ⟨_, (hnamed _).1, bind_eq_ok_iff.mpr ⟨_, (hnamed _).2.1,
    bind_eq_ok_iff.mpr ⟨.literal ⟨Text.ofList value, some "x:t", none⟩, ?_, rfl⟩⟩⟩⟩
  rw [NTriples.termOf]
  simp only [nonempty_of_ne (show ("http://x/t" : Text) ≠ "" by decide)]
  exact bind_eq_ok_iff.mpr ⟨_, (hnamed _).2.2, rfl⟩

/-- A document of two such lines, with different texts, has two statements. -/
theorem compile_typedLines {v w : List CodePoint}
    (hlines : (Text.lines (typedLine v ++ .char '\n' :: typedLine w)).filter
      (fun line => !NTriples.isComment line) = [typedLine v, typedLine w])
    (hparse : ∀ value ∈ [v, w], NTriples.triples (typedLine value) = .ok [⟨.iri "http://x/s",
      .iri "http://x/p", .literal ⟨Text.ofList value, some "http://x/t", none⟩⟩]) (hne : v ≠ w) :
    ∃ c, compile (rawDocument "x" "http://x/" (Text.ofList (typedLine v ++ .char '\n' :: typedLine w))) =
      .ok c ∧ c.statements = [typedStatement v, typedStatement w] := by
  have hdiff : typedStatement w ≠ typedStatement v := by
    intro heq
    have hvalue : Text.ofList w = Text.ofList v := by simpa [typedStatement] using heq
    exact hne (Text.ofList_injective hvalue.symm)
  have herased : [typedStatement v, typedStatement w].eraseDups = [typedStatement v, typedStatement w] := by
    simp [List.eraseDups_cons, hdiff]
  have hraw : NTriples.parseRaw [("x", "http://x/")] (Text.ofList (typedLine v ++ .char '\n' :: typedLine w)) =
      .ok [typedStatement v, typedStatement w] := by
    rw [NTriples.parseRaw, Text.toList_ofList, hlines]
    exact bind_eq_ok_iff.mpr ⟨_, mapM_eq_ok_iff.mpr (.cons (parseLine_typedLine (hparse v (by simp)))
      (.cons (parseLine_typedLine (hparse w (by simp))) .nil)), congrArg Except.ok herased⟩
  exact ⟨_, compile_rawDocument hraw, herased⟩

theorem isClear_typedStatement (value : List CodePoint) : IsClear (typedStatement value).object where
  single := by
    rintro _ ⟨⟩
    exact Literal.isSingle_typed (by decide)
  qualified := by
    show ∀ n ∈ (["x:t"] : List Text), Name.IsQualified n
    decide
  plain := by
    rintro _ ⟨⟩
    decide

/-- Two texts that are not too wide have an entry each. -/
theorem block_keeps_statements_narrow :
    ∃ c entries, compile (rawDocument "x" "http://x/" (Text.ofList
        (typedLine [.char 'a'] ++ .char '\n' :: typedLine [.char ' ', .char 'a']))) = .ok c ∧
      (("x:s" : Text), entries) ∈ group c.statements ∧ entries.length = 2 := by
  have hplain : ∀ s ∈ [typedStatement [.char 'a'], typedStatement [.char ' ', .char 'a']], IsPlain s.object := by
    decide
  have hnarrow {predicate : Text} {l : Literal} (hl : ⟨"x:s", predicate, .literal l⟩ ∈
      [typedStatement [.char 'a'], typedStatement [.char ' ', .char 'a']]) :
      l.IsSingle ∧ l.value.toList.length ≤ lineWidth := by
    simp only [typedStatement, List.mem_cons, List.not_mem_nil, or_false, Statement.mk.injEq,
      Term.literal.injEq] at hl
    rcases hl with ⟨-, -, rfl⟩ | ⟨-, -, rfl⟩ <;> exact ⟨Literal.isSingle_typed (by decide), by decide⟩
  obtain ⟨c, hcompile, hstatements⟩ := compile_typedLines (v := [.char 'a']) (w := [.char ' ', .char 'a'])
    (by decide +kernel) (by decide +kernel) (by decide)
  have hblock : (("x:s" : Text), entriesOf "x:s" c.statements) ∈ group c.statements :=
    mem_group_iff.mpr ⟨⟨typedStatement [.char 'a'], hstatements ▸ List.mem_cons_self, rfl⟩, rfl⟩
  refine ⟨c, _, hcompile, hblock, ?_⟩
  have hkept := (block_keeps_statements_iff hcompile hblock
    (fun s hs _ => hplain s (hstatements ▸ hs))).mpr fun predicate l m hl hm halike => by
      obtain ⟨hlsingle, hlnarrow⟩ := hnarrow (hstatements ▸ hl)
      obtain ⟨hmsingle, hmnarrow⟩ := hnarrow (hstatements ▸ hm)
      exact halike.eq_of_not_wide hlsingle hmsingle (.inr hlnarrow) (.inr hmnarrow)
  rw [hkept.2, hstatements]
  rfl

/-- The block of two different statements can have a single entry: here the texts are too wide for one line
and differ in the blank at the start. -/
theorem block_drops_statement :
    ∃ c s t entries, compile (rawDocument "x" "http://x/" (Text.ofList
        (typedLine (List.replicate 81 (.char 'a')) ++
          .char '\n' :: typedLine (.char ' ' :: List.replicate 81 (.char 'a'))))) = .ok c ∧
      c.statements = [s, t] ∧ s ≠ t ∧ s.subject = "x:s" ∧ t.subject = "x:s" ∧
      (("x:s" : Text), entries) ∈ group c.statements ∧ entries.length = 1 := by
  have hlayout : layout true (List.replicate 81 (.char 'a')) = some [List.replicate 81 (.char 'a')] ∧
      layout true (.char ' ' :: List.replicate 81 (.char 'a')) = some [List.replicate 81 (.char 'a')] := by
    decide +kernel
  obtain ⟨c, hcompile, hstatements⟩ := compile_typedLines (v := List.replicate 81 (.char 'a'))
    (w := .char ' ' :: List.replicate 81 (.char 'a')) (by decide +kernel) (by decide +kernel) (by decide)
  have hnodup := c.nodup_statements
  -- from here on only the lines count, and the texts are not computed with
  generalize List.replicate 81 (CodePoint.char 'a') = v at *
  rw [hstatements] at hnodup
  have hentry : entry (typedStatement v) = entry (typedStatement (.char ' ' :: v)) := by
    refine Prod.ext rfl ((renderTerm_eq_iff (isClear_typedStatement _) (isClear_typedStatement _)).mpr
      (.inr ⟨_, _, rfl, rfl, ⟨rfl, rfl⟩, ⟨_, rfl, rfl⟩, ⟨[v], ?_⟩⟩))
    simpa using hlayout
  refine ⟨c, _, _, _, hcompile, hstatements, by simpa using hnodup, rfl, rfl,
    mem_group_iff.mpr ⟨⟨typedStatement v, hstatements ▸ List.mem_cons_self, rfl⟩, rfl⟩, ?_⟩
  rw [length_entriesOf, hstatements]
  have hfilter : [typedStatement v, typedStatement (.char ' ' :: v)].filter (fun s : Statement => s.subject == "x:s") =
    [typedStatement v, typedStatement (.char ' ' :: v)] := rfl
  rw [hfilter, List.map_cons, List.map_cons, hentry]
  simp [List.eraseDups_cons]

end Ontogram

/-
The flat view as raw text.

What the flat view writes may be read as raw text again, and comes back if it gives statements of the same
triples with the same flat view:

* `write_eq_ok_iff` — the flat view has the lines of the triples that its statements denote;
* `parseRaw_joinLines` — the statements of joined lines are those of the single lines;
* `comesBack_of_isLegible` — the flat view of legible statements comes back;
* `isLegible_of_comesBack` — only that, if names expand back to what they were made from;
* `flat_text_comes_back_iff` — both, for the flat view of an accepted document.
-/
import Ontogram.Proofs.Legibility
namespace Ontogram

open NTriples (Node LiteralNode Triple)
open Traversal (bind_eq_ok_iff mapM_eq_ok_iff)

/-- The triple is that of one of the statements. -/
def Statement.Denoted (declared : PrefixMap) (ss : List Statement) (t : Triple) : Prop :=
  ∃ s ∈ ss, s.Denotes declared t

namespace NTriples

variable {declared : PrefixMap}

/-! ### Reading joined lines -/

theorem isComment_spell {t : Triple} (h : t.IsProper) : isComment (spell t) = false := by
  obtain ⟨u, hu⟩ := h.subject
  have hblank : Text.isBlank '<' = false := by decide
  rw [isComment, spell, hu, spellNode, List.cons_append, List.dropWhile_cons_of_neg (by simp [hblank])]
  rfl

/-- The statements of joined lines are those of the single lines. -/
theorem parseRaw_joinLines {lines : List Text} (hunbroken : ∀ l ∈ lines, Unbroken l.toList)
    (hcomment : ∀ l ∈ lines, isComment l.toList = false)
    (hparse : ∀ l ∈ lines, ∃ r, parseLine declared l = .ok r) :
    ∃ R, parseRaw declared (joinLines lines) = .ok R ∧
      ∀ r, r ∈ R ↔ ∃ l ∈ lines, parseLine declared l = .ok r := by
  have hkept : ((sortedLines lines).map Text.toList).filter (fun line => !isComment line) =
      (sortedLines lines).map Text.toList := by
    rw [List.filter_eq_self]
    intro line hline
    obtain ⟨l, hl, rfl⟩ := List.mem_map.mp hline
    rw [hcomment l (mem_sortedLines.mp hl)]
    rfl
  obtain ⟨found, hall⟩ := Traversal.exists_forall₂ fun l hl => hparse l (mem_sortedLines.mp hl)
  have hfound : (sortedLines lines).mapM (parseLine declared) = .ok found := mapM_eq_ok_iff.mpr hall
  refine ⟨found.eraseDups, bind_eq_ok_iff.mpr ⟨found, ?_, rfl⟩, fun r => ?_⟩
  · rw [lines_joinLines hunbroken, hkept, List.mapM_map]
    simpa [Function.comp_def] using hfound
  · rw [List.mem_eraseDups, Traversal.mem_iff_of_mapM_eq_ok hfound]
    simp only [mem_sortedLines]

/-! ### Writing statements -/

theorem noList_of_denotes {s : Statement} {t : Triple} (h : s.Denotes declared t) (items : List Text) :
    s.object ≠ .list items := by
  intro hlist
  have hobject := h.object
  rw [hlist] at hobject
  cases hobject

theorem writeFrom_eq_ok_iff {chain : Nat} {ss : List Statement}
    (hlist : ∀ s ∈ ss, ∀ items, s.object ≠ .list items) {lines : List Text} :
    writeFrom declared chain ss = .ok lines ↔
      ∃ ts, List.Forall₂ (Statement.Denotes declared) ss ts ∧
        lines = ts.map fun t => Text.ofList (spell t) := by
  induction ss generalizing chain lines with
  | nil =>
    constructor
    · intro h
      cases h
      exact ⟨[], .nil, rfl⟩
    · rintro ⟨_, ⟨⟩, rfl⟩
      rfl
  | cons s rest ih =>
    obtain ⟨hs, hrest⟩ := List.forall_mem_cons.mp hlist
    constructor
    · intro h
      obtain ⟨here, hhere, h⟩ := bind_eq_ok_iff.mp h
      obtain ⟨further, hfurther, h⟩ := bind_eq_ok_iff.mp h
      obtain ⟨t, ht, rfl⟩ := (writeStatement_eq_ok_iff hs).mp hhere
      obtain ⟨ts, hts, rfl⟩ := (ih hrest).mp hfurther
      cases h
      exact ⟨t :: ts, .cons ht hts, rfl⟩
    · rintro ⟨_, hts, rfl⟩
      cases hts with
      | cons ht hts =>
        exact bind_eq_ok_iff.mpr ⟨_, (writeStatement_eq_ok_iff hs).mpr ⟨_, ht, rfl⟩,
          bind_eq_ok_iff.mpr ⟨_, (ih hrest).mpr ⟨_, hts, rfl⟩, rfl⟩⟩

theorem mem_iff_denoted {ss : List Statement} {ts : List Triple}
    (h : List.Forall₂ (Statement.Denotes declared) (Statement.sort ss) ts) {t : Triple} :
    t ∈ ts ↔ Statement.Denoted declared ss t := by
  constructor
  · intro ht
    obtain ⟨s, hs, hst⟩ := Traversal.exists_of_mem_right h ht
    exact ⟨s, Statement.mem_sort.mp hs, hst⟩
  · rintro ⟨s, hs, hst⟩
    obtain ⟨t', ht', hst'⟩ := Traversal.exists_of_mem_left h (Statement.mem_sort.mpr hs)
    rwa [hst.unique hst']

/-- The flat view has the lines of the triples of its statements. -/
theorem write_eq_ok_iff {ss : List Statement} (hlist : ∀ s ∈ ss, ∀ items, s.object ≠ .list items)
    {T : Text} :
    write declared ss = .ok T ↔
      (∀ s ∈ ss, ∃ t, s.Denotes declared t) ∧ ∃ ts : List Triple,
        (∀ t, t ∈ ts ↔ Statement.Denoted declared ss t) ∧
          T = joinLines (ts.map fun t => Text.ofList (spell t)) := by
  have hlist' : ∀ s ∈ Statement.sort ss, ∀ items, s.object ≠ .list items :=
    fun s hs => hlist s (Statement.mem_sort.mp hs)
  constructor
  · intro h
    obtain ⟨lines, hlines, h⟩ := bind_eq_ok_iff.mp h
    obtain ⟨ts, hts, rfl⟩ := (writeFrom_eq_ok_iff hlist').mp hlines
    refine ⟨fun s hs => ?_, ts, fun t => mem_iff_denoted hts, (Except.ok.inj h).symm⟩
    obtain ⟨t, -, ht⟩ := Traversal.exists_of_mem_left hts (Statement.mem_sort.mpr hs)
    exact ⟨t, ht⟩
  · rintro ⟨hdenotes, ts, hts, rfl⟩
    obtain ⟨ts', hts'⟩ := Traversal.exists_forall₂ fun s hs => hdenotes s (Statement.mem_sort.mp hs)
    refine bind_eq_ok_iff.mpr ⟨_, (writeFrom_eq_ok_iff hlist').mpr ⟨ts', hts', rfl⟩, ?_⟩
    refine congrArg Except.ok (joinLines_congr fun l => ?_)
    simp only [List.mem_map, mem_iff_denoted hts', hts]

/-! ### Legible statements come back -/

/-- A text is read as statements of the triples of the given ones, and their flat view is the text. -/
def ComesBack (declared : PrefixMap) (ss : List Statement) (T : Text) : Prop :=
  ∃ R, parseRaw declared T = .ok R ∧ write declared R = .ok T ∧
    ∀ t, Statement.Denoted declared R t ↔ Statement.Denoted declared ss t

/-- The line of a triple of legible statements is read as a statement of that triple. -/
theorem exists_parseLine_of_isLegible {ss : List Statement} (htagged : ∀ s ∈ ss, s.object.IsTagged)
    (hlegible : ∀ s ∈ ss, s.IsLegible declared) {t : Triple} (ht : Statement.Denoted declared ss t) :
    Unbroken (spell t) ∧ isComment (spell t) = false ∧
      ∃ r, parseLine declared (Text.ofList (spell t)) = .ok r ∧ r.Denotes declared t := by
  obtain ⟨s, hs, hst⟩ := ht
  obtain ⟨t', hst', hlegible⟩ := hlegible s hs
  obtain rfl : t = t' := hst.unique hst'
  have hproper := Triple.isProper_of_denotes hst (htagged s hs)
  exact ⟨(unbroken_spell hproper).mpr hlegible.unbroken, isComment_spell hproper, parseLine_spell hproper hlegible⟩

/-- Lines that are each read as a statement of their triple are read as statements of these triples. -/
theorem exists_parseRaw_spell {ts : List Triple}
    (hparse : ∀ t ∈ ts, Unbroken (spell t) ∧ isComment (spell t) = false ∧
      ∃ r, parseLine declared (Text.ofList (spell t)) = .ok r ∧ r.Denotes declared t) :
    ∃ R, parseRaw declared (joinLines (ts.map fun t => Text.ofList (spell t))) = .ok R ∧
      (∀ r ∈ R, ∃ t ∈ ts, r.Denotes declared t) ∧ ∀ t ∈ ts, ∃ r ∈ R, r.Denotes declared t := by
  have hlines : ∀ l ∈ ts.map (fun t => Text.ofList (spell t)), Unbroken l.toList ∧
      isComment l.toList = false ∧ ∃ r, parseLine declared l = .ok r := by
    intro l hl
    obtain ⟨t, ht, rfl⟩ := List.mem_map.mp hl
    obtain ⟨hunbroken, hcomment, r, hr, -⟩ := hparse t ht
    rw [Text.toList_ofList]
    exact ⟨hunbroken, hcomment, r, hr⟩
  obtain ⟨R, hR, hmem⟩ := parseRaw_joinLines (fun l hl => (hlines l hl).1)
    (fun l hl => (hlines l hl).2.1) (fun l hl => (hlines l hl).2.2)
  refine ⟨R, hR, fun r hr => ?_, fun t ht => ?_⟩
  · obtain ⟨l, hl, hline⟩ := (hmem r).mp hr
    obtain ⟨t, ht, rfl⟩ := List.mem_map.mp hl
    obtain ⟨-, -, r', hline', hr'⟩ := hparse t ht
    cases hline.symm.trans hline'
    exact ⟨t, ht, hr'⟩
  · obtain ⟨-, -, r, hline, hr⟩ := hparse t ht
    exact ⟨r, (hmem r).mpr ⟨_, List.mem_map_of_mem ht, hline⟩, hr⟩

/-- The flat view of legible statements comes back. -/
theorem comesBack_of_isLegible {ss : List Statement} {T : Text} (hwrite : write declared ss = .ok T)
    (htagged : ∀ s ∈ ss, s.object.IsTagged)
    (hlegible : ∀ s ∈ ss, s.IsLegible declared) :
    ComesBack declared ss T := by
  have hlist : ∀ s ∈ ss, ∀ items, s.object ≠ .list items := by
    intro s hs
    obtain ⟨t, ht, -⟩ := hlegible s hs
    exact noList_of_denotes ht
  obtain ⟨-, ts, hts, rfl⟩ := (write_eq_ok_iff hlist).mp hwrite
  obtain ⟨R, hR, hread, hback⟩ := exists_parseRaw_spell fun t ht =>
    exists_parseLine_of_isLegible htagged hlegible ((hts t).mp ht)
  -- so the statements that are read have the same triples
  have hdenoted : ∀ t, t ∈ ts ↔ Statement.Denoted declared R t := by
    intro t
    refine ⟨hback t, ?_⟩
    rintro ⟨r, hr, hrt⟩
    obtain ⟨t', ht', hrt'⟩ := hread r hr
    rwa [hrt.unique hrt']
  refine ⟨R, hR, (write_eq_ok_iff fun r hr => ?_).mpr ⟨fun r hr => ?_, ts, hdenoted, rfl⟩, fun t => ?_⟩
  · obtain ⟨t, -, ht⟩ := hread r hr
    exact noList_of_denotes ht
  · obtain ⟨t, -, ht⟩ := hread r hr
    exact ⟨t, ht⟩
  · rw [← hdenoted, hts]

/-! ### Only legible statements come back -/

theorem mem_lines_joinLines {lines : List Text} {w : List CodePoint}
    (h : w ∈ Text.lines (joinLines lines).toList) :
    ∃ l ∈ lines, w ∈ Text.lines (l.toList ++ [.char '\n']) := by
  rw [lines_joinLines_eq] at h
  obtain ⟨l, hl, hw⟩ := List.mem_flatMap.mp h
  exact ⟨l, mem_sortedLines.mp hl, hw⟩

/-- If names expand back to what they were made from, a flat view that comes back has only legible
statements. -/
theorem isLegible_of_comesBack
    (hexpand : ∀ iri name, Name.shorten declared iri = .ok name → Name.expand declared name = .ok iri)
    {ss : List Statement} {T : Text} (hlist : ∀ s ∈ ss, ∀ items, s.object ≠ .list items)
    (htagged : ∀ s ∈ ss, s.object.IsTagged) (hwrite : write declared ss = .ok T)
    (h : ComesBack declared ss T) : ∀ s ∈ ss, s.IsLegible declared := by
  obtain ⟨hdenotes, ts, hts, rfl⟩ := (write_eq_ok_iff hlist).mp hwrite
  obtain ⟨R, hR, -, hsame⟩ := h
  have hproper : ∀ t ∈ ts, t.IsProper := by
    intro t ht
    obtain ⟨s, hs, hst⟩ := (hts t).mp ht
    exact Triple.isProper_of_denotes hst (htagged s hs)
  -- each triple is that of a statement that was read from a line of one of the triples
  have hread : ∀ t ∈ ts, t.IsCovered declared ∧ ∃ u ∈ ts, ∃ line ∈ Text.lines (spell u ++ [.char '\n']),
      ∃ piece ∈ pieces line, readTriple piece = .ok (some t) := by
    intro t ht
    obtain ⟨r, hr, hrt⟩ := (hsame t).mpr ((hts t).mp ht)
    obtain ⟨line, hline, piece, hpiece, t', hread, hstatement⟩ := mem_parseRaw hR hr
    obtain ⟨hrt', hcovered⟩ := denotes_of_statementOf hexpand hread hstatement
    obtain rfl : t = t' := hrt.unique hrt'
    obtain ⟨l, hl, hline⟩ := mem_lines_joinLines hline
    obtain ⟨u, hu, rfl⟩ := List.mem_map.mp hl
    rw [Text.toList_ofList] at hline
    exact ⟨hcovered, u, hu, line, hline, piece, hpiece, hread⟩
  -- the triples are finitely many, so none of them can be read as another
  have hreadable := isReadable_of_preimages hproper fun t ht => (hread t ht).2
  intro s hs
  obtain ⟨t, hst⟩ := hdenotes s hs
  have ht : t ∈ ts := (hts t).mpr ⟨s, hs, hst⟩
  obtain ⟨hunbroken, hreadable⟩ := hreadable t ht
  exact ⟨t, hst, (unbroken_spell (hproper t ht)).mp hunbroken, hreadable, (hread t ht).1⟩

end NTriples

/-! ### The flat view of a compilation -/

/-- **A flat view comes back iff it is legible.** Take an accepted document without lists whose flat view
renders. If all its statements are legible, reading the view as raw text gives statements of the same
triples, whose flat view is the same text. For a prefix map whose names expand back to the identifiers they
were made from this is also necessary. -/
theorem flat_text_comes_back_iff {v : Json} {c : Compilation} {T : Text} (h : compile v = .ok c)
    (hlist : ∀ s ∈ c.statements, ∀ items, s.object ≠ .list items) (hT : c.ntriples = .ok T) :
    ((∀ s ∈ c.statements, s.IsLegible c.document.namespaces) →
      NTriples.ComesBack c.document.namespaces c.statements T) ∧
    ((∀ iri name, Name.shorten c.document.namespaces iri = .ok name →
        Name.expand c.document.namespaces name = .ok iri) →
      NTriples.ComesBack c.document.namespaces c.statements T →
        ∀ s ∈ c.statements, s.IsLegible c.document.namespaces) := by
  have htagged : ∀ s ∈ c.statements, s.object.IsTagged := fun s hs => isTagged_of_mem_statements h hs
  exact ⟨NTriples.comesBack_of_isLegible hT htagged,
    fun hexpand => NTriples.isLegible_of_comesBack hexpand hlist htagged hT⟩

/-- A statement about a value of two lines. -/
def twoLines : Statement := ⟨"x:s", "x:p", .literal ⟨"a\nb", none, none⟩⟩

theorem flat_text_comes_back_twoLines :
    ∃ c T, compile (rawDocument "x" "http://x/" "<http://x/s> <http://x/p> \"a\\nb\" .") = .ok c ∧
      (∀ s ∈ c.statements, ∀ items, s.object ≠ .list items) ∧ c.ntriples = .ok T ∧
      (∀ s ∈ c.statements, s.IsLegible c.document.namespaces) ∧
      NTriples.ComesBack c.document.namespaces c.statements T := by
  have hraw : NTriples.parseRaw [("x", "http://x/")] "<http://x/s> <http://x/p> \"a\\nb\" ." =
      .ok [twoLines] := by
    decide +kernel
  have hcompile := compile_rawDocument hraw
  have hexpand : ∀ iri name, Name.shorten [("x", "http://x/")] iri = .ok name →
      Name.expand [("x", "http://x/")] name = .ok iri := by
    intro iri name
    refine Name.expand_of_shorten (by decide) fun l hl => ?_
    obtain rfl : l = "x" := List.mem_singleton.mp hl
    exact Name.isTransparent_of_notMem _ (by decide)
  have hlist : ∀ s ∈ [twoLines], ∀ items, s.object ≠ .list items := by
    intro s hs items
    obtain rfl := List.mem_singleton.mp hs
    rintro ⟨⟩
  have hT : NTriples.write [("x", "http://x/")] [twoLines] =
      .ok "<http://x/s> <http://x/p> \"a\\nb\" .\n" := by
    decide +kernel
  have hreadable : ∀ r ∈ (["s", "p"] : List Text), NTriples.IsReadableIri ("http://x/" ++ r) := by
    have hplain : ∀ r ∈ (["s", "p"] : List Text), .char '\\' ∉ ("http://x/" ++ r).toList ∧
        ("//x/" ++ r).toList.all (fun c => !NTriples.endsIri c) = true := by
      decide +kernel
    intro r hr
    refine NTriples.isReadableIri_of_notMem ?_ (hplain r hr).1
    refine ⟨("http" : Text).toList, ("//x/" ++ r).toList, by decide, by decide, fun c hc => ?_, by simp⟩
    simpa using List.all_eq_true.mp (hplain r hr).2 c hc
  have hunbroken : ∀ r ∈ (["s", "p"] : List Text), NTriples.Unbroken ("http://x/" ++ r).toList := by
    decide +kernel
  have hvalue : ∀ c ∈ ("a\nb" : Text).toList, Text.isLineBreak c = true → c = '\n' ∨ c = '\r' := by
    intro c hc hbreak
    have hc : c = 'a' ∨ c = '\n' ∨ c = 'b' := by simpa using hc
    rcases hc with rfl | rfl | rfl
    · cases hbreak
    · exact .inl rfl
    · cases hbreak
  have hcovered : ∀ r ∈ (["s", "p"] : List Text), NTriples.IsCoveredIri [("x", "http://x/")] ("http://x/" ++ r) := by
    have hname : ∀ r ∈ (["s", "p"] : List Text),
        Name.shorten [("x", "http://x/")] ("http://x/" ++ r) = .ok ("x:" ++ r) := by
      decide +kernel
    exact fun r hr => ⟨_, hname r hr, hexpand _ _ (hname r hr)⟩
  have hlegible : ∀ s ∈ [twoLines], s.IsLegible [("x", "http://x/")] := by
    intro s hs
    obtain rfl := List.mem_singleton.mp hs
    refine ⟨⟨.iri ("http://x/" ++ "s"), .iri ("http://x/" ++ "p"), .literal ⟨"a\nb", none, none⟩⟩,
      ⟨.name (by decide +kernel), .name (by decide +kernel), .plain rfl rfl⟩,
      ⟨hunbroken "s" (by decide), hunbroken "p" (by decide), hvalue, by rintro _ ⟨⟩⟩,
      ⟨hreadable "s" (by decide), hreadable "p" (by decide), by rintro _ ⟨⟩⟩,
      ⟨hcovered "s" (by decide), hcovered "p" (by decide), by rintro _ ⟨⟩⟩⟩
  obtain ⟨hback, honly⟩ := flat_text_comes_back_iff hcompile hlist hT
  exact ⟨_, _, hcompile, hlist, hT, honly hexpand (hback hlegible), hback hlegible⟩

/-- The reader takes a line separator in a value for the end of the line, but the writer does not escape
it: of an accepted document the flat view renders to a text that the reader refuses. -/
theorem flat_text_refused_of_lineSeparator :
    ∃ c, compile (rawDocument "x" "http://x/" "<http://x/s> <http://x/p> \"a\\u2028b\" .") = .ok c ∧
      (∀ s ∈ c.statements, ∀ items, s.object ≠ .list items) ∧
      c.ntriples = .ok "<http://x/s> <http://x/p> \"a\u2028b\" .\n" ∧
      NTriples.parseRaw c.document.namespaces "<http://x/s> <http://x/p> \"a\u2028b\" .\n" =
        .error (.line "<http://x/s> <http://x/p> \"a" .syntaxError) := by
  have hraw : NTriples.parseRaw [("x", "http://x/")] "<http://x/s> <http://x/p> \"a\\u2028b\" ." =
      .ok [⟨"x:s", "x:p", .literal ⟨"a\u2028b", none, none⟩⟩] := by
    decide +kernel
  refine ⟨_, compile_rawDocument hraw, ?_, by decide +kernel, by decide +kernel⟩
  intro s hs items
  obtain rfl := List.mem_singleton.mp hs
  rintro ⟨⟩

end Ontogram

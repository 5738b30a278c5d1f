/-
Raw text as a set of lines.

A line of raw text is read without regard to the lines around it, and blank lines and comments are passed over.
So all that matters of a text is which lines with content there are, and two texts with a line feed between them
have the lines of both, even if a carriage return in front of the line feed ends one line together with it:

* `contentLines_append_feed` — the lines with content of two texts with a line feed between them;
* `parseRaw_isOk_iff`, `mem_iff_of_parseRaw`, `parseRaw_eq_error_iff` — whether a text is accepted, with which
  statements, and with which error it is refused, by its lines with content;
* `readsAs_of_mem_iff` — the same lines, in another order or more often, have the same statements;
* `raw_lines_independent` — a text of two parts is read as both parts are.
-/
import Ontogram.Proofs.RawFailures
namespace Ontogram

/-! ### Lines -/

namespace Text

/-- A line feed at the end opens at most one further line, and that one is empty. -/
theorem lines_append_final_feed (cs : List CodePoint) :
    lines (cs ++ [.char '\n']) = lines cs ∨ lines (cs ++ [.char '\n']) = lines cs ++ [[]] := by
  fun_induction lines cs with
  | case1 => exact .inr rfl
  | case2 c hc =>
    by_cases hreturn : c = '\r'
    · subst hreturn
      exact .inl rfl
    · rw [List.singleton_append, lines_break hc fun h => hreturn h.1]
      exact .inr rfl
  | case3 c hc =>
    rw [List.singleton_append, lines_cons (Bool.not_eq_true _ ▸ hc)]
    exact .inl rfl
  | case4 c d cs hreturn ih =>
    obtain ⟨rfl, rfl⟩ := hreturn
    show [] :: lines (cs ++ [.char '\n']) = _ ∨ [] :: lines (cs ++ [.char '\n']) = _
    exact ih.imp (congrArg _) (congrArg _)
  | case5 c d cs hreturn hc ih =>
    rw [List.cons_append, List.cons_append, lines_break hc hreturn]
    exact ih.imp (congrArg _) (congrArg _)
  | case6 c d cs hreturn hc ih =>
    have hfeed : lines (c :: d :: cs ++ [.char '\n']) = consLine c (lines (d :: cs ++ [.char '\n'])) :=
      lines_cons (Bool.not_eq_true _ ▸ hc) _
    rw [hfeed, ← consLine_append c (lines_ne_nil (List.cons_ne_nil d cs))]
    exact ih.imp (congrArg _) (congrArg _)

end Text

namespace NTriples

open Traversal (bind_eq_error_iff bind_eq_ok_iff exists_bind_pure_iff mapM_eq_error_iff)

theorem contentLines_append_feed (s t : Text) :
    contentLines (s ++ "\n" ++ t) = contentLines s ++ contentLines t := by
  have htext : (s ++ "\n" ++ t).toList = s.toList ++ .char '\n' :: t.toList := by simp
  -- the line that the line feed may open is empty, and no line with content
  have hfinal : (Text.lines (s.toList ++ [.char '\n'])).filter (fun line => !isComment line) =
      (Text.lines s.toList).filter fun line => !isComment line := by
    rcases Text.lines_append_final_feed s.toList with h | h
    · rw [h]
    · rw [h, List.filter_append]
      exact List.append_nil _
  rw [contentLines, htext, Text.lines_append_feed, List.filter_append, hfinal, List.map_append]
  rfl

/-- A text without breaks is its only line. -/
theorem contentLines_of_unbroken {l : Text} (h : Unbroken l.toList) :
    contentLines l = [l].filter fun l => !isComment l.toList := by
  by_cases hempty : l = ""
  · subst hempty
    rfl
  · have hne : l.toList ≠ [] := fun hnil => hempty (Text.toList_eq_nil_iff.mp hnil)
    rw [contentLines, Text.lines_singleton hne h, List.filter_singleton, List.filter_singleton]
    cases isComment l.toList <;> simp

/-- Lines with a line feed between any two have the content that they have. -/
theorem contentLines_intercalate {ls : List Text} (h : ∀ l ∈ ls, Unbroken l.toList) :
    contentLines (Text.intercalate "\n" ls) = ls.filter fun l => !isComment l.toList := by
  induction ls with
  | nil => rfl
  | cons l ls ih =>
    obtain ⟨hl, hls⟩ := List.forall_mem_cons.mp h
    cases ls with
    | nil => rw [Text.intercalate_singleton, contentLines_of_unbroken hl]
    | cons l' ls =>
      rw [Text.intercalate_cons_cons, contentLines_append_feed, contentLines_of_unbroken hl, ih hls,
        ← List.filter_append]
      rfl

/-- All lines of a text, those without content among them. -/
def textLines (text : Text) : List Text := (Text.lines text.toList).map Text.ofList

theorem contentLines_eq_filter (text : Text) :
    contentLines text = (textLines text).filter fun l => !isComment l.toList := by
  rw [contentLines, textLines, List.filter_map]
  simp only [Function.comp_def]

theorem unbroken_of_mem_textLines {text l : Text} (h : l ∈ textLines text) : Unbroken l.toList := by
  obtain ⟨cs, hcs, rfl⟩ := List.mem_map.mp h
  rw [Text.toList_ofList]
  exact Text.unbroken_of_mem_lines hcs

/-! ### Outcomes -/

variable {declared : PrefixMap} {s t text other : Text}

theorem parseRaw_isOk_iff : (∃ a, parseRaw declared text = .ok a) ↔
    ∀ l ∈ contentLines text, ∃ x, parseLine declared l = .ok x := by
  rw [parseRaw_eq, exists_bind_pure_iff]
  exact Traversal.mapM_isOk_iff

/-- The statements of a text are those of its lines with content. -/
theorem mem_iff_of_parseRaw {a : List Statement} (h : parseRaw declared text = .ok a) {x : Statement} :
    x ∈ a ↔ ∃ l ∈ contentLines text, parseLine declared l = .ok x := by
  rw [parseRaw_eq] at h
  obtain ⟨found, hfound, h⟩ := bind_eq_ok_iff.mp h
  rw [← Except.ok.inj h, List.mem_eraseDups]
  exact Traversal.mem_iff_of_mapM_eq_ok hfound

theorem parseRaw_eq_error_iff {e : RawError} : parseRaw declared text = .error e ↔
    ∃ before line after, contentLines text = before ++ line :: after ∧
      (∀ l ∈ before, ∃ x, parseLine declared l = .ok x) ∧ parseLine declared line = .error e := by
  rw [parseRaw_eq, bind_eq_error_iff, ← mapM_eq_error_iff]
  refine or_iff_left ?_
  rintro ⟨_, _, ⟨⟩⟩

/-! ### Texts with the same lines -/

/-- The text is accepted with the given statements, in whatever order and however often they are given. -/
def ReadsAs (declared : PrefixMap) (text : Text) (statements : List Statement) : Prop :=
  ∃ a, parseRaw declared text = .ok a ∧ ∀ x, x ∈ a ↔ x ∈ statements

/-- Of a text only the lines with content count. -/
theorem readsAs_of_mem_iff {a : List Statement} (ha : parseRaw declared text = .ok a)
    (h : ∀ l, l ∈ contentLines other ↔ l ∈ contentLines text) : ReadsAs declared other a := by
  have hlines := parseRaw_isOk_iff.mp ⟨a, ha⟩
  obtain ⟨b, hb⟩ := parseRaw_isOk_iff.mpr fun l hl => hlines l ((h l).mp hl)
  refine ⟨b, hb, fun x => ?_⟩
  rw [mem_iff_of_parseRaw hb, mem_iff_of_parseRaw ha]
  simp only [h]

/-! ### Texts of two parts -/

/-- What is read of a text, by what is read of the two parts that it was made of. -/
structure ReadsBoth (declared : PrefixMap) (s t text : Text) : Prop where
  isOk_iff : (∃ c, parseRaw declared text = .ok c) ↔
    (∃ a, parseRaw declared s = .ok a) ∧ ∃ b, parseRaw declared t = .ok b
  union : ∀ a b, parseRaw declared s = .ok a → parseRaw declared t = .ok b → ReadsAs declared text (a ++ b)
  first_error : ∀ e, parseRaw declared s = .error e → parseRaw declared text = .error e
  second_error : ∀ a e, parseRaw declared s = .ok a → parseRaw declared t = .error e →
    parseRaw declared text = .error e

theorem readsBoth_append_feed (declared : PrefixMap) (s t : Text) : ReadsBoth declared s t (s ++ "\n" ++ t) := by
  have hlines := contentLines_append_feed s t
  have hok : (∃ c, parseRaw declared (s ++ "\n" ++ t) = .ok c) ↔
      (∃ a, parseRaw declared s = .ok a) ∧ ∃ b, parseRaw declared t = .ok b := by
    simp only [parseRaw_isOk_iff, hlines, List.forall_mem_append]
  refine ⟨hok, fun a b ha hb => ?_, fun e he => ?_, fun a e ha he => ?_⟩
  · obtain ⟨c, hc⟩ := hok.mpr ⟨⟨a, ha⟩, b, hb⟩
    refine ⟨c, hc, fun x => ?_⟩
    rw [mem_iff_of_parseRaw hc, List.mem_append, mem_iff_of_parseRaw ha, mem_iff_of_parseRaw hb, hlines]
    simp only [List.mem_append, or_and_right, exists_or]
  · obtain ⟨before, line, after, hs, hbefore, hline⟩ := parseRaw_eq_error_iff.mp he
    refine parseRaw_eq_error_iff.mpr ⟨before, line, after ++ contentLines t, ?_, hbefore, hline⟩
    rw [hlines, hs, List.append_assoc, List.cons_append]
  · obtain ⟨before, line, after, ht, hbefore, hline⟩ := parseRaw_eq_error_iff.mp he
    refine parseRaw_eq_error_iff.mpr ⟨contentLines s ++ before, line, after, ?_, ?_, hline⟩
    · rw [hlines, ht, List.append_assoc]
    · exact List.forall_mem_append.mpr ⟨parseRaw_isOk_iff.mp ⟨a, ha⟩, hbefore⟩

/-- **Raw text is a set of independent lines.** Two texts with a line feed between them are read as both are, with
the statements of both or the first error; and the lines of an accepted text, repeated and in any order, are
accepted with the same statements, whatever separates them. -/
theorem raw_lines_independent (declared : PrefixMap) :
    (∀ s t, ReadsBoth declared s t (s ++ "\n" ++ t)) ∧
      ∀ text a, parseRaw declared text = .ok a →
        (∀ other, (∀ l, l ∈ textLines other ↔ l ∈ textLines text) → ReadsAs declared other a) ∧
        ∀ ls, (∀ l, l ∈ ls ↔ l ∈ textLines text) → ReadsAs declared (Text.intercalate "\n" ls) a := by
  refine ⟨readsBoth_append_feed declared, fun text a ha => ⟨fun other h => ?_, fun ls h => ?_⟩⟩
  · refine readsAs_of_mem_iff ha fun l => ?_
    rw [contentLines_eq_filter, contentLines_eq_filter, List.mem_filter, List.mem_filter, h]
  · have hunbroken : ∀ l ∈ ls, Unbroken l.toList := fun l hl => unbroken_of_mem_textLines ((h l).mp hl)
    refine readsAs_of_mem_iff ha fun l => ?_
    rw [contentLines_intercalate hunbroken, contentLines_eq_filter, List.mem_filter, List.mem_filter, h]

/-! ### A carriage return between two texts -/

/-- The line of a statement about the identifier with the given number. -/
def numberedLine (number : Text) : Text := "<http://x/" ++ number ++ "> <http://x/p> <http://x/o> ."

def numberedStatement (number : Text) : Statement := ⟨"x:" ++ number, "x:p", .name "x:o"⟩

/-- The carriage return at the end of the first text and the line feed between the texts end one line. A text that
cannot be used is reported as it is alone, and the lines can be given in another order and twice. -/
theorem raw_lines_independent_return :
    parseRaw [("x", "http://x/")] ("# note\n" ++ numberedLine "1" ++ "\r") = .ok [numberedStatement "1"] ∧
      parseRaw [("x", "http://x/")] (numberedLine "2") = .ok [numberedStatement "2"] ∧
      ReadsAs [("x", "http://x/")] ("# note\n" ++ numberedLine "1" ++ "\r" ++ "\n" ++ numberedLine "2")
        [numberedStatement "1", numberedStatement "2"] ∧
      parseRaw [("x", "http://x/")] ("# note\n" ++ numberedLine "1" ++ "\r" ++ "\n" ++ "?") =
        .error (.line "?" .syntaxError) ∧
      ReadsAs [("x", "http://x/")] (Text.intercalate "\n" [numberedLine "1", "# note", numberedLine "1"])
        [numberedStatement "1"] := by
  obtain ⟨hboth, hsame⟩ := raw_lines_independent [("x", "http://x/")]
  have hfirst : parseRaw [("x", "http://x/")] ("# note\n" ++ numberedLine "1" ++ "\r") =
      .ok [numberedStatement "1"] := by decide +kernel
  have hsecond : parseRaw [("x", "http://x/")] (numberedLine "2") = .ok [numberedStatement "2"] := by
    decide +kernel
  have hfault : parseRaw [("x", "http://x/")] "?" = .error (.line "?" .syntaxError) := by decide +kernel
  have hlines : textLines ("# note\n" ++ numberedLine "1" ++ "\r") = (["# note", numberedLine "1"] : List Text) := by
    decide +kernel
  have hmem : ∀ l, l ∈ ([numberedLine "1", "# note", numberedLine "1"] : List Text) ↔
      l ∈ textLines ("# note\n" ++ numberedLine "1" ++ "\r") := by
    intro l
    simp only [hlines, List.mem_cons, List.not_mem_nil, or_false]
    rw [or_left_comm, or_self]
  exact ⟨hfirst, hsecond, (hboth _ _).union _ _ hfirst hsecond, (hboth _ _).second_error _ _ hfirst hfault,
    (hsame _ _ hfirst).2 _ hmem⟩

end NTriples

end Ontogram

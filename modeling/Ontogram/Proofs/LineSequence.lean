/-
The lines of a text that was joined from lines.

Joining sorts the lines, drops repetitions and puts a line feed behind each, so the text depends only on
which lines there are, and as long as no line has a break inside, splitting finds them again:

* `lines_append` — a line ends at the first line feed behind unbroken text;
* `lines_append_feed` — what stands behind a line feed does not matter to the lines before it;
* `sublist_of_mem_lines` — a line has no breaks in it;
* `joinLines_congr` — the same lines in another order, or repeated, join to the same text;
* `lines_joinLines` — the lines of a joined text are the lines that it was joined from, sorted.
-/
import Ontogram.Proofs.TextOrder
import Ontogram.NTriples.Writer
import Ontogram.Proofs.Escaping
namespace Ontogram

namespace Text

open NTriples (Unbroken)

/-! ### Splitting -/

theorem lines_feed (rest : List CodePoint) : lines (.char '\n' :: rest) = [] :: lines rest := by
  cases rest with
  | nil => rfl
  | cons d rest =>
    rw [lines, if_neg (by rintro ⟨⟨⟩, -⟩), if_pos (by decide)]

theorem lines_cons {c : CodePoint} (h : isLineBreak c = false) (rest : List CodePoint) :
    lines (c :: rest) = consLine c (lines rest) := by
  cases rest with
  | nil => simp [lines, h, consLine]
  | cons d rest =>
    have hreturn : ¬ (c = '\r' ∧ d = '\n') := by
      rintro ⟨rfl, -⟩
      cases h
    rw [lines, if_neg hreturn, if_neg (by simp [h])]

/-- Unbroken text in front of a line feed is a line. -/
theorem lines_append {w : List CodePoint} (h : Unbroken w) (rest : List CodePoint) :
    lines (w ++ .char '\n' :: rest) = w :: lines rest := by
  induction w with
  | nil => exact lines_feed rest
  | cons c w ih =>
    obtain ⟨hc, hw⟩ := List.forall_mem_cons.mp h
    rw [List.cons_append, lines_cons hc, ih hw]
    rfl

theorem lines_break {c d : CodePoint} (hc : isLineBreak c = true) (h : ¬ (c = '\r' ∧ d = '\n'))
    (rest : List CodePoint) : lines (c :: d :: rest) = [] :: lines (d :: rest) := by
  rw [lines, if_neg h, if_pos hc]

theorem consLine_append (c : CodePoint) {ls : List (List CodePoint)} (h : ls ≠ []) (more : List (List CodePoint)) :
    consLine c (ls ++ more) = consLine c ls ++ more := by
  cases ls with
  | nil => exact absurd rfl h
  | cons l ls => rfl

theorem lines_ne_nil {cs : List CodePoint} (h : cs ≠ []) : lines cs ≠ [] := by
  fun_induction lines cs with
  | case1 => exact absurd rfl h
  | case6 c d cs _ _ _ =>
    cases lines (d :: cs) <;> exact List.cons_ne_nil _ _
  | _ => exact List.cons_ne_nil _ _

/-- What stands behind a line feed does not matter to the lines before it. -/
theorem lines_append_feed (cs rest : List CodePoint) :
    lines (cs ++ .char '\n' :: rest) = lines (cs ++ [.char '\n']) ++ lines rest := by
  fun_induction lines cs with
  | case1 => exact lines_feed rest
  | case2 c hc =>
    -- a final carriage return and the line feed end one line
    by_cases hreturn : c = '\r'
    · subst hreturn
      rfl
    · have hnot : ¬ (c = '\r' ∧ CodePoint.char '\n' = '\n') := fun h => hreturn h.1
      rw [List.singleton_append, List.singleton_append, lines_break hc hnot, lines_break hc hnot,
        lines_feed]
      rfl
  | case3 c hc =>
    have hc : isLineBreak c = false := Bool.not_eq_true _ ▸ hc
    rw [List.singleton_append, List.singleton_append, lines_cons hc, lines_cons hc, lines_feed]
    rfl
  | case4 c d cs hreturn ih =>
    obtain ⟨rfl, rfl⟩ := hreturn
    show [] :: lines (cs ++ .char '\n' :: rest) = [] :: (lines (cs ++ [.char '\n']) ++ lines rest)
    rw [ih]
  | case5 c d cs hreturn hc ih =>
    rw [List.cons_append, List.cons_append, lines_break hc hreturn, List.cons_append, List.cons_append,
      lines_break hc hreturn, ← List.cons_append, ih]
    rfl
  | case6 c d cs hreturn hc ih =>
    have hc : isLineBreak c = false := Bool.not_eq_true _ ▸ hc
    have hfeed : lines (c :: d :: cs ++ [.char '\n']) = consLine c (lines (d :: cs ++ [.char '\n'])) :=
      lines_cons hc _
    rw [List.cons_append, lines_cons hc, ih, hfeed, consLine_append c (lines_ne_nil (by simp))]

/-- A line has no breaks in it. -/
theorem sublist_of_mem_lines {cs w : List CodePoint} (h : w ∈ lines cs) :
    w.Sublist (cs.filter fun c => !isLineBreak c) := by
  fun_induction lines cs generalizing w with
  | case1 => cases h
  | case2 c hc =>
    rw [List.mem_singleton.mp h]
    exact List.nil_sublist _
  | case3 c hc =>
    rw [List.mem_singleton.mp h, List.filter_cons_of_pos (by simpa using hc)]
    exact List.Sublist.refl _
  | case4 c d cs hreturn ih =>
    rcases List.mem_cons.mp h with rfl | h
    · exact List.nil_sublist _
    · exact (ih h).trans ((List.sublist_cons_self _ _).trans (List.sublist_cons_self _ _) |>.filter _)
  | case5 c d cs hreturn hc ih =>
    rcases List.mem_cons.mp h with rfl | h
    · exact List.nil_sublist _
    · exact (ih h).trans ((List.sublist_cons_self _ _).filter _)
  | case6 c d cs hreturn hc ih =>
    rw [List.filter_cons_of_pos (by simpa using hc)]
    obtain ⟨l, ls, hls⟩ := List.exists_cons_of_ne_nil (lines_ne_nil (List.cons_ne_nil d cs))
    rw [hls] at h ih
    rcases List.mem_cons.mp h with rfl | h
    · exact (ih List.mem_cons_self).cons_cons c
    · exact (ih (List.mem_cons_of_mem _ h)).cons c

theorem unbroken_of_mem_lines {cs w : List CodePoint} (h : w ∈ lines cs) : Unbroken w := by
  intro c hc
  simpa using (List.mem_filter.mp ((sublist_of_mem_lines h).subset hc)).2

end Text

namespace NTriples

/-! ### Joining -/

/-- The lines of a text in their order. -/
def sortedLines (lines : List Text) : List Text :=
  lines.eraseDups.mergeSort fun a b => a ≤ b

theorem joinLines_eq (lines : List Text) :
    joinLines lines = Text.join ((sortedLines lines).map (· ++ "\n")) := rfl

theorem mem_sortedLines {lines : List Text} {l : Text} : l ∈ sortedLines lines ↔ l ∈ lines := by
  rw [sortedLines, (List.mergeSort_perm _ _).mem_iff, List.mem_eraseDups]

/-- The text depends only on which lines there are. -/
theorem joinLines_congr {lines lines' : List Text} (h : ∀ l, l ∈ lines ↔ l ∈ lines') :
    joinLines lines = joinLines lines' := by
  have hle (a b : Text) : decide (a ≤ b) = true ↔ id a ≤ id b := decide_eq_true_iff
  have hsorted : sortedLines lines = sortedLines lines' :=
    Traversal.mergeSort_eraseDups_congr hle Function.injective_id h
  rw [joinLines_eq, joinLines_eq, hsorted]

/-- The lines of a text that was joined are those of the single lines. -/
theorem lines_joinLines_eq (lines : List Text) : Text.lines (joinLines lines).toList =
    (sortedLines lines).flatMap fun l => Text.lines (l.toList ++ [.char '\n']) := by
  rw [joinLines_eq]
  induction sortedLines lines with
  | nil => simp [Text.join, Text.lines]
  | cons l rest ih =>
    have htext : (Text.join ((l :: rest).map (· ++ "\n"))).toList =
        l.toList ++ .char '\n' :: (Text.join (rest.map (· ++ "\n"))).toList := by
      simp [Text.join_cons]
    rw [htext, Text.lines_append_feed, ih]
    rfl

/-- Splitting finds unbroken lines again. -/
theorem lines_joinLines {lines : List Text} (h : ∀ l ∈ lines, Unbroken l.toList) :
    Text.lines (joinLines lines).toList = (sortedLines lines).map Text.toList := by
  rw [lines_joinLines_eq, List.map_eq_flatMap]
  refine List.flatMap_congr fun l hl => ?_
  rw [Text.lines_append (h l (mem_sortedLines.mp hl))]
  rfl

/-- Only line feeds and carriage returns take a text to pieces. -/
theorem pieces_eq_singleton {cs : List CodePoint} (hfeed : .char '\n' ∉ cs) (hreturn : .char '\r' ∉ cs) :
    pieces cs = [cs] := by
  induction cs with
  | nil => rfl
  | cons c cs ih =>
    rw [List.mem_cons, not_or] at hfeed hreturn
    have hbreak : ¬ (c = '\n' ∨ c = '\r') := not_or.mpr ⟨Ne.symm hfeed.1, Ne.symm hreturn.1⟩
    rw [pieces, if_neg hbreak, ih hfeed.2 hreturn.2]

theorem pieces_of_unbroken {cs : List CodePoint} (h : Unbroken cs) : pieces cs = [cs] := by
  refine pieces_eq_singleton (fun hmem => ?_) fun hmem => ?_ <;> cases h _ hmem

end NTriples

end Ontogram

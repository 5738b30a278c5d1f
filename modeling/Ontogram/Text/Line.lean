/-
Lines of a text.

A line ends at any of the line, form and information separators that Unicode knows, and a carriage
return directly before a line feed ends one line, not two:

* `lines` — the lines of a text without their ends; a final line end opens no further line;
* `lines_singleton` — a text without line breaks is its own only line;
* `dropFinalBreak` — a text without the one line feed that may stand at its end; `dropFinalBreak_eq_iff` says
  which texts are left;
* `joined` — line ends written as line feeds only, which is how text files are read.
-/
import Ontogram.Text.Basic
namespace Ontogram.Text

def isLineBreak (c : CodePoint) : Bool :=
  c == '\n' || c == '\r' || c == '\x0b' || c == '\x0c' || c == '\x1c' || c == '\x1d' || c == '\x1e' ||
    c == '\u0085' || c == '\u2028' || c == '\u2029'

/-- Put `c` before the first line; a text of one character so far has just that line. -/
def consLine (c : CodePoint) : List (List CodePoint) → List (List CodePoint)
  | [] => [[c]]
  | line :: rest => (c :: line) :: rest

def lines : List CodePoint → List (List CodePoint)
  | [] => []
  | [c] => if isLineBreak c then [[]] else [[c]]
  | c :: d :: rest =>
    if c = '\r' ∧ d = '\n' then [] :: lines rest
    else if isLineBreak c then [] :: lines (d :: rest)
    else consLine c (lines (d :: rest))

theorem lines_singleton {cs : List CodePoint} (hne : cs ≠ []) (h : ∀ c ∈ cs, isLineBreak c = false) :
    lines cs = [cs] := by
  fun_induction lines cs with
  | case1 => exact absurd rfl hne
  | case2 c hc => simp [h c] at hc
  | case3 c hc => rfl
  | case4 c d rest hcr => exact absurd (h _ List.mem_cons_self) (by rw [hcr.1]; decide)
  | case5 c d rest hcr hc => simp [h c] at hc
  | case6 c d rest hcr hc ih =>
    rw [ih (by simp) fun e he => h e (List.mem_cons_of_mem _ he)]
    rfl

/-- A text without one line feed at its end. -/
def dropFinalBreak (cs : List CodePoint) : List CodePoint :=
  if cs.getLast? = some (.char '\n') then cs.dropLast else cs

theorem dropFinalBreak_eq_self {cs : List CodePoint} (h : cs.getLast? ≠ some (.char '\n')) : dropFinalBreak cs = cs :=
  if_neg h

theorem dropFinalBreak_append_feed (cs : List CodePoint) : dropFinalBreak (cs ++ [.char '\n']) = cs := by
  rw [dropFinalBreak, List.getLast?_concat, if_pos rfl, List.dropLast_concat]

/-- At most one line feed is left out. -/
theorem eq_dropFinalBreak_or (cs : List CodePoint) :
    cs = dropFinalBreak cs ∨ cs = dropFinalBreak cs ++ [.char '\n'] := by
  by_cases h : cs.getLast? = some (.char '\n')
  · obtain ⟨rest, rfl⟩ := List.getLast?_eq_some_iff.mp h
    exact .inr (by rw [dropFinalBreak_append_feed])
  · exact .inl (dropFinalBreak_eq_self h).symm

theorem dropFinalBreak_eq_iff {cs ds : List CodePoint} (h : ds.getLast? ≠ some (.char '\n')) :
    dropFinalBreak cs = ds ↔ cs = ds ∨ cs = ds ++ [.char '\n'] := by
  constructor
  · rintro rfl
    exact eq_dropFinalBreak_or cs
  · rintro (rfl | rfl)
    · exact dropFinalBreak_eq_self h
    · exact dropFinalBreak_append_feed ds

/-- Every carriage return, alone or before a line feed, becomes one line feed. -/
def joined : List CodePoint → List CodePoint
  | [] => []
  | [c] => if c = '\r' then [.char '\n'] else [c]
  | c :: d :: rest =>
    if c = '\r' then (if d = '\n' then .char '\n' :: joined rest else .char '\n' :: joined (d :: rest))
    else c :: joined (d :: rest)

end Ontogram.Text

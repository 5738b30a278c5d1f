/-
Blank characters.

A label, a raw line and a literal may carry white space of any script, so blankness is the Unicode
notion together with the four information separators `U+001C`–`U+001F`:

* `isBlank` — membership in the table `blankRanges`;
* `trim` — a text without the blanks at either end.
-/
import Ontogram.Text.Ascii
namespace Ontogram.Text

/-- Closed ranges of code points, ascending and apart. -/
def blankRanges : List (Nat × Nat) :=
  [(0x09, 0x0D), (0x1C, 0x20), (0x85, 0x85), (0xA0, 0xA0), (0x1680, 0x1680), (0x2000, 0x200A),
   (0x2028, 0x2029), (0x202F, 0x202F), (0x205F, 0x205F), (0x3000, 0x3000)]

def isBlank (c : CodePoint) : Bool :=
  blankRanges.any fun r => r.1 ≤ c.toNat && c.toNat ≤ r.2

/-- Visible ASCII characters are not blank. -/
theorem isBlank_of_visible {c : CodePoint} (h : 0x20 < c.toNat) (h' : c.toNat < 0x7F) : isBlank c = false := by
  simp only [isBlank, blankRanges, List.any_cons, List.any_nil, Bool.or_false, Bool.or_eq_false_iff,
    Bool.and_eq_false_iff, decide_eq_false_iff_not]
  omega

/-- Letters and digits are not blank. -/
theorem isBlank_of_isAsciiAlphanumeric {c : CodePoint} (h : isAsciiAlphanumeric c = true) : isBlank c = false := by
  have hrange := toNat_of_isAsciiAlphanumeric h
  exact isBlank_of_visible (by omega) (by omega)

def trimStart (cs : List CodePoint) : List CodePoint := cs.dropWhile isBlank

def trimEnd (cs : List CodePoint) : List CodePoint := (cs.reverse.dropWhile isBlank).reverse

/-- The text between its outermost blanks. -/
def trim (cs : List CodePoint) : List CodePoint := trimEnd (trimStart cs)

theorem trimStart_cons {c : CodePoint} (h : isBlank c = false) (cs : List CodePoint) : trimStart (c :: cs) = c :: cs :=
  List.dropWhile_cons_of_neg (by simp [h])

/-- What stands up to a character that is not blank is not trimmed at the end. -/
theorem trimEnd_append_cons {c : CodePoint} (h : isBlank c = false) (cs ds : List CodePoint) :
    trimEnd (cs ++ c :: ds) = cs ++ c :: trimEnd ds := by
  have hreverse : (cs ++ c :: ds).reverse = ds.reverse ++ c :: cs.reverse := by simp
  rw [trimEnd, trimEnd, hreverse, List.dropWhile_append]
  split
  · rename_i hblank
    rw [List.isEmpty_iff.mp hblank, List.dropWhile_cons_of_neg (by simp [h])]
    simp
  · simp

theorem trimEnd_eq_self {cs : List CodePoint} (h : ∀ c ∈ cs.getLast?, isBlank c = false) : trimEnd cs = cs := by
  cases hlast : cs.getLast? with
  | none =>
    rw [List.getLast?_eq_none_iff.mp hlast]
    rfl
  | some c =>
    obtain ⟨ds, rfl⟩ := List.getLast?_eq_some_iff.mp hlast
    exact trimEnd_append_cons (h c hlast) ds []

/-- What ends in something without blanks is not trimmed at the end. -/
theorem trimEnd_append {cs ds : List CodePoint} (hne : ds ≠ []) (h : ∀ c ∈ ds, isBlank c = false) :
    trimEnd (cs ++ ds) = cs ++ ds := by
  refine trimEnd_eq_self fun c hc => ?_
  cases hlast : ds.getLast? with
  | none => exact absurd (List.getLast?_eq_none_iff.mp hlast) hne
  | some d =>
    rw [List.getLast?_append, hlast] at hc
    obtain rfl : d = c := Option.some_inj.mp hc
    exact h d (List.mem_of_getLast? hlast)

theorem trimEnd_prefix (cs : List CodePoint) : trimEnd cs <+: cs := by
  rw [← List.reverse_suffix, trimEnd, List.reverse_reverse]
  exact List.dropWhile_suffix _

end Ontogram.Text

/-
ASCII letters, digits and hexadecimal numbers.

* `isAsciiDigit`, `isAsciiLetter`, `isAsciiAlphanumeric` — the classes that names, tags and numbers are
  made of;
* `hexValues?`, `hex4` — reading hexadecimal digits of either case, and writing four of them.
-/
import Ontogram.Text.Basic
namespace Ontogram.Text

/-- The ASCII digits. -/
def isAsciiDigit (c : CodePoint) : Bool := '0' ≤ c && c ≤ '9'

def isAsciiLetter (c : CodePoint) : Bool := ('a' ≤ c && c ≤ 'z') || ('A' ≤ c && c ≤ 'Z')

def isAsciiAlphanumeric (c : CodePoint) : Bool := isAsciiDigit c || isAsciiLetter c

/-- The code points of letters and digits. -/
theorem toNat_of_isAsciiAlphanumeric {c : CodePoint} (h : isAsciiAlphanumeric c = true) :
    0x30 ≤ c.toNat ∧ c.toNat ≤ 0x39 ∨ 0x61 ≤ c.toNat ∧ c.toNat ≤ 0x7A ∨ 0x41 ≤ c.toNat ∧ c.toNat ≤ 0x5A := by
  simp only [isAsciiAlphanumeric, isAsciiDigit, isAsciiLetter, Bool.or_eq_true, Bool.and_eq_true,
    decide_eq_true_eq] at h
  exact h

theorem isAsciiDigit_of_mem_decimalDigits {n : Nat} {c : CodePoint} (h : c ∈ decimalDigits n) :
    isAsciiDigit c = true := by
  obtain ⟨d, hd, rfl⟩ := List.mem_map.mp h
  exact Nat.isDigit_of_mem_toDigits (by decide) (by decide) hd

/-- The value of a hexadecimal digit of either case. -/
def hexValue? (c : CodePoint) : Option Nat :=
  if '0' ≤ c ∧ c ≤ '9' then some (c.toNat - 48)
  else if 'a' ≤ c ∧ c ≤ 'f' then some (c.toNat - 87)
  else if 'A' ≤ c ∧ c ≤ 'F' then some (c.toNat - 55)
  else none

/-- The number that hexadecimal digits denote; `none` if one is no such digit. -/
def hexValues? (cs : List CodePoint) : Option Nat :=
  cs.foldl (fun n? c => n?.bind fun n => (hexValue? c).map (16 * n + ·)) (some 0)

/-- The lower-case hexadecimal digit of a number below sixteen. -/
def hexDigit (n : Nat) : CodePoint :=
  if n < 10 then CodePoint.ofNat (48 + n) else CodePoint.ofNat (87 + n)

/-- Four lower-case hexadecimal digits of a number below `2^16`. -/
def hex4 (n : Nat) : List CodePoint :=
  [hexDigit (n / 4096 % 16), hexDigit (n / 256 % 16), hexDigit (n / 16 % 16), hexDigit (n % 16)]

end Ontogram.Text

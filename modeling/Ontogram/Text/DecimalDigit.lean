/-
Decimal digits of every script (Unicode 14.0, general category Nd).

Each script writes its ten digits at ten consecutive code points, so the table holds the zeros:

* `digitValue?` — the value of a decimal digit, `none` for any other character;
* `digitsValue` — the number a run of digits denotes;
* `digitValue?_of_isAsciiDigit` — the ASCII digits are among them.
-/
import Ontogram.Text.Ascii
namespace Ontogram.Text

/-- The code points of the digits zero, ascending. -/
def digitZeros : List Nat :=
  [0x30, 0x660, 0x6F0, 0x7C0, 0x966, 0x9E6, 0xA66, 0xAE6, 0xB66, 0xBE6, 0xC66, 0xCE6, 0xD66, 0xDE6,
   0xE50, 0xED0, 0xF20, 0x1040, 0x1090, 0x17E0, 0x1810, 0x1946, 0x19D0, 0x1A80, 0x1A90, 0x1B50,
   0x1BB0, 0x1C40, 0x1C50, 0xA620, 0xA8D0, 0xA900, 0xA9D0, 0xA9F0, 0xAA50, 0xABF0, 0xFF10, 0x104A0,
   0x10D30, 0x11066, 0x110F0, 0x11136, 0x111D0, 0x112F0, 0x11450, 0x114D0, 0x11650, 0x116C0,
   0x11730, 0x118E0, 0x11950, 0x11C50, 0x11D50, 0x11DA0, 0x16A60, 0x16AC0, 0x16B50, 0x1D7CE,
   0x1D7D8, 0x1D7E2, 0x1D7EC, 0x1D7F6, 0x1E140, 0x1E2F0, 0x1E950, 0x1FBF0]

def digitValue? (c : CodePoint) : Option Nat :=
  (digitZeros.find? fun z => z ≤ c.toNat && c.toNat < z + 10).map (c.toNat - ·)

def isDecimalDigit (c : CodePoint) : Bool := (digitValue? c).isSome

theorem digitValue?_of_isAsciiDigit {c : CodePoint} (h : isAsciiDigit c = true) :
    digitValue? c = some (c.toNat - 0x30) := by
  have hrange : 0x30 ≤ c.toNat ∧ c.toNat < 0x30 + 10 := by
    simp only [isAsciiDigit, Bool.and_eq_true, decide_eq_true_eq, CodePoint.le_def] at h
    exact ⟨h.1, Nat.lt_succ_of_le h.2⟩
  rw [digitValue?, digitZeros, List.find?_cons_of_pos (by simpa using hrange)]
  rfl

theorem isDecimalDigit_of_isAsciiDigit {c : CodePoint} (h : isAsciiDigit c = true) : isDecimalDigit c = true := by
  rw [isDecimalDigit, digitValue?_of_isAsciiDigit h]
  rfl

/-- The number that a run of decimal digits denotes, most significant first. -/
def digitsValue (cs : List CodePoint) : Nat :=
  cs.foldl (fun n c => 10 * n + (digitValue? c).getD 0) 0

end Ontogram.Text

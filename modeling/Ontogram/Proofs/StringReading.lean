/-
Strings are read back from their escaped text.

A quoted string may be written with any character above the control characters as itself or in ASCII only.
Either way the reader takes one step for each character of the string. In ASCII the string must not have halves
of surrogate pairs: two of them, each in an escape of its own, are read as one character.

* `hexValues?_hex4` — four digits are read as the number they were made from;
* `readEscape_letter`, `readEscape_unicodeEscape` — an escape of either kind is read as its character;
* `readStringFrom_escapeChar` — so is a character as it is written;
* `readString_escape` — and a string up to its closing quote.
-/
import Ontogram.Json.Printer
import Ontogram.Json.Reader
import Mathlib.Tactic.SplitIfs
namespace Ontogram.Json

variable {rest : List CodePoint} {c : CodePoint}

/-! ### Escapes -/

theorem hexValue?_hexDigit : ∀ k < 16, Text.hexValue? (Text.hexDigit k) = some k := by decide

theorem hexValues?_hex4 {n : Nat} (hn : n < 0x10000) : Text.hexValues? (Text.hex4 n) = some n := by
  have hdigit : ∀ k, Text.hexValue? (Text.hexDigit (k % 16)) = some (k % 16) := by
    intro k
    exact hexValue?_hexDigit _ (Nat.mod_lt _ (by decide))
  simp only [Text.hexValues?, Text.hex4, List.foldl_cons, List.foldl_nil, hdigit, Option.map_some,
    Option.bind_some, Option.some.injEq]
  omega

/-- The letter of an escaped character is read as that character. -/
theorem readEscape_letter {letter : CodePoint} (h : escapeLetter? c = some letter) :
    readEscape (letter :: rest) = .ok (c, rest) := by
  unfold escapeLetter? at h
  split_ifs at h <;> subst_vars <;> cases h <;> rfl

/-- No character is half of a pair. -/
theorem isHighUnit_toNat (c : Char) : isHighUnit c.toNat = false := by
  have hvalid := CodePoint.toNat_char_lt_or c
  rw [isHighUnit, Bool.and_eq_false_iff, decide_eq_false_iff_not, decide_eq_false_iff_not]
  omega

/-- Four digits in front of some character are one unit. -/
theorem readEscape_hex4 {unit : Nat} (hunit : unit < 0x10000) (hhigh : isHighUnit unit = false)
    (next : CodePoint) :
    readEscape (.char 'u' :: (Text.hex4 unit ++ next :: rest)) = .ok (.ofNat unit, next :: rest) := by
  have hvalue := hexValues?_hex4 hunit
  unfold Text.hex4 at hvalue ⊢
  simp only [List.cons_append, List.nil_append, readEscape, hvalue, hhigh, Bool.false_eq_true, if_false]

/-- Where they are the first of two units, the second follows directly. -/
theorem readEscape_pair {unit low : Nat} (hhigh : isHighUnit unit = true) {cs rest' : List CodePoint}
    (hlow : lowUnit? cs = some (low, rest')) (hcs : cs ≠ []) :
    readEscape (.char 'u' :: (Text.hex4 unit ++ cs)) = .ok (ofUnits unit low, rest') := by
  have hlt : unit < 0x10000 := by
    rw [isHighUnit, Bool.and_eq_true, decide_eq_true_iff, decide_eq_true_iff] at hhigh
    omega
  have hvalue := hexValues?_hex4 hlt
  obtain ⟨next, r, rfl⟩ := List.exists_cons_of_ne_nil hcs
  unfold Text.hex4 at hvalue ⊢
  simp only [List.cons_append, List.nil_append, readEscape, hvalue, hhigh, if_true, hlow]

theorem lowUnit?_hex4 {unit : Nat} (hunit : isLowUnit unit = true) (next : CodePoint) :
    lowUnit? (.char '\\' :: .char 'u' :: (Text.hex4 unit ++ next :: rest)) = some (unit, next :: rest) := by
  have hlt : unit < 0x10000 := by
    rw [isLowUnit, Bool.and_eq_true, decide_eq_true_iff, decide_eq_true_iff] at hunit
    omega
  have hvalue := hexValues?_hex4 hlt
  unfold Text.hex4 at hvalue
  simp only [Text.hex4, List.cons_append, List.nil_append, lowUnit?, hvalue, hunit, if_true]

/-- A character written by its code is read, if another character follows. -/
theorem readEscape_unicodeEscape (c : Char) (next : CodePoint) (rest : List CodePoint) :
    ∃ text, unicodeEscape c = .char '\\' :: text ∧ readEscape (text ++ next :: rest) = .ok (.char c, next :: rest) := by
  unfold unicodeEscape
  by_cases hsmall : c.toNat < 0x10000
  · simp only [CodePoint.toNat_char, hsmall, if_true]
    refine ⟨_, rfl, ?_⟩
    rw [List.cons_append, readEscape_hex4 hsmall (isHighUnit_toNat c), ← CodePoint.toNat_char,
      CodePoint.ofNat_toNat]
  · simp only [CodePoint.toNat_char, hsmall, if_false]
    have hvalid : c.toNat < 0x110000 := (CodePoint.char c).toNat_lt
    have hhigh : isHighUnit (0xD800 + (c.toNat - 0x10000) / 0x400) = true := by
      rw [isHighUnit, Bool.and_eq_true, decide_eq_true_iff, decide_eq_true_iff]
      omega
    have hlow : isLowUnit (0xDC00 + (c.toNat - 0x10000) % 0x400) = true := by
      rw [isLowUnit, Bool.and_eq_true, decide_eq_true_iff, decide_eq_true_iff]
      omega
    have hcode : 0x10000 + (0xD800 + (c.toNat - 0x10000) / 0x400 - 0xD800) * 0x400 +
        (0xDC00 + (c.toNat - 0x10000) % 0x400 - 0xDC00) = c.toNat := by omega
    refine ⟨_, rfl, ?_⟩
    rw [List.cons_append, List.append_assoc, List.cons_append, List.cons_append,
      readEscape_pair hhigh (lowUnit?_hex4 hlow next) (List.cons_ne_nil _ _), ofUnits, hcode,
      ← CodePoint.toNat_char, CodePoint.ofNat_toNat]

/-! ### Strings -/

theorem ne_of_escapeLetter?_eq_none (h : escapeLetter? c = none) : c ≠ '"' ∧ c ≠ '\\' := by
  constructor <;> rintro rfl <;> cases h

/-- A code point is read in one step, however it is written. -/
theorem readStringFrom_escapeChar {ascii : Bool} (fuel : Nat) (seen : List CodePoint) {c : CodePoint}
    (hc : ascii = true → c.isChar = true) (next : CodePoint) (rest : List CodePoint) :
    readStringFrom (fuel + 1) seen (escapeChar ascii c ++ next :: rest) =
      readStringFrom fuel (c :: seen) (next :: rest) := by
  unfold escapeChar
  split
  · rename_i letter hletter
    simp [readStringFrom, readEscape_letter hletter]
  · rename_i hnone
    split
    · rename_i hescaped
      -- what is written by its code is a character
      obtain ⟨x, rfl⟩ : ∃ x, c = .char x := by
        rw [Bool.or_eq_true, Bool.and_eq_true, decide_eq_true_iff] at hescaped
        cases c with
        | char x => exact ⟨x, rfl⟩
        | half i =>
          rcases hescaped with hcontrol | ⟨hascii, -⟩
          · simp only [CodePoint.toNat] at hcontrol
            omega
          · cases hc hascii
      obtain ⟨text, htext, hread⟩ := readEscape_unicodeEscape x next rest
      simp [readStringFrom, htext, hread]
    · rename_i hplain
      obtain ⟨hquote, hbackslash⟩ := ne_of_escapeLetter?_eq_none hnone
      rw [Bool.or_eq_true, not_or, decide_eq_true_iff] at hplain
      rw [List.singleton_append, readStringFrom, if_neg hquote, if_neg hbackslash, if_neg hplain.1]

theorem escape_cons (ascii : Bool) (c : CodePoint) (cs : List CodePoint) :
    escape ascii (c :: cs) = escapeChar ascii c ++ escape ascii cs := List.flatMap_cons

theorem readStringFrom_escape {ascii : Bool} {cs : List CodePoint}
    (hcs : ascii = true → ∀ c ∈ cs, c.isChar = true) {fuel : Nat} (hfuel : cs.length < fuel)
    (seen : List CodePoint) :
    readStringFrom fuel seen (escape ascii cs ++ .char '"' :: rest) = .ok (seen.reverse ++ cs, rest) := by
  induction cs generalizing fuel seen with
  | nil =>
    obtain ⟨fuel, rfl⟩ : ∃ k, fuel = k + 1 := ⟨fuel - 1, by omega⟩
    simp [escape, readStringFrom]
  | cons c cs ih =>
    rw [List.length_cons] at hfuel
    obtain ⟨fuel, rfl⟩ : ∃ k, fuel = k + 1 := ⟨fuel - 1, by omega⟩
    obtain ⟨next, r, htail⟩ := List.exists_cons_of_ne_nil
      (List.append_ne_nil_of_right_ne_nil (escape ascii cs) (List.cons_ne_nil (.char '"') rest))
    rw [escape_cons, List.append_assoc, htail, readStringFrom_escapeChar _ _ (fun h => hcs h c List.mem_cons_self),
      ← htail, ih (fun h => (List.forall_mem_cons.mp (hcs h)).2) (by omega),
      List.reverse_cons, List.append_assoc, List.singleton_append]

theorem escapeChar_length_pos (ascii : Bool) (c : CodePoint) : 0 < (escapeChar ascii c).length := by
  unfold escapeChar unicodeEscape
  split
  · simp
  split
  · simp only
    split <;> simp
  · simp

theorem length_le_escape (ascii : Bool) (cs : List CodePoint) : cs.length ≤ (escape ascii cs).length := by
  induction cs with
  | nil => exact Nat.le_refl _
  | cons c cs ih =>
    have hc := escapeChar_length_pos ascii c
    rw [escape_cons, List.length_cons, List.length_append]
    omega

/-- A string is read up to its closing quote. -/
theorem readString_escape {ascii : Bool} {s : Text} (hs : ascii = true → ∀ c ∈ s.toList, c.isChar = true)
    {fuel : Nat} (hfuel : (escape ascii s.toList).length < fuel) :
    readString fuel (escape ascii s.toList ++ .char '"' :: rest) = .ok (s, rest) := by
  have hlength := length_le_escape ascii s.toList
  rw [readString, readStringFrom_escape hs (by omega)]
  simp [Except.map]

end Ontogram.Json

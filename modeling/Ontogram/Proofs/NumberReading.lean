/-
Numbers are read back from their text.

A number's text has a sign, a whole part, and perhaps a fraction and an exponent. The reader takes exactly
these parts off a text that goes on with nothing that could belong to them:

* `Numeral` — the parts, with their text (`Numeral.spell`) and what they denote (`Numeral.value`);
* `readNumber?_spell` — the text of a proper numeral is read as its value;
* `isNumeral_intText` — the text of a whole number is that of such a numeral;
* `isNumeral_double` — and so is the text of a floating-point number in either layout, as its digits and the
  place of the point make the decimal that denotes it.
-/
import Ontogram.Json.Printer
import Ontogram.Json.Reader
import Ontogram.Proofs.LineReading
import Ontogram.Proofs.ShortestDecimal
namespace Ontogram.Json

/-- Nothing at the start of the text could go on with a number before it. -/
def EndsNumber (cs : List CodePoint) : Prop :=
  ∀ c ∈ cs.head?, Text.isAsciiDigit c = false ∧ c ≠ '.' ∧ c ≠ 'e' ∧ c ≠ 'E'

variable {rest : List CodePoint}

/-! ### Digits -/

theorem asciiValue_map_char (ds : List Char) : asciiValue (ds.map .char) = Nat.ofDigitChars 10 ds 0 := by
  rw [asciiValue, List.foldl_map, Nat.ofDigitChars_eq_foldl]
  rfl

theorem asciiValue_decimalDigits (n : Nat) : asciiValue (Text.decimalDigits n) = n := by
  rw [Text.decimalDigits, asciiValue_map_char, Nat.ofDigitChars_ten_toDigits]

/-- A number has at most as many digits as are read and written iff it is below this bound. -/
theorem length_decimalDigits_le_iff {n : Nat} :
    (Text.decimalDigits n).length ≤ Text.digitLimit ↔ n < 10 ^ Text.digitLimit := by
  rw [Text.decimalDigits, List.length_map]
  exact Nat.length_toDigits_le_iff (by decide) (by decide)

theorem asciiValue_append_zeros (ds : List CodePoint) (k : Nat) :
    asciiValue (ds ++ List.replicate k (.char '0')) = asciiValue ds * Nat.pow 10 k := by
  induction k with
  | zero =>
    rw [List.replicate_zero, List.append_nil]
    exact (Nat.mul_one _).symm
  | succ k ih =>
    have hzero (n : Nat) : 10 * n + ((CodePoint.char '0').toNat - 48) = n * 10 := Nat.mul_comm 10 n
    rw [List.replicate_succ', ← List.append_assoc, asciiValue, List.foldl_append, ← asciiValue, ih,
      List.foldl_cons, List.foldl_nil, hzero, Nat.mul_assoc]
    rfl

theorem asciiValue_zeros_append (k : Nat) (ds : List CodePoint) :
    asciiValue (List.replicate k (.char '0') ++ ds) = asciiValue ds := by
  have hzeros := asciiValue_append_zeros [] k
  rw [List.nil_append] at hzeros
  rw [asciiValue, List.foldl_append, ← asciiValue, hzeros, asciiValue, List.foldl_nil, Nat.zero_mul]
  rfl

theorem isAsciiDigit_of_mem_zeros {k : Nat} {c : CodePoint} (h : c ∈ List.replicate k (.char '0')) :
    Text.isAsciiDigit c = true := by
  rw [List.eq_of_mem_replicate h]
  rfl

/-- Only the text of zero starts with a zero. -/
theorem decimalDigits_eq_cons {n : Nat} (hn : n ≠ 0) : ∃ c ds, Text.decimalDigits n = c :: ds ∧ c ≠ '0' := by
  unfold Text.decimalDigits
  induction n using Nat.strongRecOn with
  | ind n ih =>
    rcases Nat.lt_or_ge n 10 with hlt | hge
    · refine ⟨n.digitChar, [], by rw [Nat.toDigits_of_lt_base hlt]; rfl, ?_⟩
      rw [ne_eq, CodePoint.char.injEq, Nat.digitChar_eq_zero]
      exact hn
    · obtain ⟨c, ds, hds, hc⟩ := ih (n / 10) (by omega) (by omega)
      refine ⟨c, ds ++ [.char (n % 10).digitChar], ?_, hc⟩
      rw [Nat.toDigits_of_base_le (by decide) hge, List.map_append, hds, List.cons_append]
      rfl

theorem digits_append {ds : List CodePoint} (hds : ∀ c ∈ ds, Text.isAsciiDigit c = true)
    (hrest : ∀ c ∈ rest.head?, Text.isAsciiDigit c = false) : digits (ds ++ rest) = (ds, rest) := by
  unfold digits
  cases rest with
  | nil => rw [List.append_nil, List.span_eq_takeWhile_dropWhile, List.takeWhile_eq_self_iff.mpr hds,
      List.dropWhile_eq_nil_iff.mpr hds]
  | cons c r => exact NTriples.span_append hds (hrest c rfl) r

/-! ### The parts of a number -/

/-- The parts of a number's text. The exponent has a sign and digits. -/
structure Numeral where
  negative : Bool
  whole : List CodePoint
  fraction : List CodePoint
  exponent : Option (Bool × List CodePoint)

namespace Numeral

/-- The fraction with its point. -/
def fractionText : List CodePoint → List CodePoint
  | [] => []
  | ds => .char '.' :: ds

/-- The exponent with its mark and its sign. -/
def exponentText : Option (Bool × List CodePoint) → List CodePoint
  | none => []
  | some (negative, ds) => .char 'e' :: (if negative then '-' else '+') :: ds

def exponentValue : Option (Bool × List CodePoint) → Int
  | none => 0
  | some (negative, ds) => if negative then -(asciiValue ds : Int) else asciiValue ds

def spell (n : Numeral) : List CodePoint :=
  (if n.negative then [.char '-'] else []) ++ (n.whole ++ (fractionText n.fraction ++ exponentText n.exponent))

/-- Digits throughout, no leading zero, and no exponent without digits. -/
structure IsProper (n : Numeral) : Prop where
  whole : n.whole = [.char '0'] ∨
    ∃ c ds, n.whole = c :: ds ∧ c ≠ '0' ∧ ∀ d ∈ n.whole, Text.isAsciiDigit d = true
  fraction : ∀ d ∈ n.fraction, Text.isAsciiDigit d = true
  exponent : ∀ e ∈ n.exponent, e.2 ≠ [] ∧ ∀ d ∈ e.2, Text.isAsciiDigit d = true

/-- Whole without fraction and exponent, and floating-point with either. -/
def value (n : Numeral) : Json :=
  if n.fraction.isEmpty && n.exponent.isNone then
    .int (if n.negative then -(asciiValue n.whole : Int) else asciiValue n.whole)
  else
    .double (.ofDecimal n.negative
      ⟨asciiValue (n.whole ++ n.fraction), exponentValue n.exponent - n.fraction.length⟩)

variable {n : Numeral}

/-- A whole part starts with a digit. -/
theorem IsProper.whole_eq_cons (h : n.IsProper) :
    ∃ c ds, n.whole = c :: ds ∧ Text.isAsciiDigit c = true := by
  rcases h.whole with hzero | ⟨c, ds, hwhole, -, hdigits⟩
  · exact ⟨'0', [], hzero, rfl⟩
  · exact ⟨c, ds, hwhole, hdigits c (by rw [hwhole]; exact List.mem_cons_self)⟩

theorem wholePart?_whole (h : n.IsProper) (hrest : ∀ c ∈ rest.head?, Text.isAsciiDigit c = false) :
    wholePart? (n.whole ++ rest) = some (n.whole, rest) := by
  rcases h.whole with hzero | ⟨c, ds, hwhole, hc, hdigits⟩
  · rw [hzero]
    rfl
  · rw [hwhole] at hdigits ⊢
    have hds := digits_append (fun d hd => hdigits d (List.mem_cons_of_mem _ hd)) hrest
    rw [List.cons_append, wholePart?, if_neg hc, if_pos (hdigits c List.mem_cons_self), hds]

/-- What starts neither with a digit nor with a point leaves the fraction empty. -/
theorem fractionPart?_fractionText {ds : List CodePoint} (hds : ∀ d ∈ ds, Text.isAsciiDigit d = true)
    (hrest : ∀ c ∈ rest.head?, Text.isAsciiDigit c = false ∧ c ≠ '.') :
    (fractionPart? (fractionText ds ++ rest)).getD ([], fractionText ds ++ rest) = (ds, rest) := by
  cases ds with
  | nil =>
    have hnone : fractionPart? rest = none := by
      unfold fractionPart?
      split
      · exact absurd rfl (hrest '.' rfl).2
      · rfl
    rw [fractionText, List.nil_append, hnone]
    rfl
  | cons d ds =>
    have hdigits := digits_append hds fun c hc => (hrest c hc).1
    rw [fractionText, List.cons_append, fractionPart?, hdigits]
    · rfl
    · simp

theorem exponentPart?_of_ends (h : EndsNumber rest) : exponentPart? rest = none := by
  cases rest with
  | nil => rfl
  | cons c r =>
    obtain ⟨-, -, he, hE⟩ := h c rfl
    simp [exponentPart?, he, hE]

theorem exponentPart?_exponentText {negative : Bool} {ds : List CodePoint} (hne : ds ≠ [])
    (hds : ∀ d ∈ ds, Text.isAsciiDigit d = true) (h : EndsNumber rest) :
    exponentPart? (exponentText (some (negative, ds)) ++ rest) =
      some (exponentValue (some (negative, ds)), rest) := by
  have hdigits := digits_append hds fun c hc => (h c hc).1
  have hnonempty : ds.isEmpty = false := by simpa using hne
  cases negative <;>
    simp [exponentText, exponentPart?, exponentValue, hdigits, hnonempty]

/-- A numeral starts with a digit, after its sign. -/
theorem spell_eq_cons (h : n.IsProper) :
    ∃ c cs, n.spell = (if n.negative then [.char '-'] else []) ++ c :: cs ∧ Text.isAsciiDigit c = true := by
  obtain ⟨c, ds, hwhole, hc⟩ := h.whole_eq_cons
  refine ⟨c, ds ++ (fractionText n.fraction ++ exponentText n.exponent), ?_, hc⟩
  rw [spell, hwhole, List.cons_append]

/-- The text of a proper numeral is read as its value. -/
theorem readNumber?_spell (h : n.IsProper) (hrest : EndsNumber rest) :
    readNumber? (n.spell ++ rest) = some (n.value, rest) := by
  have hexponent : ∀ c ∈ (exponentText n.exponent ++ rest).head?,
      Text.isAsciiDigit c = false ∧ c ≠ '.' := by
    intro c hc
    cases hn : n.exponent with
    | none =>
      rw [hn, exponentText, List.nil_append] at hc
      exact ⟨(hrest c hc).1, (hrest c hc).2.1⟩
    | some e =>
      rw [hn, exponentText] at hc
      cases hc
      exact ⟨rfl, by decide⟩
  have hfraction : ∀ c ∈ (fractionText n.fraction ++ (exponentText n.exponent ++ rest)).head?,
      Text.isAsciiDigit c = false := by
    intro c hc
    cases hn : n.fraction with
    | nil =>
      rw [hn, fractionText, List.nil_append] at hc
      exact (hexponent c hc).1
    | cons d ds =>
      simp only [hn, fractionText, List.cons_append, List.head?_cons, Option.mem_some_iff] at hc
      rw [← hc]
      rfl
  have hpart := wholePart?_whole h hfraction
  have hafter := fractionPart?_fractionText h.fraction hexponent
  -- without a sign of its own, the text of a number starts with a digit
  have hdash : ∀ r, n.whole ++ (fractionText n.fraction ++ (exponentText n.exponent ++ rest)) =
      .char '-' :: r → False := by
    intro r hr
    obtain ⟨c, ds, hwhole, hc⟩ := h.whole_eq_cons
    rw [hwhole] at hr
    cases hr
    cases hc
  unfold readNumber? spell value
  simp only [List.append_assoc]
  cases hn : n.exponent with
  | none =>
    rw [hn, exponentText, List.nil_append] at hpart hafter hdash
    cases hnegative : n.negative <;>
      simp [hpart, hafter, exponentText, exponentPart?_of_ends hrest, exponentValue] <;>
      split <;> rfl
  | some e =>
    obtain ⟨hne, hds⟩ := h.exponent _ hn
    rw [hn] at hpart hafter hdash
    cases hnegative : n.negative <;>
      simp [hpart, hafter, exponentPart?_exponentText hne hds hrest]

/-! ### Whole numbers -/

/-- The numeral of a natural number with a sign. -/
def ofNat (negative : Bool) (k : Nat) : Numeral := ⟨negative, Text.decimalDigits k, [], none⟩

theorem isProper_ofNat (negative : Bool) (k : Nat) : (ofNat negative k).IsProper where
  whole := by
    rcases Nat.eq_zero_or_pos k with rfl | hk
    · exact .inl rfl
    · obtain ⟨c, ds, hds, hc⟩ := decimalDigits_eq_cons (Nat.pos_iff_ne_zero.mp hk)
      exact .inr ⟨c, ds, hds, hc, fun d hd => Text.isAsciiDigit_of_mem_decimalDigits hd⟩
  fraction := by
    intro d hd
    cases hd
  exponent := by
    intro e he
    cases he

theorem spell_ofNat (negative : Bool) (k : Nat) :
    (ofNat negative k).spell = (if negative then [.char '-'] else []) ++ Text.decimalDigits k := by
  rw [spell, ← List.append_assoc]
  exact List.append_nil _

theorem value_ofNat (negative : Bool) (k : Nat) :
    (ofNat negative k).value = .int (if negative then -(k : Int) else k) := by
  simp [value, ofNat, asciiValue_decimalDigits]

end Numeral

/-- The text is that of a numeral with the value. -/
def IsNumeral (text : List CodePoint) (v : Json) : Prop :=
  ∃ n : Numeral, n.IsProper ∧ n.spell = text ∧ n.value = v

/-- Whole numbers are written as numerals. -/
theorem isNumeral_intText (n : Int) : IsNumeral (intText n) (.int n) := by
  cases n with
  | ofNat k =>
    exact ⟨_, Numeral.isProper_ofNat false k, Numeral.spell_ofNat false k, Numeral.value_ofNat false k⟩
  | negSucc k =>
    exact ⟨_, Numeral.isProper_ofNat true (k + 1), Numeral.spell_ofNat true (k + 1),
      Numeral.value_ofNat true (k + 1)⟩

/-! ### Floating-point numbers -/

namespace Numeral

/-- The numeral of digits with the point after `point` of them, in the layout for that place. -/
def ofLayout (negative : Bool) (ds : List CodePoint) (point : Int) : Numeral :=
  if -4 < point ∧ point ≤ 16 then
    if point ≤ 0 then ⟨negative, [.char '0'], List.replicate (-point).toNat (.char '0') ++ ds, none⟩
    else if ds.length ≤ point.toNat then
      ⟨negative, ds ++ List.replicate (point.toNat - ds.length) (.char '0'), [.char '0'], none⟩
    else ⟨negative, ds.take point.toNat, ds.drop point.toNat, none⟩
  else
    let powerDigits := Text.decimalDigits (point - 1).natAbs
    ⟨negative, ds.take 1, ds.drop 1,
      some (point - 1 < 0, List.replicate (2 - powerDigits.length) (.char '0') ++ powerDigits)⟩

variable {negative : Bool} {point : Int}

theorem fractionText_of_ne_nil {ds : List CodePoint} (h : ds ≠ []) : fractionText ds = .char '.' :: ds := by
  cases ds with
  | nil => exact absurd rfl h
  | cons d ds => rfl

theorem spell_ofLayout {ds : List CodePoint} (hds : ds ≠ []) :
    (ofLayout negative ds point).spell =
      (if negative then [.char '-'] else []) ++ Double.layout ds point := by
  unfold ofLayout Double.layout
  split
  · split
    · have hne : List.replicate (-point).toNat (.char '0') ++ ds ≠ [] := by simp [hds]
      simp [spell, fractionText_of_ne_nil hne, exponentText]
    split
    · simp [spell, fractionText, exponentText]
    · rename_i hlength
      have hne : ds.drop point.toNat ≠ [] := by
        rw [ne_eq, List.drop_eq_nil_iff]
        exact hlength
      simp [spell, fractionText_of_ne_nil hne, exponentText]
  · cases hdrop : ds.drop 1 <;>
      simp [spell, exponentText, fractionText]

theorem isProper_ofLayout (negative : Bool) (point : Int) {k : Nat} (hk : k ≠ 0) :
    (ofLayout negative (Text.decimalDigits k) point).IsProper := by
  obtain ⟨c, ds, hds, hc⟩ := decimalDigits_eq_cons hk
  have hdigits : ∀ d ∈ c :: ds, Text.isAsciiDigit d = true := by
    intro d hd
    rw [← hds] at hd
    exact Text.isAsciiDigit_of_mem_decimalDigits hd
  have htake : ∀ m, ∀ d ∈ (c :: ds).take m, Text.isAsciiDigit d = true :=
    fun _ d hd => hdigits d (List.mem_of_mem_take hd)
  have hdrop : ∀ m, ∀ d ∈ (c :: ds).drop m, Text.isAsciiDigit d = true :=
    fun _ d hd => hdigits d (List.mem_of_mem_drop hd)
  have hzeros : ∀ m, ∀ d ∈ List.replicate m (.char '0'), Text.isAsciiDigit d = true :=
    fun _ _ => isAsciiDigit_of_mem_zeros
  rw [hds]
  unfold ofLayout
  split
  · split
    · exact ⟨.inl rfl, List.forall_mem_append.mpr ⟨hzeros _, hdigits⟩, by simp⟩
    split
    · exact ⟨.inr ⟨c, _, rfl, hc, List.forall_mem_append.mpr ⟨hdigits, hzeros _⟩⟩, hzeros 1, by simp⟩
    · rename_i hpoint hlength
      obtain ⟨m, hm⟩ : ∃ m, point.toNat = m + 1 := ⟨point.toNat - 1, by omega⟩
      rw [hm]
      exact ⟨.inr ⟨c, _, rfl, hc, htake _⟩, hdrop _, by simp⟩
  · refine ⟨.inr ⟨c, [], rfl, hc, htake 1⟩, hdrop 1, ?_⟩
    intro e he
    rw [Option.mem_some_iff] at he
    rw [← he]
    refine ⟨List.append_ne_nil_of_right_ne_nil _ Text.decimalDigits_ne_nil, ?_⟩
    exact List.forall_mem_append.mpr ⟨hzeros _, fun _ => Text.isAsciiDigit_of_mem_decimalDigits⟩

theorem ofDecimal_mul_pow (n : Nat) (e : Int) (m : Nat) :
    Double.ofDecimal negative ⟨n * Nat.pow 10 m, e⟩ = .ofDecimal negative ⟨n, e + m⟩ := by
  unfold Double.ofDecimal
  rw [Magnitude.ofDecimal?_mul_pow]

theorem value_ofLayout (negative : Bool) (d : Decimal) :
    (ofLayout negative (Text.decimalDigits d.digits)
      (d.exponent + (Text.decimalDigits d.digits).length)).value = .double (.ofDecimal negative d) := by
  obtain ⟨k, e⟩ := d
  simp only
  have hdigits := asciiValue_decimalDigits k
  have hne : Text.decimalDigits k ≠ [] := Text.decimalDigits_ne_nil
  generalize Text.decimalDigits k = ds at hdigits hne ⊢
  unfold ofLayout
  split
  · split
    · rename_i hpoint
      have hempty : (List.replicate (-(e + ds.length)).toNat (CodePoint.char '0') ++ ds).isEmpty = false := by
        simp [hne]
      have hvalue := asciiValue_zeros_append ((-(e + ds.length)).toNat + 1) ds
      have hexponent : 0 - ((-(e + ds.length)).toNat + ds.length : Nat) = e := by omega
      rw [List.replicate_succ, List.cons_append, hdigits] at hvalue
      rw [value, hempty, Bool.false_and, if_neg Bool.false_ne_true, exponentValue, List.length_append,
        List.length_replicate, hexponent, List.singleton_append, hvalue]
    split
    · rename_i hpoint hlength
      have hvalue := asciiValue_append_zeros ds ((e + ds.length).toNat - ds.length + 1)
      have hexponent : 0 - ((1 : Nat) : Int) + ((e + ds.length).toNat - ds.length + 1 : Nat) = e := by
        omega
      rw [hdigits, List.replicate_succ', ← List.append_assoc] at hvalue
      rw [value, List.isEmpty_cons, Bool.false_and, if_neg Bool.false_ne_true, hvalue, exponentValue,
        List.length_singleton, ofDecimal_mul_pow, hexponent]
    · rename_i hpoint hlength
      have hempty : (ds.drop (e + ds.length).toNat).isEmpty = false := by simpa using hlength
      have hexponent : 0 - ((ds.length - (e + ds.length).toNat : Nat) : Int) = e := by omega
      rw [value, hempty, Bool.false_and, if_neg Bool.false_ne_true, List.take_append_drop, hdigits,
        exponentValue, List.length_drop, hexponent]
  · have hpositive : 0 < ds.length := List.length_pos_of_ne_nil hne
    have hpower := asciiValue_zeros_append (2 - (Text.decimalDigits (e + ds.length - 1).natAbs).length)
      (Text.decimalDigits (e + ds.length - 1).natAbs)
    rw [asciiValue_decimalDigits] at hpower
    have hexponent : exponentValue (some (decide (e + ds.length - 1 < 0),
        List.replicate (2 - (Text.decimalDigits (e + ds.length - 1).natAbs).length) (CodePoint.char '0') ++
          Text.decimalDigits (e + ds.length - 1).natAbs)) - ((ds.length - 1 : Nat) : Int) = e := by
      rw [exponentValue, hpower]
      split <;> rename_i hsign <;> rw [decide_eq_true_iff] at hsign <;> omega
    simp only [value, Option.isNone_some, Bool.and_false, Bool.false_eq_true, if_false,
      List.take_append_drop, hdigits, List.length_drop, hexponent]

/-- The numeral of a floating-point zero. -/
def ofZero (negative : Bool) : Numeral := ⟨negative, [.char '0'], [.char '0'], none⟩

theorem isProper_ofZero (negative : Bool) : (ofZero negative).IsProper := by
  refine ⟨.inl rfl, ?_, by simp [ofZero]⟩
  intro d hd
  rw [List.mem_singleton.mp hd]
  rfl

theorem value_ofZero (negative : Bool) :
    (ofZero negative).value = .double (.finite negative .zero) := by
  have hvalue : (ofZero negative).value = .double (.ofDecimal negative ⟨0, -1⟩) := rfl
  rw [hvalue, Double.ofDecimal, Magnitude.ofDecimal?_zero]

end Numeral

/-- Finite floating-point numbers are written as numerals. -/
theorem isNumeral_double (negative : Bool) (x : Magnitude) :
    IsNumeral ((Double.finite negative x).text specialNames) (.double (.finite negative x)) := by
  unfold Double.text
  by_cases hzero : x.significand = 0
  · refine ⟨_, Numeral.isProper_ofZero negative, ?_, ?_⟩
    · simp only [if_pos hzero]
      rfl
    · rw [Numeral.value_ofZero, Magnitude.eq_zero_of_significand hzero]
  · have hdigits := Magnitude.digits_shortest_ne_zero hzero
    have hdenotes : Double.ofDecimal negative x.shortest = .finite negative x := by
      rw [Double.ofDecimal, Magnitude.ofDecimal?_shortest hzero]
    simp only [if_neg hzero]
    generalize x.shortest = d at hdigits hdenotes ⊢
    refine ⟨Numeral.ofLayout negative (Text.decimalDigits d.digits) (d.exponent +
      (Text.decimalDigits d.digits).length), Numeral.isProper_ofLayout _ _ hdigits,
      Numeral.spell_ofLayout Text.decimalDigits_ne_nil, ?_⟩
    rw [Numeral.value_ofLayout, hdenotes]

end Ontogram.Json

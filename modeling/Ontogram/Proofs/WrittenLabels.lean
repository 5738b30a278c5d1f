/-
Labels, written and read back.

A label is written as its name, with its marker in parentheses behind it. A label that is read is proper: its name
has a local part, an upper bound stands beside a lower one only, and places in a primary key count from one. All
proper labels are read, each from what is written for it:

* `Label.text` — how a label is written;
* `Name.split_eq_some_iff` — the texts of names, and their parts;
* `Cardinality.parse_text`, `Marker.parse_text` — what stands in the parentheses is read back;
* `Label.read_text_append_iff` — a label is read back if its numbers are not too long, a marked one with blanks before
  it and any text behind it;
* `Label.isProper_of_read` — the labels that are read are proper;
* `written_label_comes_back_iff` — these together;
* `long_bound_is_not_read` — a bound with a digit too many.
-/
import Ontogram.Label
import Ontogram.Proofs.NameExpansion
import Ontogram.Proofs.NumberReading
namespace Ontogram

open Json (decimalDigits_eq_cons)
open Text (isAsciiDigit_of_mem_decimalDigits)
open NTriples (forall_mem_of_any_eq_false span_append span_append_of_head? span_eq)

/-! ### Numbers -/

namespace Text

theorem isDecimalDigit_of_mem_decimalDigits {n : Nat} {c : CodePoint} (h : c ∈ decimalDigits n) :
    isDecimalDigit c = true :=
  isDecimalDigit_of_isAsciiDigit (isAsciiDigit_of_mem_decimalDigits h)

theorem digitsValue_decimalDigits (n : Nat) : digitsValue (decimalDigits n) = n := by
  calc digitsValue (decimalDigits n)
      = Nat.ofDigitChars 10 (Nat.toDigits 10 n) 0 := by
        rw [digitsValue, decimalDigits, List.foldl_map, Nat.ofDigitChars_eq_foldl]
        refine List.foldl_ext _ _ _ fun k c hc => ?_
        rw [digitValue?_of_isAsciiDigit (isAsciiDigit_of_mem_decimalDigits (List.mem_map_of_mem hc))]
        rfl
    _ = n := Nat.ofDigitChars_ten_toDigits

theorem digitValue?_lt {c : CodePoint} {n : Nat} (h : digitValue? c = some n) : n < 10 := by
  obtain ⟨z, hz, rfl⟩ := Option.map_eq_some_iff.mp h
  have hrange := List.find?_some hz
  rw [Bool.and_eq_true, decide_eq_true_eq, decide_eq_true_eq] at hrange
  omega

/-- A run of digits denotes a number with at most as many. -/
theorem digitsValue_lt (cs : List CodePoint) : digitsValue cs < 10 ^ cs.length := by
  induction cs using List.reverseRecOn with
  | nil => decide
  | append_singleton cs c ih =>
    have hdigit : (digitValue? c).getD 0 < 10 := by
      cases hc : digitValue? c with
      | none => decide
      | some n => exact digitValue?_lt hc
    have hvalue : digitsValue (cs ++ [c]) = 10 * digitsValue cs + (digitValue? c).getD 0 := by
      rw [digitsValue, List.foldl_append]
      rfl
    rw [hvalue, List.length_append, List.length_singleton, Nat.pow_succ]
    omega

/-- A number is not less than what its first digits denote. -/
theorem le_foldl_digits (cs : List CodePoint) (n : Nat) :
    n ≤ cs.foldl (fun n c => 10 * n + (digitValue? c).getD 0) n := by
  induction cs generalizing n with
  | nil => exact Nat.le_refl n
  | cons c cs ih =>
    rw [List.foldl_cons]
    exact Nat.le_trans (by omega) (ih _)

theorem digitsValue_pos {d : CodePoint} (h : '1' ≤ d) (h' : d ≤ '9') (cs : List CodePoint) :
    0 < digitsValue (d :: cs) := by
  have hrange : 0x31 ≤ d.toNat ∧ d.toNat ≤ 0x39 := ⟨h, h'⟩
  have hdigit : isAsciiDigit d = true := by
    rw [isAsciiDigit, Bool.and_eq_true, decide_eq_true_eq, decide_eq_true_eq]
    exact ⟨Nat.le_trans (by decide) h, h'⟩
  have hvalue : digitsValue (d :: cs) = cs.foldl _ (10 * 0 + (digitValue? d).getD 0) := rfl
  rw [hvalue, digitValue?_of_isAsciiDigit hdigit]
  refine Nat.lt_of_lt_of_le ?_ (le_foldl_digits cs _)
  rw [Option.getD_some]
  omega

/-- The text of a number other than zero starts with a digit other than zero. -/
theorem exists_decimalDigits_eq_cons {n : Nat} (h : 0 < n) :
    ∃ d ds, decimalDigits n = d :: ds ∧ '1' ≤ d ∧ d ≤ '9' := by
  obtain ⟨d, ds, hdigits, hd⟩ := decimalDigits_eq_cons (Nat.pos_iff_ne_zero.mp h)
  have hdigit := isAsciiDigit_of_mem_decimalDigits (hdigits ▸ List.mem_cons_self : d ∈ decimalDigits n)
  rw [isAsciiDigit, Bool.and_eq_true, decide_eq_true_eq, decide_eq_true_eq] at hdigit
  have hne : d.toNat ≠ 0x30 := fun heq => hd (CodePoint.toNat_inj.mp heq)
  have hge : 0x30 ≤ d.toNat := hdigit.1
  exact ⟨d, ds, hdigits, (by omega : 0x31 ≤ d.toNat), hdigit.2⟩

end Text

/-! ### Names -/

namespace Name

/-- A text over the name characters. -/
def IsNameText (s : Text) : Prop := ∀ c ∈ s.toList, isNameChar c = true

instance : DecidablePred IsNameText := fun s => decidable_of_iff (s.toList.all isNameChar = true) List.all_eq_true

/-- A name as it is written: a label and a colon, unless there is no label, and the local part. -/
def spell (own : Option Text) (localPart : Text) : Text :=
  own.elim ("" : Text) (· ++ ":") ++ localPart

theorem not_isBlank_of_isNameChar {c : CodePoint} (h : isNameChar c = true) : Text.isBlank c = false := by
  simp only [isNameChar, Bool.or_eq_true, beq_iff_eq] at h
  rcases h with ((h | rfl) | rfl) | rfl
  · exact Text.isBlank_of_isAsciiAlphanumeric h
  all_goals decide

theorem IsNameText.notMem {s : Text} (h : IsNameText s) {c : CodePoint} (hc : isNameChar c = false) : c ∉ s.toList :=
  fun hmem => Bool.false_ne_true (hc.symm.trans (h c hmem))

variable {own : Option Text} {r : Text}

/-- The characters of a name are name characters and the colon. -/
theorem mem_spell (hown : ∀ l ∈ own, IsNameText l) (hr : IsNameText r) {c : CodePoint} (hc : c ∈ (spell own r).toList) :
    isNameChar c = true ∨ c = ':' := by
  cases own with
  | none => exact .inl (hr c (by simpa [spell] using hc))
  | some l =>
    rw [spell, Option.elim_some, Text.toList_append, Text.toList_append, List.append_assoc] at hc
    rcases List.mem_append.mp hc with hl | hrest
    · exact .inl (hown l rfl c hl)
    · rcases List.mem_cons.mp hrest with rfl | hrest
      · exact .inr rfl
      · exact .inl (hr c hrest)

theorem getLast?_spell (hown : ∀ l ∈ own, IsNameText l) (hr : IsNameText r) :
    (spell own r).toList.getLast? ≠ some (.char '\n') := by
  intro hlast
  rcases mem_spell hown hr (List.mem_of_getLast? hlast) with h | h <;> cases h

theorem cut_spell (hown : ∀ l ∈ own, IsNameText l) (hr : IsNameText r) :
    cut (spell own r).toList = (own.map Text.toList, r.toList) := by
  cases own with
  | none => rw [spell, Option.elim_none, Text.empty_append, cut_of_notMem (hr.notMem (by decide)), Option.map_none]
  | some l =>
    have hspell : (spell (some l) r).toList = l.toList ++ .char ':' :: r.toList := by simp [spell]
    rw [hspell, cut_append ((hown l rfl).notMem (by decide)), Option.map_some]

/-- What is split is the text without a line feed at its end: a name, taken apart at its colon. -/
theorem split_eq_some_iff_dropFinalBreak {s : Text} :
    split s = some (own, r) ↔
      (∀ l ∈ own, IsNameText l) ∧ IsNameText r ∧ Text.dropFinalBreak s.toList = (spell own r).toList := by
  rw [split]
  constructor
  · intro h
    simp only [Option.ite_none_right_eq_some, Bool.and_eq_true, Option.some.injEq, Prod.mk.injEq] at h
    obtain ⟨⟨hlabel, hlocal⟩, rfl, rfl⟩ := h
    rw [List.all_eq_true] at hlocal
    refine ⟨?_, by rwa [IsNameText, Text.toList_ofList], ?_⟩
    · rintro l hl
      obtain ⟨before, hbefore, rfl⟩ := Option.map_eq_some_iff.mp hl
      rw [hbefore, Option.all_some, List.all_eq_true] at hlabel
      rwa [IsNameText, Text.toList_ofList]
    · by_cases hcolon : .char ':' ∈ Text.dropFinalBreak s.toList
      · obtain ⟨before, after, hs, hbefore⟩ := List.eq_append_cons_of_mem hcolon
        rw [hs, cut_append hbefore]
        simp [spell]
      · rw [cut_of_notMem hcolon]
        simp [spell]
  · rintro ⟨hown, hr, hs⟩
    have hlabel : (own.map Text.toList).all (·.all isNameChar) = true := by
      cases own with
      | none => rfl
      | some l => exact List.all_eq_true.mpr (hown l rfl)
    have hback : Text.ofList ∘ Text.toList = id := rfl
    rw [hs, cut_spell hown hr]
    simp [hlabel, List.all_eq_true.mpr hr, hback]

theorem split_spell (hown : ∀ l ∈ own, IsNameText l) (hr : IsNameText r) : split (spell own r) = some (own, r) :=
  split_eq_some_iff_dropFinalBreak.mpr ⟨hown, hr, Text.dropFinalBreak_eq_self (getLast?_spell hown hr)⟩

/-- The names are the texts with name characters around a colon, or without one. -/
theorem split_eq_some_iff {s : Text} (hlast : s.toList.getLast? ≠ some (.char '\n')) :
    split s = some (own, r) ↔ (∀ l ∈ own, IsNameText l) ∧ IsNameText r ∧ s = spell own r := by
  rw [split_eq_some_iff_dropFinalBreak, Text.dropFinalBreak_eq_self hlast, Text.toList_inj]

end Name

/-! ### Markers -/

/-- A class of characters without parentheses. -/
theorem Label.not_isParenthesis_of {p : CodePoint → Bool} (hopen : p '(' = false) (hclose : p ')' = false)
    {c : CodePoint} (h : p c = true) : isParenthesis c = false := by
  by_contra hparenthesis
  simp only [isParenthesis, Bool.not_eq_false, Bool.or_eq_true, beq_iff_eq] at hparenthesis
  rcases hparenthesis with rfl | rfl
  · rw [hopen] at h
    cases h
  · rw [hclose] at h
    cases h

/-! ### Cardinalities -/

/-- The upper bound of a cardinality as it is written, `n` for none. -/
def Cardinality.maxText (max : Option Nat) : List CodePoint := max.elim [.char 'n'] Text.decimalDigits

/-- A place in the primary key as it is written. -/
def Cardinality.keyText (key : Option Nat) : List CodePoint :=
  key.elim [] fun k => .char ' ' :: .char 'P' :: .char 'K' :: Text.decimalDigits k

/-- A cardinality as it is written: nothing for a lower bound that is absent. -/
def Cardinality.text (c : Cardinality) : List CodePoint :=
  c.min.elim [] Text.decimalDigits ++ .char '.' :: .char '.' :: (maxText c.max ++ keyText c.key)

/-- The numerals of a cardinality as it is written. -/
def Cardinality.numerals (c : Cardinality) : Numerals :=
  ⟨c.min.map Text.decimalDigits, c.max.map Text.decimalDigits, c.key.map Text.decimalDigits⟩

/-- An upper bound stands beside a lower one only, and places in a primary key count from one. -/
structure Cardinality.IsProper (c : Cardinality) : Prop where
  max : c.min = none → c.max = none
  key : ∀ k ∈ c.key, 0 < k

namespace Numerals

open Cardinality (maxText keyText)

theorem parseKey_keyText {key : Option Nat} (h : ∀ k ∈ key, 0 < k) :
    parseKey (keyText key) = some (key.map Text.decimalDigits) := by
  cases key with
  | none => rfl
  | some k =>
    obtain ⟨d, ds, hdigits, hd, hd'⟩ := Text.exists_decimalDigits_eq_cons (h k rfl)
    have hrest : ds.all Text.isDecimalDigit = true :=
      List.all_eq_true.mpr fun c hc => Text.isDecimalDigit_of_mem_decimalDigits (hdigits ▸ List.mem_cons_of_mem d hc)
    have htext : keyText (some k) = .char ' ' :: .char 'P' :: .char 'K' :: d :: ds := by rw [← hdigits]; rfl
    have hblank : Text.isBlank ' ' = true := by decide
    have hletter : Text.isBlank 'P' = false := by decide
    rw [htext]
    simp [parseKey, hblank, hletter, hd, hd', hrest, hdigits]

/-- What follows an upper bound is not a digit. -/
theorem head?_keyText {key : Option Nat} {c : CodePoint} (h : c ∈ (keyText key).head?) : c = ' ' := by
  cases key with
  | none => cases h
  | some k => exact (Option.some_inj.mp h).symm

theorem parseMax_maxText (max key : Option Nat) :
    parseMax (maxText max ++ keyText key) = some (max.map Text.decimalDigits, keyText key) := by
  cases max with
  | none => rfl
  | some m =>
    have hspan : (Text.decimalDigits m ++ keyText key).span Text.isDecimalDigit =
        (Text.decimalDigits m, keyText key) := by
      refine span_append_of_head? (fun c hc => Text.isDecimalDigit_of_mem_decimalDigits hc) fun c hc => ?_
      rw [head?_keyText hc]
      decide
    show parseMax (Text.decimalDigits m ++ keyText key) = _
    unfold parseMax
    split
    · -- no digit is the letter that stands for no bound
      rename_i rest hn
      cases hdigits : Text.decimalDigits m with
      | nil => exact absurd hdigits Text.decimalDigits_ne_nil
      | cons d ds =>
        rw [hdigits, List.cons_append] at hn
        have hdigit := isAsciiDigit_of_mem_decimalDigits (hdigits ▸ List.mem_cons_self : d ∈ Text.decimalDigits m)
        rw [(List.cons.inj hn).1] at hdigit
        cases hdigit
    · rw [hspan]
      simp [Text.decimalDigits_ne_nil]

theorem isDecimalDigit_of_mem_min {min : Option Nat} {c : CodePoint} (h : c ∈ min.elim [] Text.decimalDigits) :
    Text.isDecimalDigit c = true := by
  cases min with
  | none => cases h
  | some m => exact Text.isDecimalDigit_of_mem_decimalDigits h

theorem parse_text {c : Cardinality} (h : c.IsProper) : parse c.text = some c.numerals := by
  obtain ⟨min, max, key⟩ := c
  have hkey := parseKey_keyText h.key
  have hspan : (Cardinality.text ⟨min, max, key⟩).span Text.isDecimalDigit =
      (min.elim [] Text.decimalDigits, .char '.' :: .char '.' :: (maxText max ++ keyText key)) :=
    span_append (fun c hc => isDecimalDigit_of_mem_min hc) (by decide) _
  rw [parse, hspan]
  cases min with
  | none =>
    obtain rfl : max = none := h.max rfl
    simp [parseMax_maxText, hkey, Cardinality.numerals]
  | some m => simp [parseMax_maxText, hkey, Cardinality.numerals, Text.decimalDigits_ne_nil]

theorem value_numerals (c : Cardinality) : c.numerals.value = c := by
  have hvalue : Text.digitsValue ∘ Text.decimalDigits = id := funext Text.digitsValue_decimalDigits
  simp [value, Cardinality.numerals, hvalue]

theorem pos_of_parseKey {cs : List CodePoint} {key : Option (List CodePoint)} (h : parseKey cs = some key) :
    ∀ k ∈ key.map Text.digitsValue, 0 < k := by
  unfold parseKey at h
  split at h
  · cases h
    rintro k ⟨⟩
  · split at h
    · rename_i d rest _
      simp only [Bool.and_eq_true, decide_eq_true_eq, Option.ite_none_right_eq_some, Option.some.injEq] at h
      obtain ⟨⟨⟨⟨-, hd⟩, hd'⟩, -⟩, rfl⟩ := h
      rintro k ⟨⟩
      exact Text.digitsValue_pos hd hd' rest
    · cases h

/-- A cardinality that is read is proper. -/
theorem isProper_of_parse {cs : List CodePoint} {n : Numerals} (h : parse cs = some n) : n.value.IsProper := by
  unfold parse at h
  simp only at h
  split at h
  · split at h
    · cases h
    · split at h
      · cases h
      · rename_i key hkey
        split at h <;> cases h
        · exact ⟨fun _ => rfl, pos_of_parseKey hkey⟩
        · exact ⟨fun hmin => absurd hmin (Option.some_ne_none _), pos_of_parseKey hkey⟩
  · cases h

theorem areShort_iff {n : Numerals} :
    n.areShort = true ↔ ∀ digits ∈ [n.min, n.max, n.key], ∀ ds ∈ digits, ds.length ≤ Text.digitLimit := by
  simp [areShort, Option.all_eq_true]

end Numerals

namespace Cardinality

/-- Every number in it has few enough digits to be read. -/
def IsShort (c : Cardinality) : Prop :=
  ∀ number ∈ [c.min, c.max, c.key], ∀ n ∈ number, n < 10 ^ Text.digitLimit

theorem parse_text {c : Cardinality} (h : c.IsProper) : parse c.text = some c := by
  rw [parse, Numerals.parse_text h, Option.map_some, Numerals.value_numerals]

theorem isProper_of_parse {cs : List CodePoint} {c : Cardinality} (h : parse cs = some c) : c.IsProper := by
  obtain ⟨n, hn, rfl⟩ := Option.map_eq_some_iff.mp h
  exact Numerals.isProper_of_parse hn

theorem areShort_numerals_iff {c : Cardinality} : c.numerals.areShort = true ↔ c.IsShort := by
  have hdigits (number : Option Nat) : (∀ ds ∈ number.map Text.decimalDigits, ds.length ≤ Text.digitLimit) ↔
      ∀ n ∈ number, n < 10 ^ Text.digitLimit := by
    cases number with
    | none => simp
    | some n => simpa using Json.length_decimalDigits_le_iff
  rw [Numerals.areShort_iff, IsShort]
  simp only [numerals, List.forall_mem_cons, hdigits]
  simp

/-- Short numerals denote numbers with few digits. -/
theorem isShort_of_areShort {n : Numerals} (h : n.areShort = true) : n.value.IsShort := by
  have hvalue (digits : Option (List CodePoint)) (hshort : ∀ ds ∈ digits, ds.length ≤ Text.digitLimit) :
      ∀ k ∈ digits.map Text.digitsValue, k < 10 ^ Text.digitLimit := by
    intro k hk
    obtain ⟨ds, hds, rfl⟩ := Option.map_eq_some_iff.mp hk
    exact Nat.lt_of_lt_of_le (Text.digitsValue_lt ds) (Nat.pow_le_pow_right (by decide) (hshort ds hds))
  rw [Numerals.areShort_iff] at h
  simp only [List.forall_mem_cons] at h
  simp only [IsShort, Numerals.value, List.forall_mem_cons]
  exact ⟨hvalue _ h.1, hvalue _ h.2.1, hvalue _ h.2.2.1, List.forall_mem_nil _⟩

/-- The characters of cardinalities beside the digits. -/
def marks : List CodePoint := [.char '.', .char 'n', .char ' ', .char 'P', .char 'K']

theorem mem_text {c : Cardinality} {x : CodePoint} (h : x ∈ c.text) : Text.isAsciiDigit x = true ∨ x ∈ marks := by
  obtain ⟨min, max, key⟩ := c
  simp only [text, maxText, keyText, List.mem_append, List.mem_cons] at h
  rcases h with h | rfl | rfl | h | h
  · cases min with
    | none => cases h
    | some m => exact .inl (isAsciiDigit_of_mem_decimalDigits h)
  · exact .inr (by decide)
  · exact .inr (by decide)
  · cases max with
    | none => exact .inr (by rw [List.mem_singleton.mp h]; decide)
    | some m => exact .inl (isAsciiDigit_of_mem_decimalDigits h)
  · cases key with
    | none => cases h
    | some k =>
      simp only [Option.elim_some, List.mem_cons] at h
      rcases h with rfl | rfl | rfl | h
      · exact .inr (by decide)
      · exact .inr (by decide)
      · exact .inr (by decide)
      · exact .inl (isAsciiDigit_of_mem_decimalDigits h)

/-- The dots tell a cardinality from the class markers. -/
theorem ofMarker?_text (c : Cardinality) : ClassKind.ofMarker? c.text = none := by
  refine List.find?_eq_none.mpr fun k _ hk => ?_
  have hdot : .char '.' ∈ k.marker.toList := by
    rw [eq_of_beq hk]
    exact List.mem_append_right _ List.mem_cons_self
  cases k <;> exact absurd hdot (by decide)

/-- A cardinality starts with a digit or a dot and ends with a digit or a letter. -/
theorem trim_text (c : Cardinality) : Text.trim c.text = c.text := by
  obtain ⟨min, max, key⟩ := c
  have hdigits : ∀ n, ∀ x ∈ Text.decimalDigits n, Text.isBlank x = false := fun n x hx =>
    Text.isBlank_of_isAsciiAlphanumeric (by simp [Text.isAsciiAlphanumeric, isAsciiDigit_of_mem_decimalDigits hx])
  have hstart : Text.trimStart (text ⟨min, max, key⟩) = text ⟨min, max, key⟩ := by
    cases min with
    | none => exact Text.trimStart_cons (by decide) _
    | some m =>
      cases hm : Text.decimalDigits m with
      | nil => exact absurd hm Text.decimalDigits_ne_nil
      | cons d ds =>
        simp only [text, Option.elim_some, hm, List.cons_append]
        exact Text.trimStart_cons (hdigits m d (hm ▸ List.mem_cons_self)) _
  -- behind the last blank there is a number, or the letter for no bound
  have hend : ∃ front tail, tail ≠ [] ∧ (∀ x ∈ tail, Text.isBlank x = false) ∧
      text ⟨min, max, key⟩ = front ++ tail := by
    cases key with
    | some k =>
      exact ⟨min.elim [] Text.decimalDigits ++
          .char '.' :: .char '.' :: (maxText max ++ [.char ' ', .char 'P', .char 'K']), Text.decimalDigits k,
        Text.decimalDigits_ne_nil, hdigits k, by simp [text, keyText]⟩
    | none =>
      have hbound : maxText max ≠ [] ∧ ∀ x ∈ maxText max, Text.isBlank x = false := by
        cases max with
        | none => exact ⟨by decide, List.forall_mem_singleton.mpr (by decide)⟩
        | some m => exact ⟨Text.decimalDigits_ne_nil, hdigits m⟩
      exact ⟨min.elim [] Text.decimalDigits ++ [.char '.', .char '.'], maxText max, hbound.1, hbound.2,
        by simp [text, keyText]⟩
  obtain ⟨front, tail, hne, htail, htext⟩ := hend
  rw [Text.trim, hstart, htext, Text.trimEnd_append hne htail]

end Cardinality

namespace Marker

/-- A marker as it is written. Empty parentheses stand for one that cannot be read, as they cannot be read either. -/
def text : Marker → List CodePoint
  | .kind k => k.marker.toList
  | .cardinality c => c.text
  | .malformed => []

def IsProper : Marker → Prop
  | .cardinality c => c.IsProper
  | _ => True

theorem parse_text {m : Marker} (h : m.IsProper) : parse m.text = m := by
  cases m with
  | kind k =>
    have htrim : Text.trim k.marker.toList = k.marker.toList := by cases k <;> decide
    show parse k.marker.toList = _
    simp only [parse, htrim, ClassKind.ofMarker?_marker]
  | malformed => decide
  | cardinality c =>
    show parse c.text = _
    rw [parse, Cardinality.trim_text]
    simp only [Cardinality.ofMarker?_text, Cardinality.parse_text h]

theorem isProper_parse (cs : List CodePoint) : (parse cs).IsProper := by
  unfold parse
  simp only
  split
  · trivial
  · split
    · rename_i c hc
      exact Cardinality.isProper_of_parse hc
    · trivial

/-- Every number in it has few enough digits to be read. -/
def IsShort : Marker → Prop
  | .cardinality c => c.IsShort
  | _ => True

theorem isReadable_text_iff {m : Marker} (h : m.IsProper) : isReadable m.text = true ↔ m.IsShort := by
  cases m with
  | kind k =>
    have hkind : isReadable k.marker.toList = true := by cases k <;> decide
    exact iff_of_true hkind trivial
  | malformed => exact iff_of_true (by decide) trivial
  | cardinality c =>
    show isReadable c.text = true ↔ c.IsShort
    simp [isReadable, Cardinality.trim_text, Cardinality.ofMarker?_text, Numerals.parse_text h,
      Cardinality.areShort_numerals_iff]

theorem isShort_of_isReadable {cs : List CodePoint} (h : isReadable cs = true) : (parse cs).IsShort := by
  unfold parse
  unfold isReadable at h
  simp only at h ⊢
  split
  · trivial
  · rename_i hkind
    simp only [hkind, Option.isSome_none, Bool.false_or] at h
    split
    · rename_i c hc
      obtain ⟨n, hn, rfl⟩ := Option.map_eq_some_iff.mp hc
      rw [hn] at h
      exact Cardinality.isShort_of_areShort h
    · trivial

theorem not_isParenthesis_of_mem_text {m : Marker} {x : CodePoint} (h : x ∈ m.text) :
    Label.isParenthesis x = false := by
  cases m with
  | kind k =>
    have hletters : k.marker.toList.any Label.isParenthesis = false := by cases k <;> decide
    exact forall_mem_of_any_eq_false hletters x h
  | malformed => cases h
  | cardinality c =>
    rcases Cardinality.mem_text h with hdigit | hmark
    · exact Label.not_isParenthesis_of rfl rfl hdigit
    · have hmarks : Cardinality.marks.any Label.isParenthesis = false := by decide
      exact forall_mem_of_any_eq_false hmarks x hmark

end Marker

/-! ### Labels -/

/-- A written name with a local part. -/
def Name.IsComplete (name : Text) : Prop :=
  ∃ own r, (∀ l ∈ own, IsNameText l) ∧ IsNameText r ∧ r ≠ "" ∧ name = spell own r

namespace Label

/-- A label as it is written: its name, and its marker in parentheses. -/
def text (l : Label) : Text :=
  l.name ++ l.marker.elim ("" : Text) fun m => " (" ++ Text.ofList m.text ++ ")"

/-- The name has a local part, and the marker is one that can be written. -/
structure IsProper (l : Label) : Prop where
  name : Name.IsComplete l.name
  marker : ∀ m ∈ l.marker, m.IsProper

/-- Every number in it has few enough digits to be read. -/
def IsShort (l : Label) : Prop := ∀ m ∈ l.marker, m.IsShort

theorem parenthesized?_append {inside : List CodePoint} (h : ∀ x ∈ inside, isParenthesis x = false)
    (after : List CodePoint) :
    parenthesized? (.char ' ' :: .char '(' :: (inside ++ .char ')' :: after)) = some inside := by
  have hblank : Text.isBlank ' ' = true := by decide
  have hopen : Text.isBlank '(' = false := by decide
  have hspan : (inside ++ .char ')' :: after).span (fun c => !isParenthesis c) = (inside, .char ')' :: after) :=
    span_append (fun x hx => by rw [h x hx]; rfl) (by decide) after
  rw [parenthesized?, List.dropWhile_cons_of_pos hblank, List.dropWhile_cons_of_neg (by rw [hopen]; decide)]
  simp only [hspan]

/-- A name is read in front of whatever cannot belong to it, with blanks before it. -/
theorem cut?_append {name : Text} (h : Name.IsComplete name) {lead rest : List CodePoint}
    (hlead : ∀ c ∈ lead, Text.isBlank c = true) (hrest : ∀ c ∈ rest.head?, Text.isBlank c = true) :
    cut? (lead ++ (name.toList ++ rest)) = some (name, parenthesized? rest) := by
  obtain ⟨own, r, hown, hr, hne, rfl⟩ := h
  have hname : ∀ c ∈ (Name.spell own r).toList, (!Text.isBlank c && !isParenthesis c) = true := by
    intro c hc
    rcases Name.mem_spell hown hr hc with h | rfl
    · rw [Name.not_isBlank_of_isNameChar h, not_isParenthesis_of rfl rfl h]
      rfl
    · decide
  have hfirst : (lead ++ ((Name.spell own r).toList ++ rest)).dropWhile Text.isBlank =
      (Name.spell own r).toList ++ rest := by
    rw [List.dropWhile_append_of_pos hlead]
    cases hspell : (Name.spell own r).toList with
    | nil =>
      rw [Name.spell, Text.toList_append] at hspell
      exact absurd (Text.toList_eq_nil_iff.mp (List.append_eq_nil_iff.mp hspell).2) hne
    | cons c cs =>
      have hc := hname c (hspell ▸ List.mem_cons_self)
      rw [Bool.and_eq_true, Bool.not_eq_true'] at hc
      rw [List.cons_append, List.dropWhile_cons_of_neg (by rw [hc.1]; decide)]
  have hend : ∀ c ∈ rest.head?, (!Text.isBlank c && !isParenthesis c) = false := by
    intro c hc
    rw [hrest c hc]
    rfl
  rw [cut?, hfirst, span_append_of_head? hname hend]
  simp only [Text.ofList_toList, Name.split_spell hown hr, Text.isEmpty_iff, if_neg hne]

/-- A proper label is cut into its name and its marker, with blanks before it, and if it has a marker with any text
behind it. -/
theorem cut?_text_append {l : Label} (h : l.IsProper) {lead after : Text}
    (hlead : ∀ c ∈ lead.toList, Text.isBlank c = true) (hafter : l.marker = none → after = "") :
    cut? (lead ++ l.text ++ after).toList = some (l.name, l.marker.map Marker.text) := by
  obtain ⟨name, marker⟩ := l
  cases marker with
  | none =>
    obtain rfl : after = "" := hafter rfl
    have htext : (lead ++ text ⟨name, none⟩ ++ "").toList = lead.toList ++ (name.toList ++ []) := by simp [text]
    rw [htext, cut?_append h.name hlead (by simp)]
    rfl
  | some m =>
    have htext : (lead ++ text ⟨name, some m⟩ ++ after).toList =
        lead.toList ++ (name.toList ++ .char ' ' :: .char '(' :: (m.text ++ .char ')' :: after.toList)) := by
      simp [text]
    have hblank : ∀ c ∈ (.char ' ' :: .char '(' :: (m.text ++ .char ')' :: after.toList)).head?,
        Text.isBlank c = true := by
      rintro c ⟨⟩
      decide
    rw [htext, cut?_append h.name hlead hblank,
      parenthesized?_append fun _ hx => Marker.not_isParenthesis_of_mem_text hx, Option.map_some]

theorem map_parse_text {l : Label} (h : l.IsProper) : (l.marker.map Marker.text).map Marker.parse = l.marker := by
  cases hm : l.marker with
  | none => rfl
  | some m => rw [Option.map_some, Option.map_some, Marker.parse_text (h.marker m hm)]

theorem all_isReadable_iff {l : Label} (h : l.IsProper) :
    (l.marker.map Marker.text).all Marker.isReadable = true ↔ l.IsShort := by
  rw [Option.all_map, Option.all_eq_true, IsShort]
  exact forall₂_congr fun m hm => Marker.isReadable_text_iff (h.marker m hm)

/-- It is read back from what is written if its numbers are short, and otherwise it is not read. -/
theorem read_text_append_iff {l : Label} (h : l.IsProper) (lead after : Text)
    (hlead : ∀ c ∈ lead.toList, Text.isBlank c = true) (hafter : l.marker = none → after = "") :
    (read (lead ++ l.text ++ after) = .ok (some l) ↔ l.IsShort) ∧
      (read (lead ++ l.text ++ after) = .error .tooManyDigits ↔ ¬ l.IsShort) := by
  rw [read, cut?_text_append h hlead hafter, ← all_isReadable_iff h]
  simp only [map_parse_text h]
  split <;> simp_all

/-- A label that is read is proper, and its numbers are short. -/
theorem isProper_of_read {s : Text} {l : Label} (h : read s = .ok (some l)) : l.IsProper ∧ l.IsShort := by
  unfold read at h
  split at h
  · cases h
  rename_i name inside hcut
  split at h
  · rename_i hreadable
    cases h
    unfold cut? at hcut
    cases hspan : (s.toList.dropWhile Text.isBlank).span fun c => !Text.isBlank c && !isParenthesis c with
    | mk written rest =>
      obtain ⟨-, hwritten, -⟩ := span_eq hspan
      simp only [hspan] at hcut
      split at hcut
      · rename_i own r hsplit
        split at hcut
        · cases hcut
        · rename_i hne
          cases hcut
          -- without blanks there is no line feed that splitting would leave out
          have hlast : (Text.ofList written).toList.getLast? ≠ some (.char '\n') := by
            rw [Text.toList_ofList]
            intro hlast
            exact absurd (hwritten _ (List.mem_of_getLast? hlast)) (by decide)
          obtain ⟨hown, hr, hname⟩ := (Name.split_eq_some_iff hlast).mp hsplit
          refine ⟨⟨⟨own, r, hown, hr, fun h => hne (Text.isEmpty_iff.mpr h), hname⟩, ?_⟩, ?_⟩
          · rintro m hm
            obtain ⟨inside, -, rfl⟩ := Option.map_eq_some_iff.mp hm
            exact Marker.isProper_parse inside
          · rintro m hm
            obtain ⟨inside, hinside, rfl⟩ := Option.map_eq_some_iff.mp hm
            exact Marker.isShort_of_isReadable ((Option.all_eq_true _ _).mp hreadable inside hinside)
      · cases hcut
  · cases h

theorem read_text_iff {l : Label} (h : l.IsProper) :
    (read l.text = .ok (some l) ↔ l.IsShort) ∧ (read l.text = .error .tooManyDigits ↔ ¬ l.IsShort) := by
  have hread := read_text_append_iff h "" "" (by simp) fun _ => rfl
  rwa [Text.empty_append, Text.append_empty] at hread

/-! #### Labels with both bounds -/

section Bounded

variable (min max : Nat) (key : Option Nat)

theorem text_bounded (name : Text) :
    text ⟨name, some (.cardinality ⟨some min, some max, key⟩)⟩ =
      name ++ " (" ++ Text.ofNat min ++ ".." ++ Text.ofNat max ++
        (key.elim ("" : Text) fun k => " PK" ++ Text.ofNat k) ++ ")" := by
  rw [← Text.toList_inj]
  cases key <;> simp [text, Marker.text, Cardinality.text, Cardinality.maxText, Cardinality.keyText, Text.ofNat]

theorem isProper_bounded {name : Text} (hname : Name.IsComplete name) (hkey : ∀ k ∈ key, 0 < k) :
    IsProper ⟨name, some (.cardinality ⟨some min, some max, key⟩)⟩ := by
  refine ⟨hname, ?_⟩
  rintro m ⟨⟩
  exact ⟨fun h => absurd h (Option.some_ne_none _), hkey⟩

theorem isShort_bounded_iff (name : Text) : IsShort ⟨name, some (.cardinality ⟨some min, some max, key⟩)⟩ ↔
    min < 10 ^ Text.digitLimit ∧ max < 10 ^ Text.digitLimit ∧ ∀ k ∈ key, k < 10 ^ Text.digitLimit := by
  simp [IsShort, Marker.IsShort, Cardinality.IsShort]

end Bounded

end Label

/-- **Written labels come back.** The labels that are read are the proper ones with numbers that are not too long. Each
of them is read back from what is written for it, one with a marker also with blanks before it and any text behind it.
A complete name with bounds, and with a place in the primary key, is read as just these iff none of them has more digits
than can be read. -/
theorem written_label_comes_back_iff (l : Label) (s name : Text) (min max key : Nat) :
    ((∃ s', Label.read s' = .ok (some l)) ↔ l.IsProper ∧ l.IsShort) ∧
      (Label.read s = .ok (some l) → Label.read l.text = .ok (some l) ∧
        (l.isBare = false → ∀ lead after : Text, (∀ c ∈ lead.toList, Text.isBlank c = true) →
          Label.read (lead ++ l.text ++ after) = .ok (some l))) ∧
      (Name.IsComplete name → 0 < key →
        (Label.read (name ++ " (" ++ Text.ofNat min ++ ".." ++ Text.ofNat max ++ ")") =
            .ok (some ⟨name, some (.cardinality ⟨min, max, none⟩)⟩) ↔
          min < 10 ^ Text.digitLimit ∧ max < 10 ^ Text.digitLimit) ∧
        (Label.read (name ++ " (" ++ Text.ofNat min ++ ".." ++ Text.ofNat max ++ " PK" ++ Text.ofNat key ++ ")") =
            .ok (some ⟨name, some (.cardinality ⟨min, max, key⟩)⟩) ↔
          min < 10 ^ Text.digitLimit ∧ max < 10 ^ Text.digitLimit ∧ key < 10 ^ Text.digitLimit)) := by
  refine ⟨⟨fun ⟨_, h⟩ => Label.isProper_of_read h, fun h => ⟨l.text, (Label.read_text_iff h.1).1.mpr h.2⟩⟩, ?_, ?_⟩
  · intro h
    obtain ⟨hproper, hshort⟩ := Label.isProper_of_read h
    refine ⟨(Label.read_text_iff hproper).1.mpr hshort, fun hmarked lead after hlead => ?_⟩
    refine (Label.read_text_append_iff hproper _ _ hlead fun hnone => ?_).1.mpr hshort
    rw [Label.isBare, hnone] at hmarked
    cases hmarked
  · intro hname hkey
    have hbounds := Label.read_text_iff (Label.isProper_bounded min max none hname (by simp))
    have hboth := Label.read_text_iff (Label.isProper_bounded min max (some key) hname (by simpa using hkey))
    rw [Label.text_bounded, Label.isShort_bounded_iff] at hbounds hboth
    constructor
    · simpa using hbounds.1
    · simpa [Text.append_assoc] using hboth.1

/-- Bounds in Arabic digits are written in ASCII ones, and so is a place in the key. -/
theorem written_label_comes_back_arabic :
    Label.read "x:a(\u0663..\u0665 PK2)?" = .ok (some ⟨"x:a", some (.cardinality ⟨some 3, some 5, some 2⟩)⟩) ∧
      Label.text ⟨"x:a", some (.cardinality ⟨some 3, some 5, some 2⟩)⟩ = "x:a (3..5 PK2)" ∧
      Label.read "\t x:a (3..5 PK2) (DC)" = .ok (some ⟨"x:a", some (.cardinality ⟨some 3, some 5, some 2⟩)⟩) ∧
      Name.IsComplete "x:a" ∧ Label.read "x:a (0..7 PK1)" =
        .ok (some ⟨"x:a", some (.cardinality ⟨some 0, some 7, some 1⟩)⟩) := by
  have hread : Label.read "x:a(\u0663..\u0665 PK2)?" =
      .ok (some ⟨"x:a", some (.cardinality ⟨some 3, some 5, some 2⟩)⟩) := by decide +kernel
  have htext : Label.text ⟨"x:a", some (.cardinality ⟨some 3, some 5, some 2⟩)⟩ = "x:a (3..5 PK2)" := by
    decide +kernel
  obtain ⟨-, hback, hwritten⟩ := written_label_comes_back_iff
    ⟨"x:a", some (.cardinality ⟨some 3, some 5, some 2⟩)⟩ "x:a(\u0663..\u0665 PK2)?" "x:a" 0 7 1
  have hagain := (hback hread).2 rfl "\t " " (DC)" (List.all_eq_true.mp (by decide +kernel))
  rw [htext] at hagain
  have hname : Name.IsComplete "x:a" :=
    ⟨some "x", "a", by decide, by decide, by decide, by decide⟩
  have hshort (n : Nat) (hn : n < 10) : n < 10 ^ Text.digitLimit :=
    Nat.lt_of_lt_of_le hn (Nat.le_self_pow (by decide) 10)
  exact ⟨hread, htext, hagain, hname, (hwritten hname Nat.one_pos).2.mpr
    ⟨hshort 0 (by decide), hshort 7 (by decide), hshort 1 (by decide)⟩⟩

theorem read_of_long_bound {n : Nat} (h : ¬ n < 10 ^ Text.digitLimit) :
    Label.read ("a (" ++ Text.ofNat n ++ ".." ++ Text.ofNat 0 ++ ")") = .error .tooManyDigits := by
  have hname : Name.IsComplete "a" := ⟨none, "a", by decide, by decide, by decide, rfl⟩
  have hread := (Label.read_text_iff (Label.isProper_bounded n 0 none hname (by simp))).2.mpr
    fun hshort => h ((Label.isShort_bounded_iff n 0 none "a").mp hshort).1
  have hstart : ("a" ++ " (" : Text) = "a (" := rfl
  rwa [Label.text_bounded, hstart, Option.elim_none, Text.append_empty] at hread

/-- A lower bound of one digit more than can be read. -/
theorem long_bound_is_not_read :
    Label.read ("a (" ++ Text.ofNat (10 ^ Text.digitLimit) ++ ".." ++ Text.ofNat 0 ++ ")") =
      .error .tooManyDigits :=
  read_of_long_bound (Nat.lt_irrefl _)

end Ontogram

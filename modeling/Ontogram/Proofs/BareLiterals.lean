/-
Literals that are written bare.

A number or a truth value stands for itself in the grouped view. Its text shows the datatype, so no two bare
literals are written alike, and it has none of the characters that mark other objects:

* `HasForm` — the forms of numbers and truth values, over the digits of a given class;
* `HasForm.forall_mem`, `HasForm.mono` — the characters of a form, and forms over another class of digits;
* `isBare_iff` — what is written bare has its form over the decimal digits of every script;
* `bareDatatype`, `of_isBare` — the datatype that a bare text shows is the literal's own, and what it is written with.
-/
import Ontogram.Proofs.LineReading
import Ontogram.Turtle.Literal
namespace Ontogram.Turtle

open NTriples (forall_mem_of_any_eq_false span_append span_eq)

/-! ### Forms -/

/-- A sign, or none. -/
inductive IsSign : List CodePoint → Prop
  | none : IsSign []
  | plus : IsSign [.char '+']
  | minus : IsSign [.char '-']

section Forms

variable (digit : CodePoint → Bool)

/-- Digits of the class, at least one. -/
def IsDigits (cs : List CodePoint) : Prop := cs ≠ [] ∧ ∀ c ∈ cs, digit c = true

/-- Digits with a point before, among or behind them, or without one. -/
inductive HasMantissaForm : List CodePoint → Prop
  | whole {ds : List CodePoint} (h : IsDigits digit ds) : HasMantissaForm ds
  | pointed {ds es : List CodePoint} (hds : IsDigits digit ds) (hes : ∀ c ∈ es, digit c = true) :
      HasMantissaForm (ds ++ .char '.' :: es)
  | fraction {es : List CodePoint} (hes : IsDigits digit es) : HasMantissaForm (.char '.' :: es)

/-- The texts that stand for themselves, by datatype. -/
inductive HasForm : Text → List CodePoint → Prop
  | integer {sign ds : List CodePoint} (hsign : IsSign sign) (hds : IsDigits digit ds) :
      HasForm "xsd:integer" (sign ++ ds)
  | decimal {sign ds es : List CodePoint} (hsign : IsSign sign) (hds : ∀ c ∈ ds, digit c = true)
      (hes : IsDigits digit es) : HasForm "xsd:decimal" (sign ++ (ds ++ .char '.' :: es))
  | double {sign mantissa sign' ds : List CodePoint} {mark : CodePoint} (hsign : IsSign sign)
      (hmantissa : HasMantissaForm digit mantissa) (hmark : mark = 'e' ∨ mark = 'E')
      (hsign' : IsSign sign') (hds : IsDigits digit ds) :
      HasForm "xsd:double" (sign ++ (mantissa ++ mark :: (sign' ++ ds)))
  | boolean {cs : List CodePoint} (h : cs = ("true" : Text).toList ∨ cs = ("false" : Text).toList) :
      HasForm "xsd:boolean" cs

end Forms

variable {digit digit' : CodePoint → Bool} {cs : List CodePoint} {datatype : Text}

/-- The characters of the form of a datatype that are no digits. -/
def formMarks (datatype : Text) : List CodePoint :=
  if datatype = "xsd:integer" then [.char '+', .char '-']
  else if datatype = "xsd:decimal" then [.char '+', .char '-', .char '.']
  else if datatype = "xsd:double" then [.char '+', .char '-', .char '.', .char 'e', .char 'E']
  else ("true" : Text).toList ++ ("false" : Text).toList

/-- The marks of all forms. -/
def bareMarks : List CodePoint := ("+-.eEtruefals" : Text).toList

theorem formMarks_subset (datatype : Text) : formMarks datatype ⊆ bareMarks := by
  unfold formMarks
  split_ifs <;> decide

theorem not_isDecimalDigit_of_mem_formMarks {c : CodePoint} (h : c ∈ formMarks datatype) :
    Text.isDecimalDigit c = false := by
  have hmarks : bareMarks.any Text.isDecimalDigit = false := by decide
  exact forall_mem_of_any_eq_false hmarks c (formMarks_subset datatype h)

theorem IsSign.forall_mem (h : IsSign cs) : ∀ c ∈ cs, c = '+' ∨ c = '-' := by
  cases h <;> simp

theorem HasMantissaForm.forall_mem (h : HasMantissaForm digit cs) :
    ∀ c ∈ cs, digit c = true ∨ c = '.' := by
  intro c hc
  cases h with
  | whole h => exact .inl (h.2 c hc)
  | pointed hds hes =>
    rw [List.mem_append, List.mem_cons] at hc
    rcases hc with hc | rfl | hc
    · exact .inl (hds.2 c hc)
    · exact .inr rfl
    · exact .inl (hes c hc)
  | fraction hes =>
    rcases List.mem_cons.mp hc with rfl | hc
    · exact .inr rfl
    · exact .inl (hes.2 c hc)

/-- A form consists of digits and its marks. -/
theorem HasForm.forall_mem (h : HasForm digit datatype cs) :
    ∀ c ∈ cs, digit c = true ∨ c ∈ formMarks datatype := by
  have hdigits {ds : List CodePoint} (h : ∀ c ∈ ds, digit c = true) :
      ∀ c ∈ ds, digit c = true ∨ c ∈ formMarks datatype := fun c hc => .inl (h c hc)
  have hmarks {sign : List CodePoint} (h : IsSign sign)
      (hsign : .char '+' ∈ formMarks datatype ∧ .char '-' ∈ formMarks datatype) :
      ∀ c ∈ sign, digit c = true ∨ c ∈ formMarks datatype := by
    intro c hc
    rcases h.forall_mem c hc with rfl | rfl
    · exact .inr hsign.1
    · exact .inr hsign.2
  cases h with
  | integer hsign hds => exact List.forall_mem_append.mpr ⟨hmarks hsign (by decide), hdigits hds.2⟩
  | decimal hsign hds hes =>
    refine List.forall_mem_append.mpr ⟨hmarks hsign (by decide), List.forall_mem_append.mpr ⟨hdigits hds, ?_⟩⟩
    exact List.forall_mem_cons.mpr ⟨.inr (by decide), hdigits hes.2⟩
  | double hsign hmantissa hmark hsign' hds =>
    refine List.forall_mem_append.mpr
      ⟨hmarks hsign (by decide), List.forall_mem_append.mpr ⟨fun c hc => ?_, ?_⟩⟩
    · rcases hmantissa.forall_mem c hc with hdigit | rfl
      · exact .inl hdigit
      · exact .inr (by decide)
    · refine List.forall_mem_cons.mpr
        ⟨.inr ?_, List.forall_mem_append.mpr ⟨hmarks hsign' (by decide), hdigits hds.2⟩⟩
      rcases hmark with rfl | rfl <;> decide
  | boolean h =>
    refine fun c hc => .inr ?_
    rcases h with rfl | rfl
    · exact List.mem_append_left _ hc
    · exact List.mem_append_right _ hc

theorem IsDigits.mono (h : IsDigits digit cs) (hdigit : ∀ c ∈ cs, digit c = true → digit' c = true) :
    IsDigits digit' cs :=
  ⟨h.1, fun c hc => hdigit c hc (h.2 c hc)⟩

theorem HasMantissaForm.mono (h : HasMantissaForm digit cs)
    (hdigit : ∀ c ∈ cs, digit c = true → digit' c = true) : HasMantissaForm digit' cs := by
  cases h with
  | whole h => exact .whole (h.mono hdigit)
  | pointed hds hes =>
    obtain ⟨hleft, hright⟩ := List.forall_mem_append.mp hdigit
    exact .pointed (hds.mono hleft) fun c hc => hright c (List.mem_cons_of_mem _ hc) (hes c hc)
  | fraction hes => exact .fraction (hes.mono fun c hc => hdigit c (List.mem_cons_of_mem _ hc))

/-- A form is one over any class that its digits belong to. -/
theorem HasForm.mono (h : HasForm digit datatype cs)
    (hdigit : ∀ c ∈ cs, digit c = true → digit' c = true) : HasForm digit' datatype cs := by
  cases h with
  | integer hsign hds => exact .integer hsign (hds.mono (List.forall_mem_append.mp hdigit).2)
  | decimal hsign hds hes =>
    obtain ⟨hleft, hright⟩ := List.forall_mem_append.mp (List.forall_mem_append.mp hdigit).2
    exact .decimal hsign (fun c hc => hleft c hc (hds c hc))
      (hes.mono (List.forall_mem_cons.mp hright).2)
  | double hsign hmantissa hmark hsign' hds =>
    obtain ⟨hleft, hright⟩ := List.forall_mem_append.mp (List.forall_mem_append.mp hdigit).2
    obtain ⟨-, hexponent⟩ := List.forall_mem_append.mp (List.forall_mem_cons.mp hright).2
    exact .double hsign (hmantissa.mono hleft) hmark hsign' (hds.mono hexponent)
  | boolean h => exact .boolean h

/-! ### What is written bare -/

/-- A sign is dropped if there is one; no digit and no point is taken for one. -/
theorem exists_sign (cs : List CodePoint) : ∃ sign, IsSign sign ∧ cs = sign ++ dropSign cs := by
  unfold dropSign
  split
  · rename_i c rest
    split
    · rename_i hsign
      rcases hsign with rfl | rfl
      · exact ⟨[.char '+'], .plus, rfl⟩
      · exact ⟨[.char '-'], .minus, rfl⟩
    · exact ⟨[], .none, rfl⟩
  · exact ⟨[], .none, rfl⟩

theorem dropSign_append {sign rest : List CodePoint} (hsign : IsSign sign)
    (hrest : ∀ c ∈ rest.head?, c ≠ '+' ∧ c ≠ '-') : dropSign (sign ++ rest) = rest := by
  cases hsign with
  | none =>
    cases rest with
    | nil => rfl
    | cons c rest =>
      obtain ⟨hplus, hminus⟩ := hrest c rfl
      exact if_neg (not_or.mpr ⟨hplus, hminus⟩)
  | plus => rfl
  | minus => rfl

theorem ne_sign_of_isDecimalDigit {c : CodePoint} (h : Text.isDecimalDigit c = true) : c ≠ '+' ∧ c ≠ '-' := by
  constructor <;> rintro rfl <;> exact absurd h (by decide)

/-- The form of an integer: digits behind a sign. -/
theorem isInteger_iff : isInteger cs = true ↔
    ∃ sign ds, IsSign sign ∧ IsDigits Text.isDecimalDigit ds ∧ cs = sign ++ ds := by
  unfold isInteger
  constructor
  · intro h
    obtain ⟨sign, hsign, hcs⟩ := exists_sign cs
    exact ⟨sign, _, hsign, by simpa [IsDigits] using h, hcs⟩
  · rintro ⟨sign, ds, hsign, hds, rfl⟩
    rw [dropSign_append hsign fun c hc => ne_sign_of_isDecimalDigit (hds.2 c (List.mem_of_mem_head? hc))]
    simpa [IsDigits] using hds

theorem isDecimal_iff : isDecimal cs = true ↔ ∃ sign ds es, IsSign sign ∧
    (∀ c ∈ ds, Text.isDecimalDigit c = true) ∧ IsDigits Text.isDecimalDigit es ∧
      cs = sign ++ (ds ++ .char '.' :: es) := by
  unfold isDecimal
  constructor
  · intro h
    split at h
    · rename_i es hes
      obtain ⟨sign, hsign, hcs⟩ := exists_sign cs
      refine ⟨sign, (dropSign cs).takeWhile Text.isDecimalDigit, es, hsign,
        fun c hc => List.mem_takeWhile_imp hc, by simpa [IsDigits] using h, ?_⟩
      rw [← hes, List.takeWhile_append_dropWhile]
      exact hcs
    · cases h
  · rintro ⟨sign, ds, es, hsign, hds, hes, rfl⟩
    have hhead : ∀ c ∈ (ds ++ .char '.' :: es).head?, c ≠ '+' ∧ c ≠ '-' := by
      intro c hc
      cases ds with
      | nil =>
        cases hc
        decide
      | cons d ds =>
        cases hc
        exact ne_sign_of_isDecimalDigit (hds _ List.mem_cons_self)
    rw [dropSign_append hsign hhead, List.dropWhile_append_of_pos hds, List.dropWhile_cons_of_neg (by decide)]
    simpa [IsDigits] using hes

theorem isMantissa_iff : isMantissa cs = true ↔ HasMantissaForm Text.isDecimalDigit cs := by
  unfold isMantissa
  constructor
  · intro h
    rcases hspan : cs.span Text.isDecimalDigit with ⟨ds, rest⟩
    obtain ⟨rfl, hds, -⟩ := span_eq hspan
    rw [hspan] at h
    simp only at h
    split at h
    · rw [List.append_nil]
      exact .whole ⟨by simpa using h, hds⟩
    · rename_i es
      rw [Bool.and_eq_true, List.all_eq_true] at h
      obtain ⟨hes, hsome⟩ := h
      by_cases hempty : ds = []
      · subst hempty
        exact .fraction ⟨by simpa using hsome, hes⟩
      · exact .pointed ⟨hempty, hds⟩ hes
    · cases h
  · intro h
    cases h with
    | whole h =>
      rw [List.span_eq_takeWhile_dropWhile, List.takeWhile_eq_self_iff.mpr h.2,
        List.dropWhile_eq_nil_iff.mpr h.2]
      simpa using h.1
    | pointed hds hes =>
      rw [span_append hds.2 (by decide)]
      simpa [hds.1] using hes
    | fraction hes =>
      rw [← List.nil_append (CodePoint.char '.' :: _), span_append (List.forall_mem_nil _) (by decide)]
      simpa [IsDigits, and_comm] using hes

theorem isDouble_iff : isDouble cs = true ↔ ∃ sign mantissa, ∃ mark : CodePoint, ∃ exponent, IsSign sign ∧
    HasMantissaForm Text.isDecimalDigit mantissa ∧ (mark = 'e' ∨ mark = 'E') ∧ isInteger exponent = true ∧
      cs = sign ++ (mantissa ++ mark :: exponent) := by
  unfold isDouble
  constructor
  · intro h
    split at h
    · rename_i mantissa mark exponent hspan
      obtain ⟨hrest, -, hmark⟩ := span_eq hspan
      obtain ⟨sign, hsign, hcs⟩ := exists_sign cs
      rw [Bool.and_eq_true, isMantissa_iff] at h
      refine ⟨sign, mantissa, mark, exponent, hsign, h.1, ?_, h.2, hrest ▸ hcs⟩
      simpa [Decidable.or_iff_not_imp_left] using hmark mark rfl
    · cases h
  · rintro ⟨sign, mantissa, mark, exponent, hsign, hmantissa, hmark, hexponent, rfl⟩
    have hchars : ∀ c ∈ mantissa, (c != .char 'e' && c != .char 'E') = true ∧ c ≠ '+' ∧ c ≠ '-' := by
      intro c hc
      rcases hmantissa.forall_mem c hc with hdigit | rfl
      · refine ⟨?_, ne_sign_of_isDecimalDigit hdigit⟩
        rw [Bool.and_eq_true, bne_iff_ne, bne_iff_ne]
        constructor <;> rintro rfl <;> exact absurd hdigit (by decide)
      · decide
    have hhead : ∀ c ∈ (mantissa ++ mark :: exponent).head?, c ≠ '+' ∧ c ≠ '-' := by
      intro c hc
      cases hm : mantissa with
      | nil =>
        rw [hm] at hc
        cases hc
        rcases hmark with rfl | rfl <;> decide
      | cons d ds =>
        rw [hm] at hc
        cases hc
        exact (hchars c (hm ▸ List.mem_cons_self)).2
    rw [dropSign_append hsign hhead,
      span_append (fun c hc => (hchars c hc).1) (by rcases hmark with rfl | rfl <;> decide)]
    simp only
    rw [isMantissa_iff.mpr hmantissa, hexponent]
    rfl

theorem isBoolean_iff : isBoolean cs = true ↔ cs = ("true" : Text).toList ∨ cs = ("false" : Text).toList := by
  rw [isBoolean, Bool.or_eq_true, beq_iff_eq, beq_iff_eq]

/-- The table of bare forms has the forms over the decimal digits of every script. -/
theorem bareForms_iff : (∃ form, bareForms.lookup datatype = some form ∧ form cs = true) ↔
    HasForm Text.isDecimalDigit datatype cs := by
  constructor
  · rintro ⟨form, hform, h⟩
    have hmem := Assoc.mem_of_lookup hform
    simp only [bareForms, List.mem_cons, Prod.mk.injEq, List.not_mem_nil, or_false] at hmem
    rcases hmem with ⟨rfl, rfl⟩ | ⟨rfl, rfl⟩ | ⟨rfl, rfl⟩ | ⟨rfl, rfl⟩
    · obtain ⟨sign, ds, hsign, hds, rfl⟩ := isInteger_iff.mp h
      exact .integer hsign hds
    · obtain ⟨sign, ds, es, hsign, hds, hes, rfl⟩ := isDecimal_iff.mp h
      exact .decimal hsign hds hes
    · obtain ⟨sign, mantissa, mark, exponent, hsign, hmantissa, hmark, hexponent, rfl⟩ := isDouble_iff.mp h
      obtain ⟨sign', ds, hsign', hds, rfl⟩ := isInteger_iff.mp hexponent
      exact .double hsign hmantissa hmark hsign' hds
    · exact .boolean (isBoolean_iff.mp h)
  · intro h
    cases h with
    | integer hsign hds => exact ⟨isInteger, rfl, isInteger_iff.mpr ⟨_, _, hsign, hds, rfl⟩⟩
    | decimal hsign hds hes => exact ⟨isDecimal, rfl, isDecimal_iff.mpr ⟨_, _, _, hsign, hds, hes, rfl⟩⟩
    | double hsign hmantissa hmark hsign' hds =>
      have hexponent := isInteger_iff.mpr ⟨_, _, hsign', hds, rfl⟩
      exact ⟨isDouble, rfl, isDouble_iff.mpr ⟨_, _, _, _, hsign, hmantissa, hmark, hexponent, rfl⟩⟩
    | boolean h => exact ⟨isBoolean, rfl, isBoolean_iff.mpr h⟩

/-- A literal is written bare iff its text, one line feed at its end apart, has the form of its datatype. -/
theorem isBare_iff {l : Literal} : isBare l = true ↔ ∃ datatype, l.datatype = some datatype ∧
    HasForm Text.isDecimalDigit datatype (Text.dropFinalBreak l.value.toList) := by
  simp only [← bareForms_iff]
  unfold isBare
  cases l.datatype with
  | none =>
    have hnone : bareForms.lookup ("" : Text) = none := rfl
    simp [hnone]
  | some datatype =>
    rw [Option.getD_some]
    cases hform : bareForms.lookup datatype <;> simp [hform]

/-! ### What a bare text shows -/

/-- The datatype that a bare text shows. -/
def bareDatatype (cs : List CodePoint) : Text :=
  if isBoolean cs then "xsd:boolean"
  else if .char 'e' ∈ cs ∨ .char 'E' ∈ cs then "xsd:double"
  else if .char '.' ∈ cs then "xsd:decimal"
  else Vocabulary.integer

/-- The characters of bare texts; a line feed may stand at the end. -/
def isBareChar (c : CodePoint) : Bool := Text.isDecimalDigit c || bareMarks.contains c || c == '\n'

theorem notMem_of_forall {p : CodePoint → Bool} {cs : List CodePoint} (h : ∀ c ∈ cs, p c = true) {d : CodePoint}
    (hd : p d = false) : d ∉ cs := fun hmem =>
  Bool.false_ne_true (hd.symm.trans (h d hmem))

/-- Each form is told from those that `bareDatatype` tries before it by a mark. -/
theorem HasForm.bareDatatype_eq (h : HasForm Text.isDecimalDigit datatype cs) : bareDatatype cs = datatype := by
  have hno {d : CodePoint} (hdigit : Text.isDecimalDigit d = false) (hmark : d ∉ formMarks datatype) : d ∉ cs :=
    fun hd => (h.forall_mem d hd).elim (fun h => Bool.false_ne_true (hdigit.symm.trans h)) hmark
  -- numbers have none of the letters that the words begin with
  have hnumber (ht : .char 't' ∉ cs) (hf : .char 'f' ∉ cs) : ¬ isBoolean cs = true := fun hword => by
    rcases isBoolean_iff.mp hword with rfl | rfl
    · exact ht (by simp)
    · exact hf (by simp)
  unfold bareDatatype
  cases h with
  | integer =>
    rw [if_neg (hnumber (hno (by decide) (by decide)) (hno (by decide) (by decide))),
      if_neg (not_or.mpr ⟨hno (by decide) (by decide), hno (by decide) (by decide)⟩),
      if_neg (hno (by decide) (by decide))]
    rfl
  | decimal =>
    rw [if_neg (hnumber (hno (by decide) (by decide)) (hno (by decide) (by decide))),
      if_neg (not_or.mpr ⟨hno (by decide) (by decide), hno (by decide) (by decide)⟩), if_pos (by simp)]
  | double _ _ hmark =>
    rw [if_neg (hnumber (hno (by decide) (by decide)) (hno (by decide) (by decide))), if_pos]
    rcases hmark with rfl | rfl <;> simp
  | boolean h => rw [if_pos (isBoolean_iff.mpr h)]

theorem HasForm.isBareChar (h : HasForm Text.isDecimalDigit datatype cs) : ∀ c ∈ cs, isBareChar c = true := by
  intro c hc
  rw [Turtle.isBareChar, Bool.or_eq_true, Bool.or_eq_true, List.contains_iff_mem]
  exact .inl ((h.forall_mem c hc).imp_right fun hmark => formMarks_subset datatype hmark)

/-- The text of a bare literal, the line feed at its end apart, shows the literal's datatype. -/
theorem of_isBare {l : Literal} (h : isBare l = true) :
    l.datatype = some (bareDatatype (Text.dropFinalBreak l.value.toList)) ∧
      ∀ c ∈ l.value.toList, isBareChar c = true := by
  obtain ⟨datatype, hdatatype, hform⟩ := isBare_iff.mp h
  refine ⟨hform.bareDatatype_eq ▸ hdatatype, ?_⟩
  -- the form is that of the text without a line feed at its end
  have hchars := hform.isBareChar
  rcases Text.eq_dropFinalBreak_or l.value.toList with h | h
  · rwa [← h] at hchars
  · rw [h]
    exact List.forall_mem_append.mpr ⟨hchars, List.forall_mem_singleton.mpr (by decide)⟩

end Ontogram.Turtle

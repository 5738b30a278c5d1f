/-
Bare literals as tokens of the grouped format.

A bare literal is printed as it stands, so its text has to be a token: the grammar of the format has ASCII digits
and nothing before or after them. What is written bare may have a line feed at its end, and digits of any script:

* `IsToken` — the forms of bare literals with ASCII digits;
* `bare_value_is_token_iff` — a bare text is a token iff its digits are ASCII and no line feed ends it.
-/
import Ontogram.Proofs.BareLiterals
namespace Ontogram.Turtle

variable {cs : List CodePoint} {datatype : Text}

/-- A token of the grouped format: a form with ASCII digits. -/
def IsToken : Text → List CodePoint → Prop := HasForm Text.isAsciiDigit

/-- No token has a line feed. -/
theorem IsToken.feed_notMem (h : IsToken datatype cs) : .char '\n' ∉ cs := by
  intro hmem
  rcases h.forall_mem _ hmem with hdigit | hmark
  · exact absurd hdigit (by decide)
  · exact absurd (formMarks_subset datatype hmark) (by decide)

/-- Tokens are the forms whose digits are ASCII. -/
theorem isToken_iff : IsToken datatype cs ↔ HasForm Text.isDecimalDigit datatype cs ∧
    ∀ c ∈ cs, Text.isDecimalDigit c = true → Text.isAsciiDigit c = true := by
  constructor
  · intro h
    refine ⟨h.mono fun c _ => Text.isDecimalDigit_of_isAsciiDigit, fun c hc hdigit => ?_⟩
    refine (h.forall_mem c hc).resolve_right fun hmark => ?_
    exact Bool.false_ne_true ((not_isDecimalDigit_of_mem_formMarks hmark).symm.trans hdigit)
  · rintro ⟨h, hdigits⟩
    exact h.mono hdigits

/-- A bare literal is printed as it stands. Its text is a token of its datatype iff no line feed ends it and all its
digits are ASCII, and every token is printed so. -/
theorem bare_value_is_token_iff (l : Literal) :
    (isBare l = true → renderTerm (.literal l) = l.value) ∧
      ((∃ datatype, l.datatype = some datatype ∧ IsToken datatype l.value.toList) ↔
        isBare l = true ∧ l.value.toList.getLast? ≠ some (.char '\n') ∧
          ∀ c ∈ l.value.toList, Text.isDecimalDigit c = true → Text.isAsciiDigit c = true) := by
  refine ⟨fun h => if_pos h, ?_⟩
  constructor
  · rintro ⟨datatype, hdatatype, htoken⟩
    have hlast : l.value.toList.getLast? ≠ some (.char '\n') := fun hlast =>
      htoken.feed_notMem (List.mem_of_getLast? hlast)
    obtain ⟨hform, hdigits⟩ := isToken_iff.mp htoken
    refine ⟨isBare_iff.mpr ⟨datatype, hdatatype, ?_⟩, hlast, hdigits⟩
    rwa [Text.dropFinalBreak_eq_self hlast]
  · rintro ⟨hbare, hlast, hdigits⟩
    obtain ⟨datatype, hdatatype, hform⟩ := isBare_iff.mp hbare
    rw [Text.dropFinalBreak_eq_self hlast] at hform
    exact ⟨datatype, hdatatype, isToken_iff.mpr ⟨hform, hdigits⟩⟩

/-- A number with a sign, a point and an exponent is printed as the token that it is. -/
theorem bare_value_is_token_exponent :
    isBare ⟨"-.5E+07", some "xsd:double", none⟩ = true ∧
      renderTerm (.literal ⟨"-.5E+07", some "xsd:double", none⟩) = "-.5E+07" ∧
      ∃ datatype, some ("xsd:double" : Text) = some datatype ∧ IsToken datatype ("-.5E+07" : Text).toList := by
  have hbare : isBare ⟨"-.5E+07", some "xsd:double", none⟩ = true := by decide +kernel
  have hascii : (("-.5E+07" : Text).toList.all fun c => !Text.isDecimalDigit c || Text.isAsciiDigit c) = true := by
    decide +kernel
  obtain ⟨hprinted, htoken⟩ := bare_value_is_token_iff ⟨"-.5E+07", some "xsd:double", none⟩
  refine ⟨hbare, hprinted hbare, htoken.mpr ⟨hbare, by decide +kernel, fun c hc hdigit => ?_⟩⟩
  simpa [hdigit] using List.all_eq_true.mp hascii c hc

/-- An Arabic digit and a line feed at the end are printed bare, and neither text is a token. -/
theorem bare_value_is_no_token :
    (isBare ⟨"\u0663", some "xsd:integer", none⟩ = true ∧ ¬ IsToken "xsd:integer" ("\u0663" : Text).toList) ∧
      isBare ⟨"3\n", some "xsd:integer", none⟩ = true ∧ ¬ IsToken "xsd:integer" ("3\n" : Text).toList := by
  refine ⟨⟨by decide +kernel, fun h => ?_⟩, by decide +kernel, fun h => h.feed_notMem (by decide)⟩
  exact absurd ((isToken_iff.mp h).2 '\u0663' (by decide)) (by decide)

end Ontogram.Turtle

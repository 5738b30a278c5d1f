/-
Escaped text, there and back.

An escaped character is written as itself or as a backslash and a letter (`escapeChar_cases`); all that is
needed of escaping follows from this:

* `unescapeChars_escapeChars` — unescaping undoes escaping;
* `literalText_escapeChars` — the text of a literal ends where its escaped value ends;
* `unbroken_escapeChars` — escaped text has the line breaks of the text that are not written as letters.

In the other direction, about any text, by induction on what unescaping does along it (`Unescapes`): it makes
no text longer, changes nothing unless it makes the text shorter, and no colon gets lost.
-/
import Ontogram.NTriples.Line
import Ontogram.Proofs.Traversal
import Ontogram.Text.Line
namespace Ontogram.NTriples

open Traversal (map_eq_ok_iff)

theorem escapeChar_cases (c : CodePoint) :
    (∃ d, escapeChar c = [.char '\\', d] ∧ letter? d = some c ∧ Text.isLineBreak d = false ∧
      (Text.isLineBreak c = true → c = '\n' ∨ c = '\r')) ∨
    escapeChar c = [c] ∧ c ≠ '\\' ∧ c ≠ '"' ∧ c ≠ '\n' ∧ c ≠ '\r' := by
  unfold escapeChar
  by_cases h₁ : c = '\\'
  · subst h₁
    exact .inl ⟨'\\', rfl, rfl, rfl, by decide⟩
  by_cases h₂ : c = '\n'
  · subst h₂
    exact .inl ⟨'n', rfl, rfl, rfl, by decide⟩
  by_cases h₃ : c = '\r'
  · subst h₃
    exact .inl ⟨'r', rfl, rfl, rfl, by decide⟩
  by_cases h₄ : c = '\t'
  · subst h₄
    exact .inl ⟨'t', rfl, rfl, rfl, by decide⟩
  by_cases h₅ : c = '"'
  · subst h₅
    exact .inl ⟨'"', rfl, rfl, rfl, by decide⟩
  rw [if_neg h₁, if_neg h₂, if_neg h₃, if_neg h₄, if_neg h₅]
  exact .inr ⟨rfl, h₁, h₅, h₂, h₃⟩

/-! ### Unescaping -/

theorem unescapeChars_letter {d x : CodePoint} (h : letter? d = some x) (rest : List CodePoint) :
    unescapeChars (.char '\\' :: d :: rest) = (unescapeChars rest).map (x :: ·) := by
  rw [unescapeChars]
  simp only [if_pos, h]

theorem unescapeChars_cons {c : CodePoint} (h : c ≠ '\\') (rest : List CodePoint) :
    unescapeChars (c :: rest) = (unescapeChars rest).map (c :: ·) := by
  cases rest with
  | nil => simp [unescapeChars, Except.map]
  | cons d rest =>
    rw [unescapeChars]
    simp only [if_neg h]

theorem unescapeChars_of_notMem {cs : List CodePoint} (h : .char '\\' ∉ cs) : unescapeChars cs = .ok cs := by
  induction cs with
  | nil => simp [unescapeChars]
  | cons c cs ih =>
    rw [List.mem_cons, not_or] at h
    rw [unescapeChars_cons (Ne.symm h.1), ih h.2]
    rfl

theorem unescapeChars_escapeChars (cs : List CodePoint) : unescapeChars (escapeChars cs) = .ok cs := by
  induction cs with
  | nil => simp [escapeChars, unescapeChars]
  | cons c rest ih =>
    unfold escapeChars at ih ⊢
    rw [List.flatMap_cons]
    rcases escapeChar_cases c with ⟨d, hc, hd, -, -⟩ | ⟨hc, hslash, -⟩
    · rw [hc, List.cons_append, List.cons_append, List.nil_append, unescapeChars_letter hd, ih]
      rfl
    · rw [hc, List.cons_append, List.nil_append, unescapeChars_cons hslash, ih]
      rfl

theorem decode_eq_ok_iff {cs : List CodePoint} {s : Text} :
    decode cs = .ok s ↔ unescapeChars cs = .ok s.toList := by
  unfold decode
  cases unescapeChars cs with
  | ok ds => simp [← Text.toList_inj]
  | error e => simp

theorem decode_escapeChars (s : Text) : decode (escapeChars s.toList) = .ok s :=
  decode_eq_ok_iff.mpr (unescapeChars_escapeChars s.toList)

/-! ### The text of a literal -/

theorem literalText_quote (rest : List CodePoint) : literalText (.char '"' :: rest) = some ([], rest) := by
  cases rest <;> simp [literalText]

theorem literalText_cons {c : CodePoint} (hquote : c ≠ '"') (hslash : c ≠ '\\') (rest : List CodePoint) :
    literalText (c :: rest) = (literalText rest).map fun p => (c :: p.1, p.2) := by
  cases rest <;> simp [literalText, hquote, hslash]

theorem literalText_escapeChars (cs rest : List CodePoint) :
    literalText (escapeChars cs ++ .char '"' :: rest) = some (escapeChars cs, rest) := by
  induction cs with
  | nil => exact literalText_quote rest
  | cons c cs ih =>
    unfold escapeChars at ih ⊢
    rw [List.flatMap_cons, List.append_assoc]
    rcases escapeChar_cases c with ⟨d, hc, -, -, -⟩ | ⟨hc, hslash, hquote, -, -⟩
    · rw [hc]
      simp [literalText, ih]
    · rw [hc, List.cons_append, List.nil_append, literalText_cons hquote hslash, ih]
      rfl

/-! ### Line breaks -/

/-- No line ends inside the text. -/
def Unbroken (cs : List CodePoint) : Prop := ∀ c ∈ cs, Text.isLineBreak c = false

instance : DecidablePred Unbroken := fun cs =>
  decidable_of_iff (cs.all fun c => !Text.isLineBreak c) (by simp [Unbroken])

/-- Escaping takes the line feeds and carriage returns out of a text, and no other line breaks. -/
theorem unbroken_escapeChars {cs : List CodePoint} :
    Unbroken (escapeChars cs) ↔ ∀ c ∈ cs, Text.isLineBreak c = true → c = '\n' ∨ c = '\r' := by
  unfold Unbroken escapeChars
  rw [List.forall_mem_flatMap]
  refine forall₂_congr fun c _ => ?_
  rcases escapeChar_cases c with ⟨d, hc, -, hd, hbreak⟩ | ⟨hc, -, -, hfeed, hreturn⟩
  · have hslash : Text.isLineBreak '\\' = false := by decide
    simpa [hc, hd, hslash] using hbreak
  · simp [hc, hfeed, hreturn]

theorem feed_notMem_escapeChars (cs : List CodePoint) : .char '\n' ∉ escapeChars cs := by
  rw [escapeChars, List.mem_flatMap]
  rintro ⟨c, -, hc⟩
  rcases escapeChar_cases c with ⟨d, hd, -, hbreak, -⟩ | ⟨hd, -, -, hfeed, -⟩
  · rw [hd] at hc
    obtain rfl : '\n' = d := by simpa using hc
    cases hbreak
  · rw [hd] at hc
    exact hfeed (List.mem_singleton.mp hc).symm

/-! ### Any text -/

theorem notMem_of_hexValues? {cs : List CodePoint} {n : Nat} (h : Text.hexValues? cs = some n) :
    .char ':' ∉ cs := by
  unfold Text.hexValues? at h
  generalize some 0 = n? at h
  induction cs generalizing n? with
  | nil => simp
  | cons c rest ih =>
    rw [List.foldl_cons] at h
    refine List.not_mem_cons_of_ne_of_not_mem ?_ (ih _ h)
    rintro rfl
    have hnone : ∀ ds : List CodePoint, ds.foldl (fun n? c => n?.bind fun n =>
        (Text.hexValue? c).map (16 * n + ·)) (none : Option Nat) = none := by
      intro ds
      induction ds with
      | nil => rfl
      | cons d ds ih => exact ih
    have hcolon : Text.hexValue? ':' = none := by decide
    simp [hcolon, hnone] at h

theorem codeOf?_eq_some {width : Nat} {cs rest : List CodePoint} {n : Nat}
    (h : codeOf? width cs = some (n, rest)) :
    ∃ digits, Text.hexValues? digits = some n ∧ cs = digits ++ rest := by
  unfold codeOf? at h
  split at h
  · cases h
  · obtain ⟨m, hm, h⟩ := Option.map_eq_some_iff.mp h
    cases h
    exact ⟨cs.take width, hm, (List.take_append_drop width cs).symm⟩

theorem code?_eq_some {mark : CodePoint} {cs rest : List CodePoint} {n : Nat}
    (h : code? mark cs = some (n, rest)) :
    (mark = 'u' ∨ mark = 'U') ∧ ∃ digits, Text.hexValues? digits = some n ∧ cs = digits ++ rest := by
  unfold code? at h
  split at h
  · rename_i hmark
    exact ⟨.inl hmark, codeOf?_eq_some h⟩
  · split at h
    · rename_i hmark
      exact ⟨.inr hmark, codeOf?_eq_some h⟩
    · cases h

/-- What unescaping does along a text: it keeps a character, or it puts a character in the place of a
backslash with a letter or with a code. -/
inductive Unescapes : List CodePoint → List CodePoint → Prop
  | nil : Unescapes [] []
  | keep (c : CodePoint) {cs ds : List CodePoint} (h : Unescapes cs ds) : Unescapes (c :: cs) (c :: ds)
  | letter {d x : CodePoint} {cs ds : List CodePoint} (hx : letter? d = some x) (h : Unescapes cs ds) :
      Unescapes (.char '\\' :: d :: cs) (x :: ds)
  | code {mark x : CodePoint} {digits cs ds : List CodePoint} {n : Nat} (hmark : mark = 'u' ∨ mark = 'U')
      (hdigits : Text.hexValues? digits = some n) (h : Unescapes cs ds) :
      Unescapes (.char '\\' :: mark :: (digits ++ cs)) (x :: ds)

theorem unescapes_of_unescapeChars {cs ds : List CodePoint} (h : unescapeChars cs = .ok ds) :
    Unescapes cs ds := by
  fun_induction unescapeChars cs generalizing ds with
  | case1 =>
    cases h
    exact .nil
  | case2 c =>
    cases h
    exact .keep c .nil
  | case3 d rest x hx ih =>
    obtain ⟨es, hes, rfl⟩ := map_eq_ok_iff.mp h
    exact .letter hx (ih hes)
  | case4 d rest _ n rest' hcode x _ ih =>
    obtain ⟨es, hes, rfl⟩ := map_eq_ok_iff.mp h
    obtain ⟨hmark, digits, hdigits, rfl⟩ := code?_eq_some hcode
    exact .code hmark hdigits (ih hes)
  | case5 => cases h
  | case6 d rest _ _ ih =>
    obtain ⟨es, hes, rfl⟩ := map_eq_ok_iff.mp h
    exact .keep _ (ih hes)
  | case7 c d rest _ ih =>
    obtain ⟨es, hes, rfl⟩ := map_eq_ok_iff.mp h
    exact .keep c (ih hes)

theorem unescapes_of_decode {cs : List CodePoint} {s : Text} (h : decode cs = .ok s) :
    Unescapes cs s.toList :=
  unescapes_of_unescapeChars (decode_eq_ok_iff.mp h)

namespace Unescapes

variable {cs ds : List CodePoint}

theorem length_le (h : Unescapes cs ds) : ds.length ≤ cs.length := by
  induction h with
  | nil => exact le_rfl
  | keep c _ ih => exact Nat.succ_le_succ ih
  | letter _ _ ih => exact Nat.succ_le_succ (ih.trans (Nat.le_succ _))
  | code _ _ _ ih =>
    simp only [List.length_cons, List.length_append]
    omega

/-- Unescaping changes nothing unless it makes the text shorter. -/
theorem eq_of_length_le (h : Unescapes cs ds) (hlength : cs.length ≤ ds.length) : ds = cs := by
  induction h with
  | nil => rfl
  | keep c _ ih => rw [ih (Nat.le_of_succ_le_succ hlength)]
  | letter _ h =>
    have hrest := h.length_le
    simp only [List.length_cons] at hlength
    omega
  | code _ _ h =>
    have hrest := h.length_le
    simp only [List.length_cons, List.length_append] at hlength
    omega

/-- No colon gets lost. -/
theorem colon_mem (h : Unescapes cs ds) (hcolon : .char ':' ∈ cs) : .char ':' ∈ ds := by
  induction h with
  | nil => exact hcolon
  | keep c _ ih =>
    rcases List.mem_cons.mp hcolon with rfl | hcolon
    · exact List.mem_cons_self
    · exact List.mem_cons_of_mem _ (ih hcolon)
  | @letter d x _ _ hx _ ih =>
    have hd : ':' ≠ d := by
      rintro rfl
      cases hx
    exact List.mem_cons_of_mem _ (ih (by simpa [hd] using hcolon))
  | @code mark _ _ _ _ _ hmark hdigits _ ih =>
    have hmark' : ':' ≠ mark := by
      rintro rfl
      exact absurd hmark (by decide)
    have hcs := notMem_of_hexValues? hdigits
    exact List.mem_cons_of_mem _ (ih (by simpa [hmark', hcs] using hcolon))

end Unescapes

end Ontogram.NTriples

/-
The grammar of names.

A name is written `l` or `p:l`, with one or more name characters on either side of the colon. The label in force is the
one that is written, or else the domain; it has to be declared where there is a prefix map. Texts are resolved by this
grammar, except that one line feed behind a name is not seen:

* `nameCharacters`, `IsPart` — the alphabet of names, and their parts;
* `Means` — the texts of the grammar with the names that they mean;
* `resolve_eq_some_iff_means` — what a text is resolved to;
* `resolves_by_grammar_iff` — the texts that are resolved just as the grammar says.
-/
import Ontogram.Proofs.WrittenLabels
namespace Ontogram.Name

/-! ### The grammar -/

/-- The characters of names: ASCII digits and letters, the point, the underscore and the hyphen. -/
def nameCharacters : List CodePoint :=
  ("0123456789ABCDEFGHIJKLMNOPQRSTUVWXYZabcdefghijklmnopqrstuvwxyz._-" : Text).toList

/-- A part of a name: one or more of its characters. -/
def IsPart (s : Text) : Prop := s ≠ "" ∧ ∀ c ∈ s.toList, c ∈ nameCharacters

/-- A label may be used: it is declared, if there is a prefix map. -/
def IsUsable (declared : Option PrefixMap) (label : Text) : Prop :=
  ∀ namespaces ∈ declared, label ∈ Assoc.keys namespaces

/-- A text and the name that it means. A local part alone is one of the domain. -/
inductive Means (domain : Text) (declared : Option PrefixMap) : Text → Text → Prop
  | bare {l : Text} (hl : IsPart l) (hdomain : domain ≠ "") (husable : IsUsable declared domain) :
      Means domain declared l (domain ++ ":" ++ l)
  | labelled {p l : Text} (hp : IsPart p) (hl : IsPart l) (husable : IsUsable declared p) :
      Means domain declared (p ++ ":" ++ l) (p ++ ":" ++ l)

/-! ### Names by the grammar -/

theorem isNameChar_iff_mem {c : CodePoint} : isNameChar c = true ↔ c ∈ nameCharacters := by
  constructor
  · intro h
    -- the characters are ASCII, so there are few enough to go through
    have hascii : c.toNat < 128 := by
      simp only [isNameChar, Bool.or_eq_true, beq_iff_eq] at h
      rcases h with ((h | rfl) | rfl) | rfl
      · have hrange := Text.toNat_of_isAsciiAlphanumeric h
        omega
      all_goals decide
    have hall : ∀ n < 128, isNameChar (CodePoint.ofNat n) = true → CodePoint.ofNat n ∈ nameCharacters := by
      decide +kernel
    have hc := hall c.toNat hascii
    rw [CodePoint.ofNat_toNat] at hc
    exact hc h
  · have hall : nameCharacters.all isNameChar = true := by decide +kernel
    exact List.all_eq_true.mp hall c

theorem isPart_iff {s : Text} : IsPart s ↔ s ≠ "" ∧ IsNameText s := by
  simp only [IsPart, IsNameText, isNameChar_iff_mem]

theorem isUsable_iff {declared : Option PrefixMap} {label : Text} :
    IsUsable declared label ↔ declared.all (Assoc.has · label) = true := by
  cases declared with
  | none => simp [IsUsable]
  | some namespaces => simp [IsUsable, Assoc.has_iff_mem_keys]

variable {domain : Text} {declared : Option PrefixMap} {s name : Text}

/-- The grammar in terms of the label that is written, if there is one, and the local part. -/
theorem means_iff_spell :
    Means domain declared s name ↔
      ∃ own r, ((∀ l ∈ own, IsNameText l) ∧ IsNameText r ∧ s = spell own r) ∧ r ≠ "" ∧ own.getD domain ≠ "" ∧
        declared.all (Assoc.has · (own.getD domain)) = true ∧ name = own.getD domain ++ ":" ++ r := by
  constructor
  · rintro (⟨hl, hdomain, husable⟩ | ⟨hp, hl, husable⟩)
    · rw [isPart_iff] at hl
      exact ⟨none, _, ⟨by simp, hl.2, by simp [spell]⟩, hl.1, hdomain, isUsable_iff.mp husable, rfl⟩
    · rw [isPart_iff] at hp hl
      exact ⟨some _, _, ⟨by simpa using hp.2, hl.2, by simp [spell]⟩, hl.1, hp.1, isUsable_iff.mp husable, rfl⟩
  · rintro ⟨own, r, ⟨hown, hr, rfl⟩, hne, hlabel, hdeclared, rfl⟩
    cases own with
    | none =>
      rw [spell, Option.elim_none, Text.empty_append]
      exact .bare (isPart_iff.mpr ⟨hne, hr⟩) hlabel (isUsable_iff.mpr hdeclared)
    | some l =>
      exact .labelled (isPart_iff.mpr ⟨hlabel, hown l rfl⟩) (isPart_iff.mpr ⟨hne, hr⟩) (isUsable_iff.mpr hdeclared)

/-- No text of the grammar has a line feed. -/
theorem Means.feed_notMem (h : Means domain declared s name) : .char '\n' ∉ s.toList := by
  obtain ⟨own, r, ⟨hown, hr, rfl⟩, -⟩ := means_iff_spell.mp h
  intro hmem
  rcases mem_spell hown hr hmem with h | h <;> cases h

/-! ### Resolution -/

/-- What is resolved is the text without a line feed at its end. -/
theorem resolve_eq_some_iff_dropFinalBreak :
    resolve s domain declared = some name ↔
      ∃ t : Text, Text.dropFinalBreak s.toList = t.toList ∧ Means domain declared t name := by
  simp only [resolve_eq_some_iff, split_eq_some_iff_dropFinalBreak, means_iff_spell]
  constructor
  · rintro ⟨own, r, ⟨hown, hr, hs⟩, hname⟩
    exact ⟨spell own r, hs, own, r, ⟨hown, hr, rfl⟩, hname⟩
  · rintro ⟨t, hs, own, r, ⟨hown, hr, rfl⟩, hname⟩
    exact ⟨own, r, ⟨hown, hr, hs⟩, hname⟩

/-- A text is resolved to what it means, or to what it means without a line feed at its end. -/
theorem resolve_eq_some_iff_means :
    resolve s domain declared = some name ↔
      Means domain declared s name ∨ ∃ t, s = t ++ "\n" ∧ Means domain declared t name := by
  have hbreak {t : Text} (h : Means domain declared t name) :
      Text.dropFinalBreak s.toList = t.toList ↔ s = t ∨ s = t ++ "\n" := by
    have hlast : t.toList.getLast? ≠ some (.char '\n') := fun hlast => h.feed_notMem (List.mem_of_getLast? hlast)
    have hfeed : (t ++ "\n").toList = t.toList ++ [.char '\n'] := Text.toList_append
    rw [Text.dropFinalBreak_eq_iff hlast, ← hfeed, Text.toList_inj, Text.toList_inj]
  rw [resolve_eq_some_iff_dropFinalBreak]
  constructor
  · rintro ⟨t, hs, h⟩
    rcases (hbreak h).mp hs with rfl | hs
    · exact .inl h
    · exact .inr ⟨t, hs, h⟩
  · rintro (h | ⟨t, hs, h⟩)
    · exact ⟨s, (hbreak h).mpr (.inl rfl), h⟩
    · exact ⟨t, (hbreak h).mpr (.inr hs), h⟩

/-- **Names are resolved by the grammar, a final line feed apart.** Every text is resolved to the name that it means, or
that it means without one line feed at its end, and to nothing else; so it is resolved as the grammar says iff it is no
text of the grammar with a line feed behind it. -/
theorem resolves_by_grammar_iff (s domain : Text) (declared : Option PrefixMap) :
    (∀ name, resolve s domain declared = some name ↔
      Means domain declared s name ∨ ∃ t, s = t ++ "\n" ∧ Means domain declared t name) ∧
    ((∀ name, resolve s domain declared = some name ↔ Means domain declared s name) ↔
      ¬ ∃ t name, s = t ++ "\n" ∧ Means domain declared t name) := by
  refine ⟨fun name => resolve_eq_some_iff_means, ?_⟩
  constructor
  · rintro h ⟨t, name, rfl, hmeans⟩
    have hresolved := resolve_eq_some_iff_means.mpr (.inr ⟨t, rfl, hmeans⟩)
    exact ((h name).mp hresolved).feed_notMem (by simp)
  · intro h name
    rw [resolve_eq_some_iff_means]
    exact or_iff_left fun ⟨t, hs, hmeans⟩ => h ⟨t, name, hs, hmeans⟩

/-- A name with a line feed behind it is resolved, although it is no text of the grammar. -/
theorem resolves_final_feed :
    resolve "Movie\n" "test" none = some "test:Movie" ∧ ¬ Means "test" none "Movie\n" "test:Movie" := by
  refine ⟨by decide +kernel, fun h => h.feed_notMem (by decide)⟩

end Ontogram.Name

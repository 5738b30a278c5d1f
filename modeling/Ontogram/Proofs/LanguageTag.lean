/-
Language tags of notes and of N-Triples lines.

A label takes fewer tags for a language than the grammar of a line does, and either kind is read whole from
a line, up to the blank behind it:

* `IsTag` — the reader of lines takes the whole text for a tag;
* `isTag_of_languageTag?` — what that reader takes for a tag is one;
* `languageTag?_append` — a tag is read whole in front of whatever cannot belong to a tag;
* `isLanguageTag_iff`, `isTag_of_isNoteTag` — the tags of labels and notes, which are tags.
-/
import Ontogram.Label
import Ontogram.Proofs.LineReading
namespace Ontogram.NTriples

/-- The text is a language tag from its first character to its last. -/
def IsTag (tag : List CodePoint) : Prop := languageTag? tag = some (tag, [])

/-- The characters of tags. -/
def IsTagChar (c : CodePoint) : Prop := Text.isAsciiAlphanumeric c = true ∨ c = '-'

theorem IsTagChar.not_isBlank {c : CodePoint} (h : IsTagChar c) : Text.isBlank c = false := by
  rcases h with h | rfl
  · exact Text.isBlank_of_isAsciiAlphanumeric h
  · decide

/-- What follows does not continue a tag. -/
def EndsTag (rest : List CodePoint) : Prop :=
  ∀ c ∈ rest.head?, Text.isAsciiAlphanumeric c = false ∧ c ≠ '-'

theorem endsTag_nil : EndsTag [] := by simp [EndsTag]

/-! ### Subtags -/

theorem subtags_cons {c : CodePoint} (hc : Text.isAsciiAlphanumeric c = true) (rest : List CodePoint) :
    subtags (c :: rest) = (c :: (subtags rest).1, (subtags rest).2) := by
  rw [subtags.eq_def]
  simp only [hc, if_true]

theorem subtags_hyphen {d : CodePoint} (hd : Text.isAsciiAlphanumeric d = true) (rest : List CodePoint) :
    subtags (.char '-' :: d :: rest) = (.char '-' :: (subtags (d :: rest)).1, (subtags (d :: rest)).2) := by
  have hhyphen : Text.isAsciiAlphanumeric '-' = false := by decide
  rw [subtags.eq_def]
  simp [hhyphen, hd]

theorem subtags_of_endsTag {rest : List CodePoint} (h : EndsTag rest) : subtags rest = ([], rest) := by
  cases rest with
  | nil => rfl
  | cons c rest =>
    obtain ⟨hc, hhyphen⟩ := h c rfl
    rw [subtags.eq_def]
    simp [hc, hhyphen]

/-- Subtags are read again when something follows that does not continue them. -/
theorem subtags_eq {cs tags after : List CodePoint} (h : subtags cs = (tags, after)) :
    cs = tags ++ after ∧ (∀ c ∈ tags, IsTagChar c) ∧
      ∀ rest, EndsTag rest → subtags (tags ++ rest) = (tags, rest) := by
  induction cs generalizing tags after with
  | nil =>
    cases h
    exact ⟨rfl, by simp, fun rest hrest => subtags_of_endsTag hrest⟩
  | cons c rest ih =>
    have hsubtags : subtags rest = ((subtags rest).1, (subtags rest).2) := rfl
    obtain ⟨hsplit, htags, hread⟩ := ih hsubtags
    cases hc : Text.isAsciiAlphanumeric c with
    | true =>
      rw [subtags_cons hc] at h
      cases h
      refine ⟨by rw [List.cons_append, ← hsplit], List.forall_mem_cons.mpr ⟨.inl hc, htags⟩,
        fun more hmore => ?_⟩
      rw [List.cons_append, subtags_cons hc, hread more hmore]
    | false =>
      -- a hyphen goes on with the tag only in front of a letter or a digit
      by_cases hhyphen : ∃ d rest', c = '-' ∧ rest = d :: rest' ∧ Text.isAsciiAlphanumeric d = true
      · obtain ⟨d, rest', rfl, rfl, hd⟩ := hhyphen
        rw [subtags_hyphen hd] at h
        cases h
        refine ⟨by rw [List.cons_append, ← hsplit], List.forall_mem_cons.mpr ⟨.inr rfl, htags⟩,
          fun more hmore => ?_⟩
        have hread := hread more hmore
        rw [subtags_cons hd] at hread ⊢
        rw [List.cons_append, List.cons_append, subtags_hyphen hd, ← List.cons_append, hread]
      · have hstop : subtags (c :: rest) = ([], c :: rest) := by
          rw [subtags.eq_def]
          simp only [hc, Bool.false_eq_true, if_false]
          by_cases hc' : c = '-'
          · cases rest with
            | nil => simp [hc']
            | cons d rest' =>
              have hd : ¬ Text.isAsciiAlphanumeric d = true := fun hd => hhyphen ⟨d, rest', hc', rfl, hd⟩
              simp [hc', hd]
          · simp [hc']
        rw [hstop] at h
        cases h
        exact ⟨rfl, by simp, fun rest hrest => subtags_of_endsTag hrest⟩

/-- Letters and digits go on with the tag. -/
theorem subtags_append {run : List CodePoint} (h : ∀ c ∈ run, Text.isAsciiAlphanumeric c = true)
    (rest : List CodePoint) : subtags (run ++ rest) = (run ++ (subtags rest).1, (subtags rest).2) := by
  induction run with
  | nil => rfl
  | cons c run ih =>
    obtain ⟨hc, hrun⟩ := List.forall_mem_cons.mp h
    rw [List.cons_append, subtags_cons hc, ih hrun]
    rfl

/-! ### Tags -/

theorem isAsciiLetter_of_endsTag {rest : List CodePoint} (h : EndsTag rest) :
    ∀ c ∈ rest.head?, Text.isAsciiLetter c = false := by
  intro c hc
  have halpha := (h c hc).1
  rw [Text.isAsciiAlphanumeric, Bool.or_eq_false_iff] at halpha
  exact halpha.2

section Primary

variable {primary : List CodePoint} (hne : primary ≠ []) (hprimary : ∀ c ∈ primary, Text.isAsciiLetter c = true)

include hne hprimary

/-- A tag without subtags. -/
theorem languageTag?_primary {rest : List CodePoint} (hrest : EndsTag rest) :
    languageTag? (primary ++ rest) = some (primary, rest) := by
  have hspan : (primary ++ rest).span Text.isAsciiLetter = (primary, rest) := by
    cases rest with
    | nil => simp [List.span_eq_takeWhile_dropWhile, List.takeWhile_eq_self_iff.mpr hprimary,
        List.dropWhile_eq_nil_iff.mpr hprimary]
    | cons c rest => exact span_append hprimary (isAsciiLetter_of_endsTag hrest c rfl) rest
  have hempty : primary.isEmpty = false := by simpa using hne
  unfold languageTag?
  simp only [hspan, hempty]
  cases rest with
  | nil => rfl
  | cons c rest =>
    have hc : c ≠ '-' := (hrest c rfl).2
    simp [hc]

/-- A tag with subtags. -/
theorem languageTag?_hyphen (rest : List CodePoint) :
    languageTag? (primary ++ .char '-' :: rest) =
      some (primary ++ (subtags (.char '-' :: rest)).1, (subtags (.char '-' :: rest)).2) := by
  have hspan := span_append hprimary (x := '-') (by decide) rest
  have hempty : primary.isEmpty = false := by simpa using hne
  unfold languageTag?
  simp only [hspan, hempty]
  rfl

end Primary

theorem languageTag?_eq_some {cs tag after : List CodePoint} (h : languageTag? cs = some (tag, after)) :
    cs = tag ++ after ∧ (∀ c ∈ tag, IsTagChar c) ∧
      ∀ rest, EndsTag rest → languageTag? (tag ++ rest) = some (tag, rest) := by
  cases hspan : cs.span Text.isAsciiLetter with
  | mk primary more =>
    obtain ⟨rfl, hprimary, hmore⟩ := span_eq hspan
    have hletters : ∀ c ∈ primary, IsTagChar c := by
      intro c hc
      left
      rw [Text.isAsciiAlphanumeric, hprimary c hc, Bool.or_true]
    by_cases hne : primary = []
    · subst hne
      unfold languageTag? at h
      simp only [hspan, List.isEmpty_nil, if_true] at h
      cases h
    · by_cases hhyphen : ∃ rest, more = .char '-' :: rest
      · obtain ⟨rest, rfl⟩ := hhyphen
        rw [languageTag?_hyphen hne hprimary] at h
        have hsubtags : subtags (.char '-' :: rest) =
            ((subtags (.char '-' :: rest)).1, (subtags (.char '-' :: rest)).2) := rfl
        obtain ⟨hsplit, htags, hread⟩ := subtags_eq hsubtags
        cases h
        refine ⟨by rw [List.append_assoc, ← hsplit], List.forall_mem_append.mpr ⟨hletters, htags⟩,
          fun more hmore => ?_⟩
        have hread := hread more hmore
        cases htags : (subtags (.char '-' :: rest)).1 with
        | nil => simpa using languageTag?_primary hne hprimary hmore
        | cons c tags =>
          obtain rfl : '-' = c := by
            rw [htags] at hsplit
            exact (List.cons.inj hsplit).1
          rw [htags, List.cons_append] at hread
          rw [List.append_assoc, List.cons_append, languageTag?_hyphen hne hprimary, hread]
      · have hends : ∀ rest, more ≠ .char '-' :: rest := fun rest heq => hhyphen ⟨rest, heq⟩
        obtain ⟨rfl, rfl⟩ : primary = tag ∧ more = after := by
          have hempty : primary.isEmpty = false := by simpa using hne
          unfold languageTag? at h
          simp only [hspan, hempty] at h
          split at h
          · cases h
          · simpa using h
        exact ⟨rfl, hletters, fun rest hrest => languageTag?_primary hne hprimary hrest⟩

theorem isTag_of_languageTag? {cs tag after : List CodePoint} (h : languageTag? cs = some (tag, after)) :
    IsTag tag := by
  simpa [IsTag] using (languageTag?_eq_some h).2.2 [] endsTag_nil

theorem IsTag.ne_empty {tag : Text} (h : IsTag tag.toList) : tag ≠ "" := by
  rintro rfl
  cases h

theorem isTagChar_of_mem {tag : List CodePoint} (h : IsTag tag) : ∀ c ∈ tag, IsTagChar c :=
  (languageTag?_eq_some h).2.1

/-- A tag is read whole in front of what cannot belong to it. -/
theorem languageTag?_append {tag rest : List CodePoint} (h : IsTag tag) (hrest : EndsTag rest) :
    languageTag? (tag ++ rest) = some (tag, rest) :=
  (languageTag?_eq_some h).2.2 rest hrest

/-- A language that was read is a tag and stands without a datatype. -/
theorem language_of_readObject {cs rest : List CodePoint} {l : LiteralNode}
    (h : readObject cs = .ok (.literal l, rest)) :
    ∀ tag ∈ l.language, IsTag tag.toList ∧ l.datatype = none := by
  unfold readObject at h
  split at h
  · obtain ⟨_, _, -, -, -, hnode⟩ := readIri_eq_ok h
    cases hnode
  · unfold readNodeLabel at h
    split at h
    · split at h <;> cases h
    · cases h
  · obtain ⟨_, _, _, -, -, hnode | ⟨_, _, -, htag, hnode⟩ | ⟨_, _, _, -, -, -, -, hnode⟩⟩ :=
      readLiteral_eq_ok h
    · cases hnode.1
      rintro _ ⟨⟩
    · cases hnode
      rintro _ ⟨⟩
      rw [Text.toList_ofList]
      exact ⟨isTag_of_languageTag? htag, rfl⟩
    · cases hnode
      rintro _ ⟨⟩
  · cases h

/-! ### The tags of labels and notes -/

/-- Words of letters and digits behind hyphens are subtags. -/
theorem subtags_intercalate {words : List (List CodePoint)} (hne : words ≠ [])
    (h : ∀ w ∈ words, w ≠ [] ∧ ∀ c ∈ w, Text.isAsciiAlphanumeric c = true) :
    subtags (.char '-' :: [.char '-'].intercalate words) = (.char '-' :: [.char '-'].intercalate words, []) := by
  induction words with
  | nil => exact absurd rfl hne
  | cons w words ih =>
    obtain ⟨⟨hw, hall⟩, hwords⟩ := List.forall_mem_cons.mp h
    obtain ⟨d, w, rfl⟩ := List.exists_cons_of_ne_nil hw
    have hd := hall d List.mem_cons_self
    cases words with
    | nil =>
      have hread := subtags_append hall []
      rw [List.append_nil] at hread
      rw [List.intercalate_singleton, subtags_hyphen hd, hread]
      simp [subtags]
    | cons w' words =>
      have hread := subtags_append hall (.char '-' :: [.char '-'].intercalate (w' :: words))
      rw [ih (by simp) hwords] at hread
      have htext : [.char '-'].intercalate ((d :: w) :: w' :: words) =
          d :: w ++ .char '-' :: [.char '-'].intercalate (w' :: words) := by simp
      rw [htext, List.cons_append, subtags_hyphen hd, ← List.cons_append, hread]

/-- Two or three lower-case letters, and any number of words of letters and digits behind hyphens. -/
def IsNoteTag (tag : List CodePoint) : Prop :=
  ∃ primary words, (primary.length = 2 ∨ primary.length = 3) ∧ (∀ c ∈ primary, .char 'a' ≤ c ∧ c ≤ .char 'z') ∧
    (∀ w ∈ words, w ≠ [] ∧ ∀ c ∈ w, Text.isAsciiAlphanumeric c = true) ∧
      tag = [.char '-'].intercalate (primary :: words)

/-- The words stand behind a hyphen, if there are any. -/
theorem intercalate_cons (primary : List CodePoint) (words : List (List CodePoint)) :
    [.char '-'].intercalate (primary :: words) = primary ++ [.char '-'].intercalate ([] :: words) := by
  cases words <;> simp

theorem isLanguageTag_iff {cs : List CodePoint} : isLanguageTag cs = true ↔ IsNoteTag cs := by
  unfold isLanguageTag
  constructor
  · intro h
    cases hspan : cs.span fun c => .char 'a' ≤ c && c ≤ .char 'z' with
    | mk primary rest =>
      obtain ⟨rfl, hlower, -⟩ := span_eq hspan
      simp only [hspan, Bool.and_eq_true, Bool.or_eq_true, beq_iff_eq] at h
      obtain ⟨hlength, hrest⟩ := h
      have hprimary : ∀ c ∈ primary, .char 'a' ≤ c ∧ c ≤ .char 'z' := fun c hc => by simpa using hlower c hc
      rcases hrest with hempty | ⟨hhead, htail⟩
      · refine ⟨primary, [], hlength, hprimary, by simp, ?_⟩
        rw [List.isEmpty_iff.mp hempty, List.append_nil, List.intercalate_singleton]
      · obtain ⟨head, words, hwords⟩ := List.exists_cons_of_ne_nil (List.splitOn_ne_nil (.char '-') rest)
        have hrest : [.char '-'].intercalate (rest.splitOn (.char '-')) = rest :=
          List.intercalate_splitOn (CodePoint.char '-')
        rw [hwords] at hhead htail hrest
        obtain rfl : head = [] := by simpa using hhead
        refine ⟨primary, words, hlength, hprimary, fun w hw => ?_, ?_⟩
        · simpa using List.all_eq_true.mp htail w hw
        · rw [intercalate_cons, hrest]
  · rintro ⟨primary, words, hlength, hprimary, hwords, rfl⟩
    have hlower : ∀ c ∈ primary, (.char 'a' ≤ c && c ≤ .char 'z') = true := fun c hc => by simpa using hprimary c hc
    cases words with
    | nil =>
      rw [List.intercalate_singleton, List.span_eq_takeWhile_dropWhile, List.takeWhile_eq_self_iff.mpr hlower,
        List.dropWhile_eq_nil_iff.mpr hlower]
      simpa using hlength
    | cons w words =>
      have htext : [.char '-'].intercalate ([] :: w :: words) = .char '-' :: [.char '-'].intercalate (w :: words) := by
        simp
      have hsplit : ([.char '-'].intercalate ([] :: w :: words)).splitOn (.char '-') = [] :: w :: words := by
        refine List.splitOn_intercalate (CodePoint.char '-') (List.forall_mem_cons.mpr ⟨List.not_mem_nil, ?_⟩) (by simp)
        exact fun v hv hmem => absurd ((hwords v hv).2 (.char '-') hmem) (by decide)
      rw [htext] at hsplit
      rw [intercalate_cons, htext, span_append hlower (by decide)]
      simp only [hsplit]
      simpa [hlength] using hwords

theorem isTag_of_isNoteTag {cs : List CodePoint} (h : IsNoteTag cs) : IsTag cs := by
  obtain ⟨primary, words, hlength, hlower, hwords, rfl⟩ := h
  have hne : primary ≠ [] := by
    rintro rfl
    simp at hlength
  have hprimary : ∀ c ∈ primary, Text.isAsciiLetter c = true := fun c hc => by
    simp [Text.isAsciiLetter, hlower c hc]
  cases words with
  | nil =>
    have hplain := languageTag?_primary hne hprimary endsTag_nil
    rw [List.append_nil] at hplain
    rwa [List.intercalate_singleton]
  | cons w words =>
    have htext : [.char '-'].intercalate ([] :: w :: words) = .char '-' :: [.char '-'].intercalate (w :: words) := by
      simp
    rw [intercalate_cons, htext, IsTag, languageTag?_hyphen hne hprimary, subtags_intercalate (by simp) hwords]

end Ontogram.NTriples

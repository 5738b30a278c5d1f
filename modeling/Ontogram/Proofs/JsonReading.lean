/-
JSON values are read back from their text.

In every style that separates items by a comma, keys from values by a colon, and both perhaps by blanks, the
reader takes a value off the text that starts with it. By induction on the steps that the reader has left,
each level of a value takes no more of them than its text has characters:

* `HasDistinctKeys` — no object inside repeats a key; with a repeated key the first value would be lost;
* `IsReadable` — and no whole number inside is too long;
* `ReadsValue`, `ReadsItems`, `ReadsFields` — what the reader does within a number of steps, and
  `reads_of_fuel`, that it does so for all of them;
* `parse_text_append`, `parse_text` — the text of a value is read as the value, with or without blanks behind it.
-/
import Ontogram.Proofs.NumberReading
import Ontogram.Proofs.StringReading
namespace Ontogram.Json

/-- No object inside repeats a key. -/
inductive HasDistinctKeys : Json → Prop
  | null : HasDistinctKeys .null
  | bool (b : Bool) : HasDistinctKeys (.bool b)
  | int (n : Int) : HasDistinctKeys (.int n)
  | double (x : Double) : HasDistinctKeys (.double x)
  | str (s : Text) : HasDistinctKeys (.str s)
  | arr {items : List Json} (h : ∀ v ∈ items, HasDistinctKeys v) : HasDistinctKeys (.arr items)
  | obj {fields : Assoc Json} (hkeys : (Assoc.keys fields).Nodup)
      (h : ∀ e ∈ fields, HasDistinctKeys e.2) : HasDistinctKeys (.obj fields)

theorem hasDistinctKeys_arr_iff {items : List Json} :
    HasDistinctKeys (.arr items) ↔ ∀ v ∈ items, HasDistinctKeys v := by
  constructor
  · intro h
    cases h with
    | arr h => exact h
  · exact .arr

theorem hasDistinctKeys_obj_iff {fields : Assoc Json} :
    HasDistinctKeys (.obj fields) ↔ (Assoc.keys fields).Nodup ∧ ∀ e ∈ fields, HasDistinctKeys e.2 := by
  constructor
  · intro h
    cases h with
    | obj hkeys h => exact ⟨hkeys, h⟩
  · rintro ⟨hkeys, h⟩
    exact .obj hkeys h

theorem allItems_eq_all (scalar : Json → Bool) (key : Text → Bool) (items : List Json) :
    allItems scalar key items = items.all (all scalar key) := by
  induction items with
  | nil => rfl
  | cons v rest ih => rw [allItems, ih, List.all_cons]

theorem allFields_eq_all (scalar : Json → Bool) (key : Text → Bool) (fields : Assoc Json) :
    allFields scalar key fields = fields.all fun e => key e.1 && e.2.all scalar key := by
  induction fields with
  | nil => rfl
  | cons e rest ih =>
    obtain ⟨k, v⟩ := e
    rw [allFields, ih, List.all_cons, Bool.and_assoc]

theorem all_arr_iff {scalar : Json → Bool} {key : Text → Bool} {items : List Json} :
    (arr items).all scalar key = true ↔ ∀ v ∈ items, v.all scalar key = true := by
  rw [all, allItems_eq_all, List.all_eq_true]

theorem all_obj_iff {scalar : Json → Bool} {key : Text → Bool} {fields : Assoc Json} :
    (obj fields).all scalar key = true ↔ ∀ e ∈ fields, key e.1 = true ∧ e.2.all scalar key = true := by
  rw [all, allFields_eq_all, List.all_eq_true]
  simp only [Bool.and_eq_true]

/-- The text of the value is read: with a repeated key the first value would be lost, and a whole number that is
too long would not be taken. -/
structure IsReadable (v : Json) : Prop where
  keys : v.HasDistinctKeys
  short : v.hasShortNumbers = true

theorem isReadable_arr_iff {items : List Json} : (arr items).IsReadable ↔ ∀ v ∈ items, v.IsReadable := by
  constructor
  · intro h v hv
    exact ⟨hasDistinctKeys_arr_iff.mp h.keys v hv, all_arr_iff.mp h.short v hv⟩
  · intro h
    exact ⟨.arr fun v hv => (h v hv).keys, all_arr_iff.mpr fun v hv => (h v hv).short⟩

theorem isReadable_obj_iff {fields : Assoc Json} :
    (obj fields).IsReadable ↔ (Assoc.keys fields).Nodup ∧ ∀ e ∈ fields, e.2.IsReadable := by
  constructor
  · intro h
    obtain ⟨hkeys, hfields⟩ := hasDistinctKeys_obj_iff.mp h.keys
    exact ⟨hkeys, fun e he => ⟨hfields e he, (all_obj_iff.mp h.short e he).2⟩⟩
  · rintro ⟨hkeys, h⟩
    exact ⟨.obj hkeys fun e he => (h e he).keys, all_obj_iff.mpr fun e he => ⟨rfl, (h e he).short⟩⟩

/-- Only blanks stand beside the comma and the colon, and strings keep what they hold. -/
structure Style.IsReadable (style : Style) : Prop where
  comma : ∃ blanks, style.comma = .char ',' :: blanks ∧ ∀ c ∈ blanks, isSpace c = true
  colon : ∃ blanks, style.colon = .char ':' :: blanks ∧ ∀ c ∈ blanks, isSpace c = true
  ascii : style.ascii = false

theorem isReadable_compact : Style.compact.IsReadable :=
  ⟨⟨[], rfl, by simp⟩, ⟨[], rfl, by simp⟩, rfl⟩

variable {style : Style} {rest : List CodePoint} {depth fuel : Nat}

/-! ### Between tokens -/

theorem skipSpace_append {blanks : List CodePoint} (h : ∀ c ∈ blanks, isSpace c = true) (cs : List CodePoint) :
    skipSpace (blanks ++ cs) = skipSpace cs := List.dropWhile_append_of_pos h

theorem skipSpace_cons {c : CodePoint} (h : isSpace c = false) (cs : List CodePoint) :
    skipSpace (c :: cs) = c :: cs := by
  rw [skipSpace, List.dropWhile_cons, h]
  rfl

theorem isSpace_of_mem_lineBreak {c : CodePoint} (h : c ∈ style.lineBreak depth) : isSpace c = true := by
  unfold Style.lineBreak at h
  split at h
  · cases h
  · rcases List.mem_cons.mp h with rfl | h
    · rfl
    · rw [List.eq_of_mem_replicate h]
      rfl

/-- A line break in front of a token is skipped. -/
theorem skipSpace_lineBreak {c : CodePoint} (h : isSpace c = false) (cs : List CodePoint) :
    skipSpace (style.lineBreak depth ++ c :: cs) = c :: cs := by
  rw [skipSpace_append (fun _ hc => isSpace_of_mem_lineBreak hc), skipSpace_cons h]

theorem ne_of_isAsciiDigit {c d : CodePoint} (hc : Text.isAsciiDigit c = true)
    (hd : Text.isAsciiDigit d = false) : c ≠ d := by
  rintro rfl
  rw [hc] at hd
  cases hd

theorem isSpace_of_isAsciiDigit {c : CodePoint} (hc : Text.isAsciiDigit c = true) : isSpace c = false := by
  simp only [isSpace, Bool.or_eq_false_iff, beq_eq_false_iff_ne]
  exact ⟨⟨⟨ne_of_isAsciiDigit hc rfl, ne_of_isAsciiDigit hc rfl⟩, ne_of_isAsciiDigit hc rfl⟩,
    ne_of_isAsciiDigit hc rfl⟩

/-- A line break and the end of an array or an object end a number. -/
theorem endsNumber_lineBreak {c : CodePoint} (hc : EndsNumber (c :: rest)) :
    EndsNumber (style.lineBreak depth ++ c :: rest) := by
  unfold Style.lineBreak
  split
  · exact hc
  · intro d hd
    cases hd
    decide

theorem endsNumber_cons {c : CodePoint} (h : c = ',' ∨ c = ']' ∨ c = '}') (cs : List CodePoint) :
    EndsNumber (c :: cs) := by
  intro d hd
  cases hd
  rcases h with rfl | rfl | rfl <;> decide

/-- The start of a value: neither a blank nor the end of an array nor a mark of the byte order. -/
def StartsValue (cs : List CodePoint) : Prop :=
  ∃ c r, cs = c :: r ∧ isSpace c = false ∧ c ≠ ']' ∧ c ≠ '\uFEFF'

/-! ### Words and numbers -/

/-- What starts with no quote, bracket or brace and is no word is read as a number. -/
theorem readValue_number {c : CodePoint} (hquote : c ≠ '"') (hbracket : c ≠ '[') (hbrace : c ≠ '{')
    {cs : List CodePoint} {r : Json × List CodePoint} (hword : readWord? (c :: cs) = none)
    (hnumber : readNumber? (c :: cs) = some r) (hshort : r.1.isShort = true) :
    readValue (fuel + 1) (c :: cs) = .ok r := by
  rw [readValue, if_neg hquote, if_neg hbracket, if_neg hbrace, hword, hnumber]
  exact if_pos hshort

theorem readValue_word {word : List CodePoint} {v : Json} (h : (word, v) ∈ words) :
    readValue (fuel + 1) (word ++ rest) = .ok (v, rest) := by
  simp only [words, List.mem_cons, Prod.mk.injEq, List.not_mem_nil, or_false] at h
  rcases h with ⟨rfl, rfl⟩ | ⟨rfl, rfl⟩ | ⟨rfl, rfl⟩ | ⟨rfl, rfl⟩ | ⟨rfl, rfl⟩ | ⟨rfl, rfl⟩ <;>
    simp [readValue, readWord?, words]

theorem startsValue_word {word : List CodePoint} {v : Json} (h : (word, v) ∈ words) : StartsValue word := by
  simp only [words, List.mem_cons, Prod.mk.injEq, List.not_mem_nil, or_false] at h
  rcases h with ⟨rfl, rfl⟩ | ⟨rfl, rfl⟩ | ⟨rfl, rfl⟩ | ⟨rfl, rfl⟩ | ⟨rfl, rfl⟩ | ⟨rfl, rfl⟩ <;>
    exact ⟨_, _, rfl, by decide⟩

/-- No word starts with a digit, or with a minus sign before one. -/
theorem readWord?_digit {c : CodePoint} (hc : Text.isAsciiDigit c = true) (negative : Bool) (cs : List CodePoint) :
    readWord? ((if negative then [.char '-'] else []) ++ c :: cs) = none := by
  have hne : ∀ d, Text.isAsciiDigit d = false → c ≠ d := fun d hd => ne_of_isAsciiDigit hc hd
  cases negative <;>
    simp [readWord?, words, (hne 'n' rfl).symm, (hne 't' rfl).symm, (hne 'f' rfl).symm, (hne 'N' rfl).symm,
      (hne 'I' rfl).symm, (hne '-' rfl).symm]

theorem readValue_numeral {text : List CodePoint} {v : Json} (h : IsNumeral text v) (hshort : v.isShort = true)
    (hrest : EndsNumber rest) : readValue (fuel + 1) (text ++ rest) = .ok (v, rest) := by
  obtain ⟨n, hproper, rfl, rfl⟩ := h
  have hnumber := Numeral.readNumber?_spell hproper hrest
  obtain ⟨c, cs, hspell, hc⟩ := Numeral.spell_eq_cons hproper
  have hword := readWord?_digit hc n.negative (cs ++ rest)
  rw [hspell, List.append_assoc, List.cons_append] at hnumber ⊢
  cases hnegative : n.negative with
  | false =>
    rw [hnegative] at hnumber hword
    exact readValue_number (ne_of_isAsciiDigit hc rfl) (ne_of_isAsciiDigit hc rfl)
      (ne_of_isAsciiDigit hc rfl) hword hnumber hshort
  | true =>
    rw [hnegative] at hnumber hword
    exact readValue_number (by decide) (by decide) (by decide) hword hnumber hshort

theorem startsValue_numeral {text : List CodePoint} {v : Json} (h : IsNumeral text v) : StartsValue text := by
  obtain ⟨n, hproper, rfl, rfl⟩ := h
  obtain ⟨c, cs, hspell, hc⟩ := Numeral.spell_eq_cons hproper
  rw [hspell]
  cases n.negative with
  | false =>
    exact ⟨c, cs, rfl, isSpace_of_isAsciiDigit hc, ne_of_isAsciiDigit hc rfl, ne_of_isAsciiDigit hc rfl⟩
  | true => exact ⟨'-', c :: cs, rfl, by decide⟩

/-! ### Values, items and fields -/

/-- A value whose text is a word or a numeral. -/
def isScalar : Json → Bool
  | .null | .bool _ | .int _ | .double _ => true
  | _ => false

theorem write_of_isScalar {v : Json} (h : v.isScalar = true) :
    (write style depth v, v) ∈ words ∨ IsNumeral (write style depth v) v := by
  cases v with
  | null => exact .inl (by simp [words, write])
  | bool b => cases b <;> exact .inl (by simp [words, write])
  | int n =>
    rw [write]
    exact .inr (isNumeral_intText n)
  | double x =>
    rw [write]
    cases x with
    | notANumber => exact .inl (by simp [words, specialNames, Double.text])
    | infinite negative =>
      cases negative <;> exact .inl (by simp [words, specialNames, Double.text])
    | finite negative size => exact .inr (isNumeral_double negative size)
  | str s => cases h
  | arr items => cases h
  | obj fields => cases h

theorem readValue_scalar {v : Json} (h : v.isScalar = true) (hshort : v.isShort = true) (hrest : EndsNumber rest) :
    readValue (fuel + 1) (write style depth v ++ rest) = .ok (v, rest) := by
  rcases write_of_isScalar h with hword | hnumeral
  · exact readValue_word hword
  · exact readValue_numeral hnumeral hshort hrest

theorem startsValue_write (style : Style) (depth : Nat) (v : Json) :
    StartsValue (write style depth v) := by
  have hscalar : v.isScalar = true → StartsValue (write style depth v) := by
    intro h
    rcases write_of_isScalar h with hword | hnumeral
    · exact startsValue_word hword
    · exact startsValue_numeral hnumeral
  cases v with
  | str s =>
    rw [write]
    exact ⟨'"', _, rfl, by decide⟩
  | arr items =>
    cases items with
    | nil =>
      rw [write]
      exact ⟨'[', _, rfl, by decide⟩
    | cons v items =>
      rw [write]
      exact ⟨'[', _, rfl, by decide⟩
  | obj fields =>
    cases fields with
    | nil =>
      rw [write]
      exact ⟨'{', _, rfl, by decide⟩
    | cons e fields =>
      rw [write]
      exact ⟨'{', _, rfl, by decide⟩
  | null => exact hscalar rfl
  | bool b => exact hscalar rfl
  | int n => exact hscalar rfl
  | double x => exact hscalar rfl

/-- Blanks in front of a value are skipped, and no more. -/
theorem skipSpace_write {blanks : List CodePoint} (h : ∀ c ∈ blanks, isSpace c = true) (v : Json)
    (cs : List CodePoint) :
    skipSpace (blanks ++ (write style depth v ++ cs)) = write style depth v ++ cs := by
  obtain ⟨c, r, hc, hspace, -⟩ := startsValue_write style depth v
  rw [skipSpace_append h, hc, List.cons_append, skipSpace_cons hspace]

/-- Within this many steps a value is read that its text leaves two steps a character. -/
def ReadsValue (style : Style) (fuel : Nat) : Prop :=
  ∀ (v : Json) (depth : Nat) (rest : List CodePoint), v.IsReadable →
    2 * (write style depth v).length ≤ fuel → EndsNumber rest →
    readValue fuel (write style depth v ++ rest) = .ok (v, rest)

/-- The same of the items of an array, up to its end. -/
def ReadsItems (style : Style) (fuel : Nat) : Prop :=
  ∀ (v : Json) (items : List Json) (depth last : Nat) (rest : List CodePoint),
    (∀ w ∈ v :: items, w.IsReadable) →
    2 * ((write style depth v).length + (writeItems style depth items).length) < fuel →
    readItems fuel (write style depth v ++ (writeItems style depth items ++
      (style.lineBreak last ++ .char ']' :: rest))) = .ok (v :: items, rest)

/-- The same of the fields of an object, up to its end; their keys are new and differ from one another. -/
def ReadsFields (style : Style) (fuel : Nat) : Prop :=
  ∀ (k : Text) (v : Json) (fields before : Assoc Json) (depth last : Nat) (rest : List CodePoint),
    (∀ e ∈ (k, v) :: fields, e.2.IsReadable) →
    (Assoc.keys (before ++ (k, v) :: fields)).Nodup →
    2 * ((quoted style.ascii k).length + style.colon.length + (write style depth v).length +
      (writeFields style depth fields).length) < fuel →
    readFields fuel (quoted style.ascii k ++ (style.colon ++ (write style depth v ++
      (writeFields style depth fields ++ (style.lineBreak last ++ .char '}' :: rest))))) before =
        .ok (before ++ (k, v) :: fields, rest)

theorem readValue_bracket {c : CodePoint} (hspace : isSpace c = false) (hbracket : c ≠ ']') (cs : List CodePoint) :
    readValue (fuel + 1) (.char '[' :: (style.lineBreak depth ++ c :: cs)) =
      (readItems fuel (c :: cs)).map fun (items, r) => (.arr items, r) := by
  rw [readValue, if_neg (by decide), if_pos rfl, skipSpace_lineBreak hspace]
  split
  · rename_i heq
    exact absurd (List.cons.inj heq).1 hbracket
  · rfl

theorem readValue_brace (cs : List CodePoint) :
    readValue (fuel + 1) (.char '{' :: (style.lineBreak depth ++ .char '"' :: cs)) =
      (readFields fuel (.char '"' :: cs) []).map fun (fields, r) => (.obj fields, r) := by
  rw [readValue, if_neg (by decide), if_neg (by decide), if_pos rfl, skipSpace_lineBreak rfl]
  rfl

/-- A value is read from its items or its fields. -/
theorem readsValue_succ (hstyle : style.IsReadable) (hitems : ReadsItems style fuel)
    (hfields : ReadsFields style fuel) :
    ReadsValue style (fuel + 1) := by
  intro v depth rest hv hfuel hrest
  cases v with
  | null => exact readValue_scalar rfl rfl hrest
  | bool b => exact readValue_scalar rfl rfl hrest
  | int n => exact readValue_scalar rfl hv.short hrest
  | double x => exact readValue_scalar rfl rfl hrest
  | str s =>
    rw [write, quoted] at hfuel ⊢
    simp only [List.length_cons, List.length_append, List.length_nil] at hfuel
    rw [List.cons_append, List.append_assoc, List.singleton_append, readValue, if_pos rfl,
      readString_escape (by simp [hstyle.ascii]) (by omega)]
    rfl
  | arr items =>
    have h := isReadable_arr_iff.mp hv
    cases items with
    | nil =>
      rw [write]
      rfl
    | cons v items =>
      rw [write] at hfuel ⊢
      simp only [List.length_cons, List.length_append, List.length_nil] at hfuel
      obtain ⟨c, r, hc, hspace, hbracket, -⟩ := startsValue_write style (depth + 1) v
      have hread := hitems v items (depth + 1) depth rest h (by omega)
      rw [hc, List.cons_append] at hread
      rw [hc]
      simp only [List.cons_append, List.append_assoc, List.nil_append]
      rw [readValue_bracket hspace hbracket, hread]
      rfl
  | obj fields =>
    obtain ⟨hkeys, h⟩ := isReadable_obj_iff.mp hv
    cases fields with
    | nil =>
      rw [write]
      rfl
    | cons e fields =>
      obtain ⟨k, v⟩ := e
      rw [write] at hfuel ⊢
      simp only [List.length_cons, List.length_append, List.length_nil] at hfuel
      have hread := hfields k v fields [] (depth + 1) depth rest h hkeys (by omega)
      rw [quoted] at hread ⊢
      simp only [List.cons_append, List.append_assoc, List.nil_append] at hread ⊢
      rw [readValue_brace, hread]
      rfl

theorem readsItems_succ (hstyle : style.IsReadable) (hvalue : ReadsValue style fuel)
    (hitems : ReadsItems style fuel) : ReadsItems style (fuel + 1) := by
  intro v items depth last rest hkeys hfuel
  obtain ⟨hv, hrest⟩ := List.forall_mem_cons.mp hkeys
  have hbreak : ∀ c ∈ style.lineBreak depth, isSpace c = true := fun _ => isSpace_of_mem_lineBreak
  rw [readItems]
  cases items with
  | nil =>
    rw [writeItems, List.nil_append,
      hvalue _ _ _ hv (by omega) (endsNumber_lineBreak (endsNumber_cons (by simp) rest))]
    simp only [skipSpace_lineBreak (c := ']') rfl]
  | cons w items =>
    obtain ⟨blanks, hcomma, hblanks⟩ := hstyle.comma
    rw [writeItems, hcomma] at hfuel ⊢
    simp only [List.length_cons, List.length_append] at hfuel
    simp only [List.cons_append, List.append_assoc]
    rw [hvalue _ _ _ hv (by omega) (endsNumber_cons (by simp) _)]
    simp only [skipSpace_cons (c := ',') rfl, skipSpace_append hblanks, skipSpace_write hbreak]
    rw [hitems _ _ _ _ _ hrest (by omega)]
    rfl

theorem insert_of_notMem {k : Text} {entries : Assoc Json} (h : k ∉ Assoc.keys entries) (v : Json) :
    Assoc.insert k v entries = entries ++ [(k, v)] := by
  induction entries with
  | nil => rfl
  | cons e rest ih =>
    rw [Assoc.keys, List.map_cons, List.mem_cons, not_or] at h
    rw [Assoc.insert, if_neg h.1, ih h.2, List.cons_append]

theorem readsFields_succ (hstyle : style.IsReadable) (hvalue : ReadsValue style fuel)
    (hfields : ReadsFields style fuel) : ReadsFields style (fuel + 1) := by
  intro k v fields before depth last rest hreadable hkeys hfuel
  have hv : v.IsReadable := hreadable (k, v) List.mem_cons_self
  have hrest : ∀ e ∈ fields, e.2.IsReadable := fun e he => hreadable e (List.mem_cons_of_mem _ he)
  have hnew : k ∉ Assoc.keys before := by
    intro hk
    rw [Assoc.keys, List.map_append, List.map_cons] at hkeys
    exact (List.nodup_append.mp hkeys).2.2 k hk k List.mem_cons_self rfl
  obtain ⟨colonBlanks, hcolon, hcolonBlanks⟩ := hstyle.colon
  rw [quoted, hcolon] at hfuel ⊢
  simp only [List.length_cons, List.length_append, List.length_nil] at hfuel
  simp only [List.cons_append, List.append_assoc, List.nil_append]
  rw [readFields, readString_escape (by simp [hstyle.ascii]) (by omega)]
  simp only [skipSpace_cons (c := ':') rfl, skipSpace_write hcolonBlanks]
  cases fields with
  | nil =>
    rw [writeFields, List.nil_append,
      hvalue _ _ _ hv (by omega) (endsNumber_lineBreak (endsNumber_cons (by simp) rest))]
    simp only [skipSpace_lineBreak (c := '}') rfl, insert_of_notMem hnew]
  | cons e fields =>
    obtain ⟨l, w⟩ := e
    obtain ⟨blanks, hcomma, hblanks⟩ := hstyle.comma
    have hquote : ∀ cs, skipSpace (style.lineBreak depth ++ (quoted style.ascii l ++ cs)) =
        quoted style.ascii l ++ cs := fun cs => skipSpace_lineBreak rfl _
    rw [List.append_cons] at hkeys
    rw [writeFields, hcomma] at hfuel ⊢
    simp only [List.length_cons, List.length_append] at hfuel
    simp only [List.cons_append, List.append_assoc]
    rw [hvalue _ _ _ hv (by omega) (endsNumber_cons (by simp) _)]
    simp only [skipSpace_cons (c := ',') rfl, skipSpace_append hblanks, hquote, insert_of_notMem hnew]
    rw [hfields _ _ _ _ _ _ _ hrest hkeys (by rw [hcolon, List.length_cons]; omega), List.append_assoc,
      List.singleton_append]

/-- In every number of steps the reader does what is said of it. -/
theorem reads_of_fuel (hstyle : style.IsReadable) (fuel : Nat) :
    ReadsValue style fuel ∧ ReadsItems style fuel ∧ ReadsFields style fuel := by
  induction fuel with
  | zero =>
    refine ⟨?_, fun _ _ _ _ _ _ hfuel => absurd hfuel (Nat.not_lt_zero _),
      fun _ _ _ _ _ _ _ _ _ hfuel => absurd hfuel (Nat.not_lt_zero _)⟩
    intro v depth rest _ hfuel
    obtain ⟨c, r, hc, -⟩ := startsValue_write style depth v
    rw [hc, List.length_cons] at hfuel
    omega
  | succ fuel ih =>
    obtain ⟨hvalue, hitems, hfields⟩ := ih
    exact ⟨readsValue_succ hstyle hitems hfields, readsItems_succ hstyle hvalue hitems,
      readsFields_succ hstyle hvalue hfields⟩

/-! ### Whole texts -/

theorem endsNumber_of_isSpace {cs : List CodePoint} (h : ∀ c ∈ cs, isSpace c = true) : EndsNumber cs := by
  intro c hc
  have hspace := h c (List.mem_of_mem_head? hc)
  simp only [isSpace, Bool.or_eq_true, beq_iff_eq] at hspace
  rcases hspace with ((rfl | rfl) | rfl) | rfl <;> decide

/-- The text of a value is read as the value, with blanks behind it. -/
theorem parse_text_append (hstyle : style.IsReadable) {v : Json} (hv : v.IsReadable) {blanks : Text}
    (hblanks : ∀ c ∈ blanks.toList, isSpace c = true) : parse (v.text style ++ blanks) = .ok v := by
  obtain ⟨c, r, hc, hspace, -, hmark⟩ := startsValue_write style 0 v
  have hread := (reads_of_fuel hstyle (2 * (write style 0 v ++ blanks.toList).length + 1)).1 v 0 blanks.toList hv
    (by rw [List.length_append]; omega) (endsNumber_of_isSpace hblanks)
  have hend : skipSpace blanks.toList = [] := by
    rw [← List.append_nil blanks.toList, skipSpace_append hblanks]
    rfl
  rw [parse, text, Text.toList_append, Text.toList_ofList]
  rw [hc, List.cons_append] at hread ⊢
  rw [parseChars, skipSpace_cons hspace, hread]
  · simp only [hend]
    rfl
  · intro cs hcs
    exact hmark (List.cons.inj hcs).1

theorem parse_text (hstyle : style.IsReadable) {v : Json} (hv : v.IsReadable) :
    parse (v.text style) = .ok v := by
  have hread := parse_text_append hstyle hv (by simp : ∀ c ∈ ("" : Text).toList, isSpace c = true)
  rwa [Text.append_empty] at hread

end Ontogram.Json

/-
Texts.

A text is a sequence of code points. Besides the characters there are the halves of surrogate pairs: an escape
may name one that stands alone, and a text keeps it, but nothing written in UTF-8 can hold it.

* `CodePoint`, `Text` — code points and texts, in the order of their numbers;
* `Text.ofString` — the text of a string, so that literals stand for texts;
* `Text.toString?`, `Text.toUtf8?` — the string and the bytes of a text without such halves.
-/
namespace Ontogram

/-- A character, or one of the halves `U+D800` to `U+DFFF` of surrogate pairs. -/
inductive CodePoint where
  | char (c : Char)
  | half (index : Fin 0x800)
deriving DecidableEq

namespace CodePoint

instance : Coe Char CodePoint := ⟨.char⟩

def toNat : CodePoint → Nat
  | .char c => c.toNat
  | .half i => 0xD800 + i

/-- The code point of a number; one beyond Unicode counts as zero. -/
def ofNat (n : Nat) : CodePoint :=
  if h : 0xD800 ≤ n ∧ n < 0xE000 then .half ⟨n - 0xD800, by omega⟩ else .char (Char.ofNat n)

instance : LT CodePoint := ⟨fun a b => a.toNat < b.toNat⟩

instance : LE CodePoint := ⟨fun a b => a.toNat ≤ b.toNat⟩

instance (a b : CodePoint) : Decidable (a < b) := inferInstanceAs (Decidable (a.toNat < b.toNat))

instance (a b : CodePoint) : Decidable (a ≤ b) := inferInstanceAs (Decidable (a.toNat ≤ b.toNat))

theorem le_def {a b : CodePoint} : a ≤ b ↔ a.toNat ≤ b.toNat := Iff.rfl

@[simp]
theorem toNat_char (c : Char) : (char c).toNat = c.toNat := rfl

/-- Characters lie below or above the halves. -/
theorem toNat_char_lt_or (c : Char) : c.toNat < 0xD800 ∨ 0xE000 ≤ c.toNat := by
  rcases c.valid with h | h
  · exact .inl h
  · exact .inr (Nat.succ_le_of_lt h.1)

theorem toNat_lt (a : CodePoint) : a.toNat < 0x110000 := by
  cases a with
  | char c =>
    rcases c.valid with h | h
    · exact Nat.lt_trans h (by decide)
    · exact h.2
  | half i =>
    have hi := i.isLt
    simp only [toNat]
    omega

theorem toNat_inj {a b : CodePoint} : a.toNat = b.toNat ↔ a = b := by
  constructor
  · intro h
    cases a with
    | char c =>
      cases b with
      | char d => rw [Char.toNat_inj.mp h]
      | half j =>
        have hc := toNat_char_lt_or c
        have hj := j.isLt
        simp only [toNat] at h
        omega
    | half i =>
      cases b with
      | char d =>
        have hd := toNat_char_lt_or d
        have hi := i.isLt
        simp only [toNat] at h
        omega
      | half j => rw [Fin.ext (Nat.add_left_cancel h)]
  · rintro rfl
    rfl

@[simp]
theorem ofNat_toNat (c : CodePoint) : ofNat c.toNat = c := by
  cases c with
  | char c =>
    have hc := toNat_char_lt_or c
    rw [ofNat, dif_neg (by rw [toNat_char]; omega), toNat_char, Char.ofNat_toNat]
  | half i =>
    have hi := i.isLt
    rw [ofNat, dif_pos (by simp only [toNat]; omega)]
    simp [toNat]

/-- Only characters are written in UTF-8. -/
def isChar : CodePoint → Bool
  | .char _ => true
  | .half _ => false

def char? : CodePoint → Option Char
  | .char c => some c
  | .half _ => none

end CodePoint

/-- A sequence of code points. -/
structure Text where
  ofList ::
  toList : List CodePoint
deriving DecidableEq

namespace Text

def ofString (s : String) : Text := ⟨s.toList.map .char⟩

instance : Coe String Text := ⟨ofString⟩

instance : Inhabited Text := ⟨""⟩

/-- Texts are ordered by the numbers of their code points. -/
instance : LT Text := ⟨fun s t => s.toList < t.toList⟩

instance : LE Text := ⟨fun s t => s.toList ≤ t.toList⟩

instance (s t : Text) : Decidable (s < t) := inferInstanceAs (Decidable (s.toList < t.toList))

instance (s t : Text) : Decidable (s ≤ t) := inferInstanceAs (Decidable (s.toList ≤ t.toList))

instance : Ord Text := ⟨fun s t => compareOfLessAndEq s t⟩

protected def append (s t : Text) : Text := ⟨s.toList ++ t.toList⟩

instance : Append Text := ⟨Text.append⟩

def isEmpty (s : Text) : Bool := s.toList.isEmpty

def length (s : Text) : Nat := s.toList.length

def singleton (c : CodePoint) : Text := ⟨[c]⟩

def join (ts : List Text) : Text := ⟨ts.flatMap toList⟩

def intercalate (separator : Text) (ts : List Text) : Text :=
  ⟨separator.toList.intercalate (ts.map toList)⟩

/-- The decimal digits of a number. -/
def decimalDigits (n : Nat) : List CodePoint := (Nat.toDigits 10 n).map .char

def ofNat (n : Nat) : Text := ⟨decimalDigits n⟩

/-- The most digits that a whole number from outside may have to be read or written. -/
def digitLimit : Nat := 4300

/-- No half of a pair stands alone in it. -/
def isEncodable (s : Text) : Bool := s.toList.all CodePoint.isChar

/-- The string of a text, if no half of a pair stands alone in it. -/
def toString? (s : Text) : Option String := (s.toList.mapM CodePoint.char?).map String.ofList

def toUtf8? (s : Text) : Option ByteArray := s.toString?.map String.toUTF8

def ofUtf8? (bytes : ByteArray) : Option Text := (String.fromUTF8? bytes).map ofString

/-! ### Code points of texts -/

theorem toList_ofList (cs : List CodePoint) : (ofList cs).toList = cs := rfl

@[simp]
theorem ofList_toList (s : Text) : ofList s.toList = s := rfl

@[simp]
theorem toList_inj {s t : Text} : s.toList = t.toList ↔ s = t :=
  ⟨fun h => congrArg ofList h, congrArg toList⟩

theorem ofList_injective : Function.Injective ofList := fun _ _ h => congrArg toList h

@[simp]
theorem toList_ofString (s : String) : (ofString s).toList = s.toList.map .char := rfl

@[simp]
theorem ofString_inj {s t : String} : ofString s = ofString t ↔ s = t := by
  constructor
  · intro h
    have hmap : s.toList.map CodePoint.char = t.toList.map CodePoint.char := congrArg toList h
    exact String.toList_inj.mp ((List.map_inj_right fun _ _ h => CodePoint.char.inj h).mp hmap)
  · rintro rfl
    rfl

@[simp]
theorem toList_eq_nil_iff {s : Text} : s.toList = [] ↔ s = "" := toList_inj (t := "")

@[simp]
theorem isEmpty_iff {s : Text} : s.isEmpty = true ↔ s = "" :=
  List.isEmpty_iff.trans toList_eq_nil_iff

@[simp]
theorem isEmpty_eq_false_iff {s : Text} : s.isEmpty = false ↔ s ≠ "" := by
  rw [← Bool.not_eq_true, isEmpty_iff]

@[simp]
theorem length_toList {s : Text} : s.toList.length = s.length := rfl

@[simp]
theorem toList_append {s t : Text} : (s ++ t).toList = s.toList ++ t.toList := rfl

@[simp]
theorem ofString_append (s t : String) : ofString (s ++ t) = ofString s ++ ofString t := by
  rw [← toList_inj, toList_append, toList_ofString, String.toList_append, List.map_append]
  rfl

@[simp]
theorem isEncodable_append (s t : Text) : (s ++ t).isEncodable = (s.isEncodable && t.isEncodable) := List.all_append

@[simp]
theorem length_append (s t : Text) : (s ++ t).length = s.length + t.length := List.length_append

theorem append_assoc (s t u : Text) : s ++ t ++ u = s ++ (t ++ u) :=
  toList_inj.mp (List.append_assoc s.toList t.toList u.toList)

@[simp]
theorem empty_append {s : Text} : "" ++ s = s := rfl

@[simp]
theorem append_empty {s : Text} : s ++ "" = s := toList_inj.mp (List.append_nil s.toList)

@[simp]
theorem append_right_inj {s t : Text} (u : Text) : u ++ s = u ++ t ↔ s = t := by
  rw [← toList_inj, toList_append, toList_append, List.append_right_inj, toList_inj]

@[simp]
theorem append_left_inj {s t : Text} (u : Text) : s ++ u = t ++ u ↔ s = t := by
  rw [← toList_inj, toList_append, toList_append, List.append_left_inj, toList_inj]

theorem append_ofString_append (s : Text) (t u : String) :
    s ++ ofString t ++ ofString u = s ++ ofString (t ++ u) := by
  rw [append_assoc, ofString_append]

@[simp]
theorem toList_intercalate (separator : Text) (ts : List Text) :
    (intercalate separator ts).toList = separator.toList.intercalate (ts.map toList) := rfl

theorem intercalate_singleton (separator s : Text) : intercalate separator [s] = s := by
  rw [← toList_inj, toList_intercalate, List.map_singleton, List.intercalate_singleton]

theorem intercalate_cons_cons (separator s t : Text) (ts : List Text) :
    intercalate separator (s :: t :: ts) = s ++ separator ++ intercalate separator (t :: ts) := by
  rw [← toList_inj, toList_append, toList_append, toList_intercalate, toList_intercalate, List.map_cons, List.map_cons,
    List.intercalate_cons_cons]

@[simp]
theorem toList_ofNat (n : Nat) : (ofNat n).toList = decimalDigits n := rfl

theorem join_cons {s : Text} {ts : List Text} : join (s :: ts) = s ++ join ts := rfl

theorem decimalDigits_inj {m n : Nat} (h : decimalDigits m = decimalDigits n) : m = n := by
  have hdigits := (List.map_inj_right fun _ _ h => CodePoint.char.inj h).mp h
  rw [← Nat.ofDigitChars_ten_toDigits (n := m), hdigits, Nat.ofDigitChars_ten_toDigits]

theorem decimalDigits_ne_nil {n : Nat} : decimalDigits n ≠ [] := by
  rw [decimalDigits, ne_eq, List.map_eq_nil_iff]
  exact Nat.toDigits_ne_nil

/-! ### Texts and strings -/

theorem toString?_ofString (t : String) : (ofString t).toString? = some t := by
  have hchars (cs : List Char) : (cs.map CodePoint.char).mapM CodePoint.char? = some cs := by
    induction cs with
    | nil => rfl
    | cons c cs ih => simp [CodePoint.char?, ih]
  rw [toString?, toList_ofString, hchars, Option.map_some, String.ofList_toList]

@[simp]
theorem isEncodable_ofString (t : String) : (ofString t).isEncodable = true := by
  rw [isEncodable, toList_ofString, List.all_map]
  exact List.all_eq_true.mpr fun _ _ => rfl

/-- The texts that can be written in UTF-8 are those of strings. -/
theorem isEncodable_iff {s : Text} : s.isEncodable = true ↔ ∃ t, s = ofString t := by
  constructor
  · intro h
    rw [isEncodable, List.all_eq_true] at h
    have hchars (cs : List CodePoint) (hcs : ∀ c ∈ cs, c.isChar = true) : ∃ ds : List Char, cs = ds.map .char := by
      induction cs with
      | nil => exact ⟨[], rfl⟩
      | cons c cs ih =>
        obtain ⟨ds, rfl⟩ := ih fun d hd => hcs d (List.mem_cons_of_mem c hd)
        cases c with
        | char d => exact ⟨d :: ds, rfl⟩
        | half i => cases hcs _ List.mem_cons_self
    obtain ⟨ds, hds⟩ := hchars s.toList h
    exact ⟨String.ofList ds, toList_inj.mp (by rw [hds, toList_ofString, String.toList_ofList])⟩
  · rintro ⟨t, rfl⟩
    exact isEncodable_ofString t

theorem toString?_eq_some_iff {s : Text} {t : String} : s.toString? = some t ↔ s = ofString t := by
  constructor
  · intro h
    have hchars (cs : List CodePoint) (ds : List Char) (hcs : cs.mapM CodePoint.char? = some ds) :
        cs = ds.map .char := by
      induction cs generalizing ds with
      | nil =>
        cases hcs
        rfl
      | cons c cs ih =>
        cases c with
        | char d =>
          simp only [List.mapM_cons, CodePoint.char?, Option.pure_def, Option.bind_eq_bind, Option.bind_some,
            Option.bind_eq_some_iff, Option.some.injEq] at hcs
          obtain ⟨es, hes, rfl⟩ := hcs
          rw [ih es hes, List.map_cons]
        | half i => simp [CodePoint.char?] at hcs
    obtain ⟨ds, hds, rfl⟩ := Option.map_eq_some_iff.mp h
    exact toList_inj.mp (by rw [hchars _ _ hds, toList_ofString, String.toList_ofList])
  · rintro rfl
    exact toString?_ofString t

theorem toUtf8?_eq_some_iff {s : Text} {bytes : ByteArray} :
    s.toUtf8? = some bytes ↔ ∃ t, s = ofString t ∧ t.toUTF8 = bytes := by
  rw [toUtf8?, Option.map_eq_some_iff]
  simp only [toString?_eq_some_iff]

theorem ofUtf8?_toUTF8 (t : String) : ofUtf8? t.toUTF8 = some (ofString t) := by
  have hdecoded : String.fromUTF8? t.toUTF8 = some t := dif_pos t.isValidUTF8
  rw [ofUtf8?, hdecoded, Option.map_some]

end Text

end Ontogram

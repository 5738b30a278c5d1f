/-
What the page shows.

A page is sent in UTF-8. Values inside others are shown with everything escaped that is not printable, so only the
ids of the documents, and a text that stands by itself in the scene, can keep a page from being sent:

* `all_isChar_displayInner` — a value inside another one is shown in characters;
* `isEncodable_display` — a text by itself is shown as it is;
* `isEncodable_page` — the pages that UTF-8 has;
* `IsSendable` — documents and a scene whose page can be sent.
-/
import Ontogram.Proofs.PiecewiseText
import Ontogram.Service.Page
namespace Ontogram

namespace Text

/-- Lines and what stands between them make up a text of characters iff they are such. -/
theorem isEncodable_intercalate {separator : Text} (h : separator.isEncodable = true) (ts : List Text) :
    (intercalate separator ts).isEncodable = ts.all isEncodable := by
  induction ts with
  | nil => rfl
  | cons t rest ih =>
    cases rest with
    | nil => rw [intercalate_singleton, List.all_cons, List.all_nil, Bool.and_true]
    | cons u rest =>
      rw [intercalate_cons_cons, isEncodable_append, isEncodable_append, h, Bool.and_true, ih]
      rfl

/-- Halves of surrogate pairs are not printable. -/
theorem isChar_of_isPrintable {c : CodePoint} (h : isPrintable c = true) : c.isChar = true := by
  cases c with
  | char d => rfl
  | half i =>
    have hrange : (0xD7FC, 0xF8FF) ∈ unprintableRanges := by decide
    have hi := i.isLt
    rcases Bool.or_eq_true_iff.mp (List.all_eq_true.mp h _ hrange) with hbelow | habove
    · have hlt : 0xD800 + i.val < 0xD7FC := of_decide_eq_true hbelow
      omega
    · have hlt : 0xF8FF < 0xD800 + i.val := of_decide_eq_true habove
      omega

theorem all_isChar_hex4 (n : Nat) : (hex4 n).all CodePoint.isChar = true := by
  have hdigit : ∀ k < 16, (hexDigit k).isChar = true := by decide
  simp only [hex4, List.all_cons, List.all_nil, Bool.and_true, Bool.and_eq_true]
  exact ⟨hdigit _ (by omega), hdigit _ (by omega), hdigit _ (by omega), hdigit _ (by omega)⟩

end Text

namespace Service.Page

open Text (isChar_of_isPrintable all_isChar_hex4 isEncodable_intercalate isEncodable_append)

/-! ### Values inside others -/

theorem all_isChar_codeEscape (n : Nat) : (codeEscape n).all CodePoint.isChar = true := by
  have hdigit : ∀ k < 16, (Text.hexDigit k).isChar = true := by decide
  unfold codeEscape
  split
  · simp only [List.all_cons, List.all_nil, Bool.and_true, Bool.and_eq_true]
    exact ⟨rfl, rfl, hdigit _ (by omega), hdigit _ (by omega)⟩
  · split
    · rw [List.all_cons, List.all_cons, all_isChar_hex4]
      rfl
    · rw [List.all_cons, List.all_cons, List.all_append, all_isChar_hex4, all_isChar_hex4]
      rfl

theorem all_isChar_quoted (s : Text) : (quoted s).all CodePoint.isChar = true := by
  -- whatever the quote is, what is neither escaped nor printable is written as its code
  have hescaped (quote : Char) (c : CodePoint) :
      (if c = .char quote ∨ c = .char '\\' then [.char '\\', c]
        else if c = .char '\n' then [.char '\\', .char 'n']
        else if c = .char '\r' then [.char '\\', .char 'r']
        else if c = .char '\t' then [.char '\\', .char 't']
        else if Text.isPrintable c then [c]
        else codeEscape c.toNat).all CodePoint.isChar = true := by
    split_ifs with hquote hfeed hreturn htab hprintable
    · rcases hquote with rfl | rfl <;> rfl
    · rfl
    · rfl
    · rfl
    · rw [List.all_cons, isChar_of_isPrintable hprintable]
      rfl
    · exact all_isChar_codeEscape _
  unfold quoted
  simp only [List.all_cons, List.all_append, List.all_flatMap, List.all_nil, Bool.and_true]
  exact Bool.and_eq_true_iff.mpr
    ⟨rfl, Bool.and_eq_true_iff.mpr ⟨List.all_eq_true.mpr fun c _ => hescaped _ c, rfl⟩⟩

theorem all_isChar_numeral {text : List CodePoint} {v : Json} (h : Json.IsNumeral text v) :
    text.all CodePoint.isChar = true :=
  List.all_eq_true.mpr fun c hc => Json.isChar_of_isMark (List.all_eq_true.mp (Json.all_isMark_numeral h) c hc)

mutual

/-- A value inside another one is shown in characters. -/
theorem all_isChar_displayInner (v : Json) : (displayInner v).all CodePoint.isChar = true := by
  match v with
  | .null => rfl
  | .bool true => rfl
  | .bool false => rfl
  | .int n => exact all_isChar_numeral (Json.isNumeral_intText n)
  | .double .notANumber => rfl
  | .double (.infinite true) => rfl
  | .double (.infinite false) => rfl
  | .double (.finite negative size) => exact all_isChar_numeral (Json.isNumeral_double negative size)
  | .str s => exact all_isChar_quoted s
  | .arr items =>
    rw [displayInner, List.all_cons, List.all_append, all_isChar_displayItems items]
    rfl
  | .obj fields =>
    rw [displayInner, List.all_cons, List.all_append, all_isChar_displayFields fields]
    rfl

theorem all_isChar_displayItems (items : List Json) : (displayItems items).all CodePoint.isChar = true := by
  match items with
  | [] => rfl
  | [v] => exact all_isChar_displayInner v
  | v :: w :: rest =>
    rw [displayItems, List.all_append, List.all_append, all_isChar_displayInner v, all_isChar_displayItems (w :: rest)]
    · rfl
    · simp

theorem all_isChar_displayFields (fields : List (Text × Json)) :
    (displayFields fields).all CodePoint.isChar = true := by
  match fields with
  | [] => rfl
  | [(k, v)] =>
    rw [displayFields, List.all_append, List.all_append, all_isChar_quoted, all_isChar_displayInner v]
    rfl
  | (k, v) :: e :: rest =>
    rw [displayFields, List.all_append, List.all_append, List.all_append, List.all_append, all_isChar_quoted,
      all_isChar_displayInner v, all_isChar_displayFields (e :: rest)]
    · rfl
    · simp

end

/-! ### The page -/

/-- Is there anything to show that stands by itself and cannot be sent? -/
theorem isEncodable_display (v? : Option Json) :
    (display v?).isEncodable = true ↔ ∀ s, v? = some (.str s) → s.isEncodable = true := by
  unfold display
  split
  · exact iff_of_true rfl (by rintro _ ⟨⟩)
  · simp
  · rename_i v hv
    exact iff_of_true (all_isChar_displayInner v) fun s hs => absurd (Option.some.inj hs) (hv s)

theorem isEncodable_escapeText (s : Text) : (escapeText s).isEncodable = s.isEncodable := by
  have hchar (c : CodePoint) : (escapeChar c).all CodePoint.isChar = c.isChar := by
    unfold escapeChar
    split_ifs with hamp hlt hgt hquote hdouble
    · rw [hamp]; rfl
    · rw [hlt]; rfl
    · rw [hgt]; rfl
    · rw [hquote]; rfl
    · rw [hdouble]; rfl
    · exact Bool.and_true _
  rw [escapeText, Text.isEncodable, Text.toList_ofList, List.all_flatMap, Text.isEncodable]
  simp only [hchar]

/-- A key is shown in a text of characters iff it is the name of a field in one. -/
theorem isEncodable_display_key (key : Key) :
    (display (some key.toJson)).isEncodable = key.fieldName.isEncodable := by
  have hscalar {v : Json} (hv : ∀ s, v ≠ .str s) (hencodable : v.isEncodable = true) :
      (display (some v)).isEncodable = (v.text .compact).isEncodable := by
    rw [Json.isEncodable_text Json.isMarked_compact rfl, hencodable, isEncodable_display]
    exact fun s hs => absurd (Option.some.inj hs) (hv s)
  cases key with
  | text s => rfl
  | null => exact hscalar (by simp [Key.toJson]) rfl
  | bool b => exact hscalar (by simp [Key.toJson]) rfl
  | int n => exact hscalar (by simp [Key.toJson]) rfl
  | double x => exact hscalar (by simp [Key.toJson]) rfl

theorem isEncodable_row (key : Key) (l : Listing) :
    (row key l).all Text.isEncodable = key.fieldName.isEncodable := by
  have hcount : (Text.ofNat l.elements).isEncodable = true := by
    rw [Text.ofNat, Text.isEncodable, Text.decimalDigits, List.all_map]
    exact List.all_eq_true.mpr fun _ _ => rfl
  simp [row, isEncodable_escapeText, isEncodable_display_key, hcount]

theorem isEncodable_sceneLine (scene : Entries) : (sceneLine scene).isEncodable = true ↔
    ∀ name ∈ (["x", "y", "k"] : List Text), ∀ s, scene.lookup (.text name) = some (.str s) → s.isEncodable = true := by
  simp [sceneLine, isEncodable_escapeText, isEncodable_display, and_assoc]

/-- What the page shows can be sent: no whole number is too long, and every id and every text that stands by itself in
the scene is one of characters. -/
structure IsSendable (keys : List Key) (scene : Entries) : Prop where
  showable : isShowable scene = true
  ids : ∀ key ∈ keys, key.fieldName.isEncodable = true
  texts : ∀ name ∈ (["x", "y", "k"] : List Text), ∀ s, scene.lookup (.text name) = some (.str s) → s.isEncodable = true

/-- UTF-8 has a page iff it has the ids, and the texts that stand by themselves in the scene. -/
theorem isEncodable_page (documents : List (Key × Listing)) (scene : Entries) :
    (page documents scene).isEncodable = true ↔ (∀ e ∈ documents, e.1.fieldName.isEncodable = true) ∧
      ∀ name ∈ (["x", "y", "k"] : List Text), ∀ s, scene.lookup (.text name) = some (.str s) →
        s.isEncodable = true := by
  have hrows : (if documents.isEmpty then emptyRow else documents.flatMap fun e => row e.1 e.2).all
      Text.isEncodable = documents.all fun e => e.1.fieldName.isEncodable := by
    cases documents with
    | nil => simp [emptyRow]
    | cons e rest =>
      show ((e :: rest).flatMap fun e => row e.1 e.2).all Text.isEncodable = _
      rw [List.all_flatMap]
      simp only [isEncodable_row]
  have hopening : opening.all Text.isEncodable = true := by simp [opening]
  have htable : tableOpening.all Text.isEncodable = true := by simp [tableOpening]
  have hclosing : closing.all Text.isEncodable = true := by simp [closing]
  have hpage : page documents scene = Text.intercalate "\n" (opening ++ [sceneLine scene] ++ tableOpening ++
      (if documents.isEmpty then emptyRow else documents.flatMap fun e => row e.1 e.2) ++ [("      " : Text)] ++
      closing) := rfl
  rw [hpage, isEncodable_intercalate rfl, ← isEncodable_sceneLine]
  simp only [List.all_append, hopening, htable, hclosing, hrows, List.all_cons, List.all_nil,
    Text.isEncodable_ofString, Bool.and_true, Bool.true_and, Bool.and_eq_true, List.all_eq_true]
  exact and_comm

end Service.Page

end Ontogram

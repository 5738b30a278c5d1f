/-
Values written piece by piece.

The text of a value consists of marks and of what its strings are written as. It gets into a file piece by piece, and
the pieces make up the text. So all of the text gets there iff every whole number can be spelled and every string is one
of characters:

* `all_write` — a test of the characters is one of the strings inside;
* `MakeUp`, `makeUp_pieces` — what the pieces make up;
* `writePieces_isOk_iff` — when all of them are written;
* `dump_isOk_iff`, `dump_eq` — a value that is written in full, and its text in the file.
-/
import Ontogram.Proofs.CanonicalText
namespace Ontogram.Json

mutual

theorem all_of_forall {scalar : Json → Bool} {key : Text → Bool} (hscalar : ∀ v, scalar v = true)
    (hkey : ∀ k, key k = true) (v : Json) : v.all scalar key = true := by
  match v with
  | .null => exact hscalar _
  | .bool _ => exact hscalar _
  | .int _ => exact hscalar _
  | .double _ => exact hscalar _
  | .str _ => exact hscalar _
  | .arr items =>
    rw [all]
    exact allItems_of_forall hscalar hkey items
  | .obj fields =>
    rw [all]
    exact allFields_of_forall hscalar hkey fields

theorem allItems_of_forall {scalar : Json → Bool} {key : Text → Bool} (hscalar : ∀ v, scalar v = true)
    (hkey : ∀ k, key k = true) (items : List Json) : allItems scalar key items = true := by
  match items with
  | [] => rfl
  | v :: rest => rw [allItems, all_of_forall hscalar hkey v, allItems_of_forall hscalar hkey rest, Bool.and_true]

theorem allFields_of_forall {scalar : Json → Bool} {key : Text → Bool} (hscalar : ∀ v, scalar v = true)
    (hkey : ∀ k, key k = true) (fields : List (Text × Json)) : allFields scalar key fields = true := by
  match fields with
  | [] => rfl
  | (k, v) :: rest =>
    rw [allFields, hkey, all_of_forall hscalar hkey v, allFields_of_forall hscalar hkey rest, Bool.and_true,
      Bool.and_true]

end

/-! ### The characters of a text -/

/-- A printable ASCII character or a line feed. -/
def isMark (c : CodePoint) : Bool := c == '\n' || (0x20 ≤ c.toNat && c.toNat < 0x7F)

theorem all_isMark_of_digits {ds : List CodePoint} (h : ∀ d ∈ ds, Text.isAsciiDigit d = true) :
    ds.all isMark = true := by
  refine List.all_eq_true.mpr fun d hd => ?_
  have hrange := h d hd
  simp only [Text.isAsciiDigit, Bool.and_eq_true, decide_eq_true_eq, CodePoint.le_def] at hrange
  have hlow : 0x30 ≤ d.toNat := hrange.1
  have hhigh : d.toNat ≤ 0x39 := hrange.2
  simp only [isMark, Bool.or_eq_true, Bool.and_eq_true, decide_eq_true_eq]
  omega

theorem all_isMark_of_mem_words : ∀ e ∈ words, e.1.all isMark = true := by decide

/-- A numeral has digits, signs, a point and a mark for the exponent. -/
theorem all_isMark_numeral {text : List CodePoint} {v : Json} (h : IsNumeral text v) : text.all isMark = true := by
  obtain ⟨n, hproper, rfl, -⟩ := h
  have hwhole : n.whole.all isMark = true := by
    rcases hproper.whole with hzero | ⟨_, _, -, -, hds⟩
    · rw [hzero]
      rfl
    · exact all_isMark_of_digits hds
  have hfraction : (Numeral.fractionText n.fraction).all isMark = true := by
    have hds := all_isMark_of_digits hproper.fraction
    cases hfraction : n.fraction with
    | nil => rfl
    | cons d ds =>
      rw [hfraction] at hds
      show (isMark '.' && (d :: ds).all isMark) = true
      rw [hds]
      rfl
  have hexponent : (Numeral.exponentText n.exponent).all isMark = true := by
    cases hexponent : n.exponent with
    | none => rfl
    | some e =>
      have hds := all_isMark_of_digits (hproper.exponent e hexponent).2
      cases hsign : e.1 <;> simp [Numeral.exponentText, hsign, hds] <;> decide
  have hdash : isMark '-' = true := rfl
  unfold Numeral.spell
  cases hsign : n.negative <;> simp [List.all_append, hwhole, hfraction, hexponent, hdash]

theorem all_isMark_of_isScalar {style : Style} {depth : Nat} {v : Json} (h : v.isScalar = true) :
    (write style depth v).all isMark = true := by
  rcases write_of_isScalar h with hword | hnumeral
  · exact all_isMark_of_mem_words _ hword
  · exact all_isMark_numeral hnumeral

theorem all_isMark_lineBreak (style : Style) (depth : Nat) : (style.lineBreak depth).all isMark = true := by
  unfold Style.lineBreak
  split
  · rfl
  · rw [List.all_cons, List.all_replicate]
    simp [show isMark ' ' = true from rfl, show isMark '\n' = true from rfl]

/-- Between items and after keys there are marks only. -/
structure Style.IsMarked (style : Style) : Prop where
  comma : style.comma.all isMark = true
  colon : style.colon.all isMark = true

theorem isMarked_compact : Style.compact.IsMarked := ⟨rfl, rfl⟩

theorem isMarked_indented (ascii : Bool) : (Style.indented ascii).IsMarked := ⟨rfl, rfl⟩

section Style

variable {style : Style} (hstyle : style.IsMarked) {test : CodePoint → Bool}
  (htest : ∀ c, isMark c = true → test c = true)

include hstyle htest

mutual

/-- A test that all marks pass is one of the strings inside. -/
theorem all_write (depth : Nat) (v : Json) :
    (write style depth v).all test = v.allTexts fun s => (quoted style.ascii s).all test := by
  have hmarks {cs : List CodePoint} (h : cs.all isMark = true) : cs.all test = true :=
    List.all_eq_true.mpr fun c hc => htest c (List.all_eq_true.mp h c hc)
  match v with
  | .null => exact hmarks (all_isMark_of_isScalar rfl)
  | .bool _ => exact hmarks (all_isMark_of_isScalar rfl)
  | .int _ => exact hmarks (all_isMark_of_isScalar rfl)
  | .double _ => exact hmarks (all_isMark_of_isScalar rfl)
  | .str s => rfl
  | .arr [] => exact hmarks rfl
  | .arr (v :: rest) =>
    simp [write, allTexts, all, allItems, hmarks (all_isMark_lineBreak _ _), all_write (depth + 1) v,
      all_writeItems (depth + 1) rest, htest (.char '[') rfl, htest (.char ']') rfl]
  | .obj [] => exact hmarks rfl
  | .obj ((k, v) :: rest) =>
    simp [write, allTexts, all, allFields, hmarks (all_isMark_lineBreak _ _), hmarks hstyle.colon,
      all_write (depth + 1) v, all_writeFields (depth + 1) rest, htest (.char '{') rfl, htest (.char '}') rfl]

theorem all_writeItems (depth : Nat) (items : List Json) :
    (writeItems style depth items).all test =
      allItems (onText fun s => (quoted style.ascii s).all test) (fun s => (quoted style.ascii s).all test) items := by
  have hmarks {cs : List CodePoint} (h : cs.all isMark = true) : cs.all test = true :=
    List.all_eq_true.mpr fun c hc => htest c (List.all_eq_true.mp h c hc)
  match items with
  | [] => rfl
  | v :: rest =>
    simp [writeItems, allItems, allTexts, hmarks (all_isMark_lineBreak _ _), hmarks hstyle.comma, all_write depth v,
      all_writeItems depth rest]

theorem all_writeFields (depth : Nat) (fields : List (Text × Json)) :
    (writeFields style depth fields).all test =
      allFields (onText fun s => (quoted style.ascii s).all test) (fun s => (quoted style.ascii s).all test)
        fields := by
  have hmarks {cs : List CodePoint} (h : cs.all isMark = true) : cs.all test = true :=
    List.all_eq_true.mpr fun c hc => htest c (List.all_eq_true.mp h c hc)
  match fields with
  | [] => rfl
  | (k, v) :: rest =>
    simp [writeFields, allFields, allTexts, hmarks (all_isMark_lineBreak _ _), hmarks hstyle.comma,
      hmarks hstyle.colon, all_write depth v, all_writeFields depth rest]

end

end Style

/-! ### Strings -/

theorem all_isMark_unicodeEscape (c : CodePoint) : (unicodeEscape c).all isMark = true := by
  have hdigit : ∀ k < 16, isMark (Text.hexDigit k) = true := by decide
  have hhex (n : Nat) : (Text.hex4 n).all isMark = true := by
    simp only [Text.hex4, List.all_cons, List.all_nil, Bool.and_true, Bool.and_eq_true]
    exact ⟨hdigit _ (by omega), hdigit _ (by omega), hdigit _ (by omega), hdigit _ (by omega)⟩
  have hstart (n : Nat) : (CodePoint.char '\\' :: .char 'u' :: Text.hex4 n).all isMark = true := by
    rw [List.all_cons, List.all_cons, hhex]
    rfl
  unfold unicodeEscape
  simp only
  split
  · exact hstart _
  · show ((CodePoint.char '\\' :: .char 'u' :: Text.hex4 _) ++
      (CodePoint.char '\\' :: .char 'u' :: Text.hex4 _)).all isMark = true
    rw [List.all_append, hstart, hstart]
    rfl

/-- A character is written in marks, or as it is. A carriage return is not written as it is. -/
theorem escapeChar_cases (ascii : Bool) (c : CodePoint) :
    (escapeChar ascii c).all isMark = true ∨ escapeChar ascii c = [c] ∧ c ≠ '\r' := by
  unfold escapeChar
  split
  · rename_i letter hletter
    left
    unfold escapeLetter? at hletter
    split_ifs at hletter <;> cases hletter <;> rfl
  · rename_i hletter
    split
    · exact .inl (all_isMark_unicodeEscape c)
    · right
      refine ⟨rfl, ?_⟩
      rintro rfl
      cases hletter

theorem isChar_of_isMark {c : CodePoint} (h : isMark c = true) : c.isChar = true := by
  cases c with
  | char d => rfl
  | half i =>
    have hrange : ¬ (CodePoint.half i).toNat < 0x7F := Nat.not_lt.mpr (Nat.le_trans (by decide) (Nat.le_add_right _ _))
    have hfeed : (CodePoint.half i == .char '\n') = false := rfl
    rw [isMark, hfeed, decide_eq_false hrange, Bool.and_false] at h
    cases h

/-- Half of a surrogate pair is written as it is. -/
theorem all_isChar_escapeChar (c : CodePoint) : (escapeChar false c).all CodePoint.isChar = c.isChar := by
  cases c with
  | half i =>
    have hcode : ¬ (CodePoint.half i).toNat < 0x20 := Nat.not_lt.mpr (Nat.le_trans (by decide) (Nat.le_add_right _ _))
    simp [escapeChar, escapeLetter?, hcode]
  | char d =>
    rcases escapeChar_cases false (.char d) with h | ⟨h, -⟩
    · exact List.all_eq_true.mpr fun c hc => isChar_of_isMark (List.all_eq_true.mp h c hc)
    · rw [h]
      rfl

theorem all_quoted {test : CodePoint → Bool} (hquote : test '"' = true) (ascii : Bool) (s : Text) :
    (quoted ascii s).all test = s.toList.all fun c => (escapeChar ascii c).all test := by
  simp [quoted, escape, hquote]

/-- The text of a value can be written in UTF-8 iff all texts inside can. -/
theorem isEncodable_text {style : Style} (hstyle : style.IsMarked) (hascii : style.ascii = false) (v : Json) :
    (v.text style).isEncodable = v.isEncodable := by
  have hquoted (s : Text) : (quoted style.ascii s).all CodePoint.isChar = s.isEncodable := by
    rw [hascii, all_quoted rfl, Text.isEncodable]
    simp only [all_isChar_escapeChar]
  rw [Text.isEncodable, text, Text.toList_ofList, all_write hstyle fun _ => isChar_of_isMark, isEncodable]
  simp only [hquoted]

/-- UTF-8 has the canonical text of a value iff it has every text inside. -/
theorem isEncodable_canonical (v : Json) : v.canonical.isEncodable = v.isEncodable :=
  (isEncodable_text isMarked_compact rfl _).trans (all_sortKeys _ _ v)

/-- No text of a value has a carriage return. -/
theorem notMem_text {style : Style} (hstyle : style.IsMarked) (v : Json) : .char '\r' ∉ (v.text style).toList := by
  have hmark : ∀ c, isMark c = true → (c != .char '\r') = true := by
    intro c h
    rw [bne_iff_ne]
    rintro rfl
    cases h
  have hquoted (s : Text) : (quoted style.ascii s).all (· != .char '\r') = true := by
    rw [all_quoted rfl]
    refine List.all_eq_true.mpr fun c _ => ?_
    rcases escapeChar_cases style.ascii c with h | ⟨h, hne⟩
    · exact List.all_eq_true.mpr fun d hd => hmark d (List.all_eq_true.mp h d hd)
    · simp [h, hne]
  have hall : (v.text style).toList.all (· != .char '\r') = true := by
    rw [text, Text.toList_ofList, all_write hstyle hmark]
    simp only [hquoted]
    refine all_of_forall ?_ (fun _ => rfl) v
    rintro (_ | _ | _ | _ | _ | _ | _) <;> rfl
  intro hmem
  exact absurd (List.all_eq_true.mp hall _ hmem) (by decide)

/-! ### Pieces -/

/-- What pieces make up; one that cannot be spelled adds nothing. -/
def piecesText (ps : List Piece) : List CodePoint := ps.flatMap fun piece => piece.toOption.getD []

theorem piecesText_append (ps qs : List Piece) : piecesText (ps ++ qs) = piecesText ps ++ piecesText qs :=
  List.flatMap_append

/-- The pieces make up the text if nothing in it is too long, and otherwise one of them cannot be spelled. -/
structure MakeUp (ps : List Piece) (short : Bool) (cs : List CodePoint) : Prop where
  text : short = true → piecesText ps = cs
  spelled : (∀ piece ∈ ps, piece.isOk = true) ↔ short = true

namespace MakeUp

theorem append {ps qs : List Piece} {a b : Bool} {cs ds : List CodePoint} (h : MakeUp ps a cs) (h' : MakeUp qs b ds) :
    MakeUp (ps ++ qs) (a && b) (cs ++ ds) where
  text hshort := by
    rw [Bool.and_eq_true] at hshort
    rw [piecesText_append, h.text hshort.1, h'.text hshort.2]
  spelled := by rw [List.forall_mem_append, h.spelled, h'.spelled, Bool.and_eq_true]

theorem nil : MakeUp [] true [] := ⟨fun _ => rfl, by simp⟩

theorem singleton (cs : List CodePoint) : MakeUp [.ok cs] true cs :=
  ⟨fun _ => List.append_nil cs, iff_of_true (List.forall_mem_singleton.mpr rfl) rfl⟩

theorem cons (cs : List CodePoint) {ps : List Piece} {b : Bool} {ds : List CodePoint} (h : MakeUp ps b ds) :
    MakeUp (.ok cs :: ps) b (cs ++ ds) := by
  have hcons := (singleton cs).append h
  rwa [Bool.true_and, List.singleton_append] at hcons

/-- The piece of a value without parts. -/
theorem scalarPiece (style : Style) (v : Json) : MakeUp [Json.scalarPiece style v] v.isShort (write style 0 v) := by
  unfold Json.scalarPiece
  split
  · rename_i hshort
    rw [hshort]
    exact singleton _
  · rename_i hlong
    exact ⟨fun hshort => absurd hshort hlong, iff_of_false (by simp [Except.isOk, Except.toBool]) hlong⟩

/-- What stands before a single piece joins it. -/
theorem map {piece : Piece} {b : Bool} {cs : List CodePoint} (h : MakeUp [piece] b cs) (lead : List CodePoint) :
    MakeUp [piece.map (lead ++ ·)] b (lead ++ cs) := by
  cases piece with
  | error fault =>
    exact ⟨fun hshort => absurd (h.spelled.mpr hshort _ List.mem_cons_self) Bool.false_ne_true, h.spelled⟩
  | ok ds =>
    have hshort := h.spelled.mp (List.forall_mem_singleton.mpr rfl)
    have hds : ds = cs := (List.append_nil ds).symm.trans (h.text hshort)
    rw [hshort, ← hds]
    exact singleton (lead ++ ds)

/-- A value in an array, with what stands before it. -/
theorem led {style : Style} {depth : Nat} {v : Json}
    (h : MakeUp (pieces style depth v) v.hasShortNumbers (write style depth v)) (lead : List CodePoint) :
    MakeUp (ledPieces lead v (pieces style depth v)) v.hasShortNumbers (lead ++ write style depth v) := by
  cases v with
  | null => exact map h lead
  | bool b => exact map h lead
  | int n => exact map h lead
  | double x => exact map h lead
  | str s => exact map h lead
  | arr items => exact cons lead h
  | obj fields => exact cons lead h

end MakeUp

section Style

variable (style : Style)

mutual

/-- The pieces of a value make up its text. -/
theorem makeUp_pieces (depth : Nat) (v : Json) :
    MakeUp (pieces style depth v) v.hasShortNumbers (write style depth v) := by
  match v with
  | .null => exact .scalarPiece style _
  | .bool true => exact .scalarPiece style (.bool true)
  | .bool false => exact .scalarPiece style (.bool false)
  | .int n => exact .scalarPiece style (.int n)
  | .double x => exact .scalarPiece style (.double x)
  | .str s => exact .scalarPiece style (.str s)
  | .arr [] => exact .singleton _
  | .arr (v :: rest) =>
    have h := ((makeUp_pieces (depth + 1) v).led (.char '[' :: style.lineBreak (depth + 1))).append
      ((makeUp_itemPieces (depth + 1) rest).append (.cons (style.lineBreak depth) (.singleton [.char ']'])))
    simpa [pieces, write, hasShortNumbers, all, allItems] using h
  | .obj [] => exact .singleton _
  | .obj ((k, v) :: rest) =>
    have h := MakeUp.cons [.char '{'] (.cons (style.lineBreak (depth + 1)) (.cons (quoted style.ascii k)
      (.cons style.colon ((makeUp_pieces (depth + 1) v).append ((makeUp_fieldPieces (depth + 1) rest).append
        (.cons (style.lineBreak depth) (.singleton [.char '}'])))))))
    simpa [pieces, write, hasShortNumbers, all, allFields] using h

theorem makeUp_itemPieces (depth : Nat) (items : List Json) :
    MakeUp (itemPieces style depth items) (allItems isShort (fun _ => true) items)
      (writeItems style depth items) := by
  match items with
  | [] => exact .nil
  | v :: rest =>
    have h := ((makeUp_pieces depth v).led (style.comma ++ style.lineBreak depth)).append (makeUp_itemPieces depth rest)
    simpa [itemPieces, writeItems, hasShortNumbers, allItems] using h

theorem makeUp_fieldPieces (depth : Nat) (fields : List (Text × Json)) :
    MakeUp (fieldPieces style depth fields) (allFields isShort (fun _ => true) fields)
      (writeFields style depth fields) := by
  match fields with
  | [] => exact .nil
  | (k, v) :: rest =>
    have h := MakeUp.cons (style.comma ++ style.lineBreak depth) (.cons (quoted style.ascii k)
      (.cons style.colon ((makeUp_pieces depth v).append (makeUp_fieldPieces depth rest))))
    simpa [fieldPieces, writeFields, hasShortNumbers, allFields] using h

end

end Style

/-! ### Writing -/

/-- All pieces are written iff every one can be spelled and they make up a text of characters, which is then what has
been written. -/
theorem writePieces_isOk_iff (ps : List Piece) :
    ((writePieces ps).1 = .ok () ↔
      (∀ piece ∈ ps, piece.isOk = true) ∧ (Text.ofList (piecesText ps)).isEncodable = true) ∧
    ((writePieces ps).1 = .ok () → Text.ofString (writePieces ps).2 = Text.ofList (piecesText ps)) := by
  induction ps with
  | nil => exact ⟨iff_of_true rfl ⟨by simp, rfl⟩, fun _ => rfl⟩
  | cons piece ps ih =>
    cases piece with
    | error fault =>
      refine ⟨iff_of_false (fun h => by cases h) fun h => ?_, fun h => by cases h⟩
      exact absurd (h.1 _ List.mem_cons_self) Bool.false_ne_true
    | ok cs =>
      have htext : Text.ofList (piecesText (.ok cs :: ps)) = Text.ofList cs ++ Text.ofList (piecesText ps) := rfl
      have hspelled : (∀ piece ∈ (.ok cs :: ps : List Piece), piece.isOk = true) ↔ ∀ piece ∈ ps, piece.isOk = true := by
        rw [List.forall_mem_cons]
        exact and_iff_right rfl
      rw [htext, hspelled, Text.isEncodable_append, writePieces]
      cases hcs : (Text.ofList cs).toString? with
      | none =>
        have hhalf : (Text.ofList cs).isEncodable = false := by
          rw [← Bool.not_eq_true, Text.isEncodable_iff]
          rintro ⟨t, ht⟩
          rw [ht, Text.toString?_ofString] at hcs
          cases hcs
        rw [hhalf]
        exact ⟨iff_of_false (fun h => by cases h) fun h => Bool.false_ne_true h.2, fun h => by cases h⟩
      | some s =>
        have hs := Text.toString?_eq_some_iff.mp hcs
        rw [Text.isEncodable_iff.mpr ⟨s, hs⟩, Bool.true_and]
        exact ⟨ih.1, fun h => (Text.ofString_append _ _).trans (by rw [ih.2 h, hs])⟩

variable {style : Style} {v : Json}

/-- A value is written in full iff no whole number inside is too long and every text inside is one of characters. -/
theorem dump_isOk_iff (hstyle : style.IsMarked) (hascii : style.ascii = false) :
    (dump style v).1 = .ok () ↔ v.hasShortNumbers = true ∧ v.isEncodable = true := by
  have hpieces := makeUp_pieces style 0 v
  rw [dump, (writePieces_isOk_iff _).1, hpieces.spelled, ← isEncodable_text hstyle hascii]
  refine and_congr_right fun hshort => ?_
  rw [hpieces.text hshort]
  rfl

/-- What has been written is then the text of the value. -/
theorem dump_eq (h : (dump style v).1 = .ok ()) : Text.ofString (dump style v).2 = v.text style := by
  have hpieces := makeUp_pieces style 0 v
  have hok := (writePieces_isOk_iff _).1.mp h
  rw [dump, (writePieces_isOk_iff _).2 h, hpieces.text (hpieces.spelled.mp hok.1)]
  rfl

end Ontogram.Json

/-
Wide texts, broken at spaces.

The words of a wide text are set in lines of a fixed width. A line takes words as long as they fit, so it is closed only
before a word that does not; only a word that is too wide itself makes a line that is too wide:

* `words` — the words of a text, which stand between its spaces;
* `Wraps` — words, and the lines that are filled with them;
* `wraps_wrapFrom` — what is made of a line begun and of the pieces that are left;
* `wrap_fills_lines` — the lines of a text have its words, keep the width, and are filled.
-/
import Ontogram.Proofs.QuotedText
namespace Ontogram.Turtle

/-! ### Words -/

/-- A word: some characters, none of them a space. -/
def IsWord (w : List CodePoint) : Prop := w ≠ [] ∧ .char ' ' ∉ w

/-- The pieces of a text with something in them. -/
def filled (pieces : List (List CodePoint)) : List (List CodePoint) := pieces.filter fun piece => !piece.isEmpty

/-- The words of a text: what stands between its spaces, where anything does. -/
def words (cs : List CodePoint) : List (List CodePoint) := filled (cs.splitOn (.char ' '))

theorem words_nil : words [] = [] := rfl

/-- A text has the words before a space and those behind it. -/
theorem words_append_space (cs ds : List CodePoint) : words (cs ++ .char ' ' :: ds) = words cs ++ words ds := by
  rw [words, List.splitOn_append_cons_self]
  exact List.filter_append _ _

/-- A piece without spaces is a word, unless it is empty. -/
theorem filled_cons {piece : List CodePoint} (h : .char ' ' ∉ piece) (rest : List (List CodePoint)) :
    filled (piece :: rest) = words piece ++ filled rest := by
  rw [words, List.splitOn_eq_singleton h]
  exact List.filter_append [piece] rest

theorem words_of_isWord {w : List CodePoint} (h : IsWord w) : words w = [w] := by
  rw [words, List.splitOn_eq_singleton h.2]
  simp [filled, h.1]

theorem ne_nil_of_words {cs : List CodePoint} (h : words cs ≠ []) : cs ≠ [] := by
  rintro rfl
  exact h words_nil

/-! ### Filled lines -/

/-- A line fits if it keeps the width, or if it is one word and cannot be broken. -/
def Fits (line : List CodePoint) : Prop := line.length ≤ lineWidth ∨ IsWord line

/-- Words, and the lines that are filled with them: a line fits and has words, and it would have been too wide with the
next word behind a space. -/
inductive Wraps : List (List CodePoint) → List (List CodePoint) → Prop
  | nil : Wraps [] []
  | line {line : List CodePoint} {ws ls : List (List CodePoint)} (hfits : Fits line) (hwords : words line ≠ [])
      (hfull : ∀ w ∈ ws.head?, lineWidth < (line ++ .char ' ' :: w).length) (hrest : Wraps ws ls) :
      Wraps (words line ++ ws) (line :: ls)

variable {ws ls : List (List CodePoint)}

theorem Wraps.fits (h : Wraps ws ls) : ∀ line ∈ ls, Fits line := by
  induction h with
  | nil => exact List.forall_mem_nil _
  | line hfits hwords hfull hrest ih => exact List.forall_mem_cons.mpr ⟨hfits, ih⟩

theorem Wraps.flatMap_words (h : Wraps ws ls) : ls.flatMap words = ws := by
  induction h with
  | nil => rfl
  | line hfits hwords hfull hrest ih => rw [List.flatMap_cons, ih]

/-- Where there is a line there is a word. -/
theorem Wraps.exists_cons (h : Wraps ws ls) (hne : ls ≠ []) : ∃ w rest, ws = w :: rest := by
  cases h with
  | nil => exact absurd rfl hne
  | line hfits hwords hfull hrest => exact List.exists_cons_of_ne_nil (List.append_ne_nil_of_left_ne_nil hwords _)

/-- A line that another one follows is full: the next word would have made it too wide. -/
theorem Wraps.full (h : Wraps ws ls) {before after : List (List CodePoint)} {line : List CodePoint}
    (hls : ls = before ++ line :: after) (hafter : after ≠ []) :
    ∃ w rest, after.flatMap words = w :: rest ∧ lineWidth < (line ++ .char ' ' :: w).length := by
  induction h generalizing before with
  | nil => exact absurd hls (by simp)
  | line hfits hwords hfull hrest ih =>
    cases before with
    | nil =>
      obtain ⟨rfl, rfl⟩ := List.cons.inj hls
      obtain ⟨w, rest, rfl⟩ := hrest.exists_cons hafter
      exact ⟨w, rest, hrest.flatMap_words, hfull w rfl⟩
    | cons first before => exact ih (List.cons.inj hls).2

/-! ### Wrapping -/

/-- A line that is begun: nothing yet, or words that fit. -/
def IsBegun (current : List CodePoint) : Prop := current = [] ∨ words current ≠ [] ∧ Fits current

theorem isBegun_of_notMem {piece : List CodePoint} (h : .char ' ' ∉ piece) : IsBegun piece := by
  by_cases hne : piece = []
  · exact .inl hne
  · have hword : IsWord piece := ⟨hne, h⟩
    exact .inr ⟨by simp [words_of_isWord hword], .inr hword⟩

/-- A line takes a piece for which it has room. -/
theorem isBegun_append {current piece : List CodePoint} (hwords : words current ≠ [])
    (hroom : (current ++ .char ' ' :: piece).length ≤ lineWidth) : IsBegun (current ++ .char ' ' :: piece) := by
  refine .inr ⟨?_, .inl hroom⟩
  rw [words_append_space]
  exact List.append_ne_nil_of_left_ne_nil hwords _

/-- Where there is no room for a piece there is none for the next word either, be it the piece or, if that is empty, any
later one. -/
theorem full_of_piece {current piece : List CodePoint} (hpiece : .char ' ' ∉ piece)
    (hwide : lineWidth < (current ++ .char ' ' :: piece).length) {w : List CodePoint} {rest : List (List CodePoint)}
    (hw : w ∈ (words piece ++ rest).head?) : lineWidth < (current ++ .char ' ' :: w).length := by
  have hle : piece.length ≤ w.length := by
    by_cases hempty : piece = []
    · simp [hempty]
    · rw [words_of_isWord ⟨hempty, hpiece⟩] at hw
      obtain rfl : piece = w := Option.some_inj.mp hw
      exact Nat.le_refl _
  rw [List.length_append, List.length_cons] at hwide ⊢
  omega

/-- The invariant of wrapping: lines are filled with the words of the line that is begun and of the pieces that are
left. -/
theorem wraps_wrapFrom {current : List CodePoint} {pieces : List (List CodePoint)} (hcurrent : IsBegun current)
    (hpieces : ∀ piece ∈ pieces, .char ' ' ∉ piece) :
    Wraps (words current ++ filled pieces) (wrapFrom current pieces) := by
  induction pieces generalizing current with
  | nil =>
    rcases hcurrent with rfl | ⟨hwords, hfits⟩
    · exact .nil
    · rw [wrapFrom, if_neg (by simpa using ne_nil_of_words hwords)]
      exact .line hfits hwords (by simp [filled]) .nil
  | cons piece rest ih =>
    obtain ⟨hpiece, hrest⟩ := List.forall_mem_cons.mp hpieces
    have hnext := ih (isBegun_of_notMem hpiece) hrest
    rw [filled_cons hpiece]
    rcases hcurrent with rfl | ⟨hwords, hfits⟩
    · rwa [wrapFrom, if_pos List.isEmpty_nil, words_nil, List.nil_append]
    · have hlength : (current ++ .char ' ' :: piece).length = current.length + 1 + piece.length := by
        rw [List.length_append, List.length_cons, Nat.add_assoc, Nat.add_comm 1]
      rw [wrapFrom, if_neg (by simpa using ne_nil_of_words hwords), ← hlength]
      split
      · rename_i hwide
        exact .line hfits hwords (fun w hw => full_of_piece hpiece hwide hw) hnext
      · rename_i hroom
        have hfilled := ih (isBegun_append hwords (Nat.le_of_not_lt hroom)) hrest
        rwa [words_append_space, List.append_assoc] at hfilled

theorem wraps_wrap (cs : List CodePoint) : Wraps (words cs) (wrap cs) :=
  wraps_wrapFrom (.inl rfl) fun _ hpiece => (of_mem_splitOn hpiece).1

/-- **Lines are filled with the words of the text.** A line is at most eighty characters long or is a single word; the
words of the lines, in order, are the words of the text; and where another line follows there is a next word, which
would not have fitted behind one space. -/
theorem wrap_fills_lines (cs : List CodePoint) :
    (∀ line ∈ wrap cs, line.length ≤ 80 ∨ IsWord line) ∧ (wrap cs).flatMap words = words cs ∧
      ∀ before line after, wrap cs = before ++ line :: after → after ≠ [] →
        ∃ word rest, after.flatMap words = word :: rest ∧ 80 < (line ++ .char ' ' :: word).length := by
  have h := wraps_wrap cs
  exact ⟨h.fits, h.flatMap_words, fun before line after hls hafter => h.full hls hafter⟩

/-- A line of the width that ends in spaces, and a word that is wider than a line. -/
def spacedText : List CodePoint :=
  List.replicate 78 (.char 'a') ++ ("   bc " : Text).toList ++ List.replicate 90 (.char 'd')

theorem wrap_fills_lines_spaced :
    wrap spacedText =
        [List.replicate 78 (.char 'a') ++ ("  " : Text).toList, ("bc" : Text).toList,
          List.replicate 90 (.char 'd')] ∧
      IsWord (List.replicate 90 (CodePoint.char 'd')) ∧
      ∃ word rest, [("bc" : Text).toList, List.replicate 90 (.char 'd')].flatMap words = word :: rest ∧
        80 < (List.replicate 78 (CodePoint.char 'a') ++ ("  " : Text).toList ++ .char ' ' :: word).length := by
  have hwrap : wrap spacedText =
      [List.replicate 78 (.char 'a') ++ ("  " : Text).toList, ("bc" : Text).toList,
        List.replicate 90 (.char 'd')] := by
    decide +kernel
  obtain ⟨hfits, -, hfull⟩ := wrap_fills_lines spacedText
  have hlong : List.replicate 90 (.char 'd') ∈ wrap spacedText := by simp [hwrap]
  exact ⟨hwrap, (hfits _ hlong).resolve_left (by simp), hfull [] _ _ hwrap (by simp)⟩

end Ontogram.Turtle

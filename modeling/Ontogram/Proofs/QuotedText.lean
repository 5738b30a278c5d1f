/-
Quoted texts.

A text is quoted on one line, where its characters are escaped, or set as a long text, where only its lines are
shown. From what is written the text can be read off in the first case and its lines in the second:

* `layout` — the lines of a text that is set as a long one;
* `escapeChars_append_inj`, `longQuote_append_inj` — what the two settings show;
* `quote_append_inj` — what a quoted text shows, and that what stands behind it can be told apart.
-/
import Ontogram.Proofs.Escaping
import Ontogram.Turtle.Literal
namespace Ontogram.Turtle

/-! ### Lines -/

theorem of_mem_splitOn {a : CodePoint} {cs w : List CodePoint} (h : w ∈ cs.splitOn a) : a ∉ w ∧ w ⊆ cs := by
  induction cs generalizing w with
  | nil =>
    rw [List.splitOn_nil] at h
    simp [List.mem_singleton.mp h]
  | cons c cs ih =>
    rw [List.splitOn_cons_eq_if_modifyHead] at h
    split at h
    · rcases List.mem_cons.mp h with rfl | h
      · simp
      · exact ⟨(ih h).1, List.subset_cons_of_subset c (ih h).2⟩
    · -- the character is put to the first part
      rename_i hc
      obtain ⟨first, rest, hsplit⟩ := List.exists_cons_of_ne_nil (List.splitOn_ne_nil a cs)
      rw [hsplit, List.modifyHead_cons] at h
      rw [hsplit] at ih
      rcases List.mem_cons.mp h with rfl | h
      · obtain ⟨hfirst, hsubset⟩ := ih List.mem_cons_self
        have hne : a ≠ c := fun heq => hc (beq_iff_eq.mpr heq.symm)
        exact ⟨by simp [hne, hfirst], List.cons_subset_cons c hsubset⟩
      · obtain ⟨hw, hsubset⟩ := ih (List.mem_cons_of_mem _ h)
        exact ⟨hw, List.subset_cons_of_subset c hsubset⟩

/-- Breaking a text at blanks brings no line feeds into it. -/
theorem feed_notMem_wrapFrom {current : List CodePoint} {words : List (List CodePoint)}
    (hcurrent : .char '\n' ∉ current) (hwords : ∀ w ∈ words, .char '\n' ∉ w) :
    ∀ l ∈ wrapFrom current words, .char '\n' ∉ l := by
  induction words generalizing current with
  | nil =>
    unfold wrapFrom
    split
    · simp
    · exact List.forall_mem_singleton.mpr hcurrent
  | cons word rest ih =>
    obtain ⟨hword, hrest⟩ := List.forall_mem_cons.mp hwords
    unfold wrapFrom
    split
    · exact ih hword hrest
    · split
      · exact List.forall_mem_cons.mpr ⟨hcurrent, ih hword hrest⟩
      · exact ih (by simp [hcurrent, hword]) hrest

/-- The lines of a text that is set as a long one. -/
def layout (wrapped : Bool) (cs : List CodePoint) : Option (List (List CodePoint)) :=
  if cs.contains (.char '\n') then some (cs.splitOn (.char '\n'))
  else if wrapped && lineWidth < cs.length then some (wrap cs)
  else none

/-- Only wide texts on one line are broken at blanks. -/
theorem layout_eq_of_not_wide {cs : List CodePoint} (h : .char '\n' ∈ cs ∨ cs.length ≤ lineWidth) (wrapped : Bool) :
    layout wrapped cs = layout false cs := by
  unfold layout
  rcases h with hfeed | hnarrow
  · rw [if_pos (by simpa using hfeed), if_pos (by simpa using hfeed)]
  · simp [Nat.not_lt.mpr hnarrow]

theorem feed_notMem_layout {wrapped : Bool} {cs : List CodePoint} {ls : List (List CodePoint)}
    (h : layout wrapped cs = some ls) : ∀ l ∈ ls, .char '\n' ∉ l := by
  unfold layout at h
  split at h
  · cases h
    exact fun l hl => (of_mem_splitOn hl).1
  · rename_i hfeed
    have hfeed : .char '\n' ∉ cs := by simpa using hfeed
    split at h
    · cases h
      exact feed_notMem_wrapFrom (by simp) fun w hw hmem => hfeed ((of_mem_splitOn hw).2 hmem)
    · cases h

theorem feed_notMem_of_layout {wrapped : Bool} {cs : List CodePoint} (h : layout wrapped cs = none) :
    .char '\n' ∉ cs := by
  intro hmem
  simp [layout, hmem] at h

theorem quote_of_layout {wrapped : Bool} {cs : List CodePoint} {ls : List (List CodePoint)}
    (h : layout wrapped cs = some ls) : quote wrapped cs = longQuote ls := by
  unfold layout at h
  unfold quote
  split at h
  · rename_i hfeed
    cases h
    rw [if_pos hfeed]
  · rename_i hfeed
    rw [if_neg hfeed]
    split at h
    · rename_i hwide
      cases h
      rw [if_pos hwide]
    · cases h

/-- On one line the two views escape in the same way. -/
theorem quote_of_not_layout {wrapped : Bool} {cs : List CodePoint} (h : layout wrapped cs = none) :
    quote wrapped cs = .char '"' :: (NTriples.escapeChars cs ++ [.char '"']) := by
  have hfeed := feed_notMem_of_layout h
  have hescape : cs.flatMap escapeChar = NTriples.escapeChars cs := by
    refine List.flatMap_congr fun c hc => ?_
    have hne : c ≠ '\n' := fun heq => hfeed (heq ▸ hc)
    unfold escapeChar NTriples.escapeChar
    rw [if_neg hne]
    split_ifs <;> first | rfl | simp_all
  unfold layout at h
  unfold quote
  split at h
  · cases h
  · rename_i hcontains
    rw [if_neg hcontains]
    split at h
    · cases h
    · rename_i hnarrow
      rw [if_neg hnarrow, hescape]

/-! ### Quoted texts -/

theorem escapeChars_append_inj {cs cs' rest rest' : List CodePoint}
    (h : NTriples.escapeChars cs ++ .char '"' :: rest = NTriples.escapeChars cs' ++ .char '"' :: rest') :
    cs = cs' ∧ rest = rest' := by
  have hread := congrArg NTriples.literalText h
  rw [NTriples.literalText_escapeChars, NTriples.literalText_escapeChars] at hread
  obtain ⟨hescaped, hrest⟩ := Prod.mk.inj (Option.some.inj hread)
  have hcs := congrArg NTriples.unescapeChars hescaped
  rw [NTriples.unescapeChars_escapeChars, NTriples.unescapeChars_escapeChars] at hcs
  exact ⟨Except.ok.inj hcs, hrest⟩

/-- Splitting a long text at its line feeds gives its lines back, between the quotes. -/
theorem splitOn_longQuote {ls : List (List CodePoint)} (hls : ∀ l ∈ ls, .char '\n' ∉ l) {rest : List CodePoint}
    (hrest : .char '\n' ∉ rest) : (longQuote ls ++ rest).splitOn (.char '\n') =
      ("\"\"\"" : Text).toList :: ((if ls.isEmpty then [[]] else ls.map (longIndent ++ ·)) ++
        [longIndent ++ ("\"\"\"" : Text).toList ++ rest]) := by
  have hindent : .char '\n' ∉ longIndent := by decide
  have hbody : (List.intercalate [.char '\n'] (ls.map (longIndent ++ ·))).splitOn (.char '\n') =
      if ls.isEmpty then [[]] else ls.map (longIndent ++ ·) := by
    split
    · rename_i hempty
      rw [List.isEmpty_iff.mp hempty]
      rfl
    · rename_i hne
      refine List.splitOn_intercalate (CodePoint.char '\n') (List.forall_mem_map.mpr fun l hl => ?_)
        (by simpa using hne)
      simp [hindent, hls l hl]
  have hlast : .char '\n' ∉ longIndent ++ ("\"\"\"" : Text).toList ++ rest := by simp [hindent, hrest]
  have htext : longQuote ls ++ rest = ("\"\"\"" : Text).toList ++ .char '\n' ::
      (List.intercalate [.char '\n'] (ls.map (longIndent ++ ·)) ++
        .char '\n' :: (longIndent ++ ("\"\"\"" : Text).toList ++ rest)) := by
    simp [longQuote]
  rw [htext, List.splitOn_append_cons_self_of_not_mem (by decide), List.splitOn_append_cons_self, hbody,
    List.splitOn_eq_singleton hlast]

theorem longQuote_append_inj {ls ls' : List (List CodePoint)} (hls : ∀ l ∈ ls, .char '\n' ∉ l)
    (hls' : ∀ l ∈ ls', .char '\n' ∉ l) {rest rest' : List CodePoint} (hrest : .char '\n' ∉ rest)
    (hrest' : .char '\n' ∉ rest')
    (h : longQuote ls ++ rest = longQuote ls' ++ rest') : ls = ls' ∧ rest = rest' := by
  have hsplit := congrArg (List.splitOn (.char '\n')) h
  rw [splitOn_longQuote hls hrest, splitOn_longQuote hls' hrest'] at hsplit
  obtain ⟨hbody, hlast⟩ := List.append_inj' (List.cons.inj hsplit).2 rfl
  refine ⟨?_, List.append_cancel_left (List.singleton_inj.mp hlast)⟩
  -- a line has its indent, so no lines are not one empty line
  have hne : ∀ l : List CodePoint, [] ≠ longIndent ++ l := by
    intro l
    simp [longIndent]
  have hindent : Function.Injective fun l : List CodePoint => longIndent ++ l := fun _ _ => List.append_cancel_left
  cases ls with
  | nil =>
    cases ls' with
    | nil => rfl
    | cons l' ls' => exact absurd (List.cons.inj hbody).1 (hne l')
  | cons l ls =>
    cases ls' with
    | nil => exact absurd (List.cons.inj hbody).1.symm (hne l)
    | cons l' ls' => exact List.map_injective_iff.mpr hindent hbody

/-- A quoted text shows its lines if it is set as a long one, itself if not, and what stands behind it. -/
theorem quote_append_inj {wrapped wrapped' : Bool} {cs cs' rest rest' : List CodePoint} (hrest : .char '\n' ∉ rest)
    (hrest' : .char '\n' ∉ rest') (h : quote wrapped cs ++ rest = quote wrapped' cs' ++ rest') :
    layout wrapped cs = layout wrapped' cs' ∧ (layout wrapped cs = none → cs = cs') ∧ rest = rest' := by
  have hshort {wrapped : Bool} {cs rest : List CodePoint} (hlayout : layout wrapped cs = none)
      (hrest : .char '\n' ∉ rest) : .char '\n' ∉ quote wrapped cs ++ rest := by
    have := NTriples.feed_notMem_escapeChars cs
    simp [quote_of_not_layout hlayout, this, hrest]
  have hlong {wrapped : Bool} {cs rest : List CodePoint} {ls : List (List CodePoint)}
      (hlayout : layout wrapped cs = some ls) : .char '\n' ∈ quote wrapped cs ++ rest := by
    simp [quote_of_layout hlayout, longQuote]
  -- a line feed tells the two settings apart
  cases hcs : layout wrapped cs with
  | none =>
    cases hcs' : layout wrapped' cs' with
    | none =>
      rw [quote_of_not_layout hcs, quote_of_not_layout hcs'] at h
      have htext : NTriples.escapeChars cs ++ .char '"' :: rest = NTriples.escapeChars cs' ++ .char '"' :: rest' := by
        simpa using h
      obtain ⟨hcs, hrest⟩ := escapeChars_append_inj htext
      exact ⟨rfl, fun _ => hcs, hrest⟩
    | some ls' => exact absurd (h ▸ hlong hcs') (hshort hcs hrest)
  | some ls =>
    cases hcs' : layout wrapped' cs' with
    | none => exact absurd (h ▸ hlong hcs) (hshort hcs' hrest')
    | some ls' =>
      rw [quote_of_layout hcs, quote_of_layout hcs'] at h
      obtain ⟨rfl, hrest⟩ := longQuote_append_inj (feed_notMem_layout hcs) (feed_notMem_layout hcs') hrest
        hrest' h
      exact ⟨rfl, fun hnone => absurd hnone (Option.some_ne_none _), hrest⟩

end Ontogram.Turtle

/-
What the written form of an object shows.

Names, lists, bare literals and quoted literals are written in forms that can be told apart, and each form
shows what it was made from, except where a typed literal is set as a long text: there its lines are shown,
but not how the text was broken into them.

* `LaidOutAlike.eq_of_not_wide` — literals laid out alike differ only where a wide one is broken at blanks;
* `renderLiteral_eq_iff` — quoted literals are written alike iff they are the same or laid out alike;
* `IsPlain` — names that do not blur the form of an object;
* `formOf_renderTerm` — the form can be read off;
* `renderTerm_eq_iff` — objects are written alike iff they are the same or laid out alike.
-/
import Ontogram.Proofs.BareLiterals
import Ontogram.Proofs.QuotedText
import Ontogram.Proofs.Tagging
namespace Ontogram.Turtle

/-! ### Literals -/

/-- What follows the closing quotes of a literal. -/
def suffix (l : Literal) : List CodePoint :=
  match nonempty l.language, nonempty l.datatype with
  | some language, _ => .char '@' :: language.toList
  | none, some datatype => .char '^' :: .char '^' :: datatype.toList
  | none, none => []

theorem toList_renderLiteral {l : Literal} (h : isBare l = false) :
    (renderLiteral l).toList = quote (nonempty l.datatype).isSome l.value.toList ++ suffix l := by
  unfold renderLiteral suffix
  rw [h]
  cases nonempty l.language with
  | some language => simp
  | none => cases nonempty l.datatype <;> simp

theorem suffix_eq {l : Literal} (h : l.IsSingle) : suffix l =
    match l.language, l.datatype with
    | some language, _ => .char '@' :: language.toList
    | none, some datatype => .char '^' :: .char '^' :: datatype.toList
    | none, none => [] := by
  rw [suffix, h.nonempty_language, h.nonempty_datatype]

theorem suffix_inj {l m : Literal} (hl : l.IsSingle) (hm : m.IsSingle) (h : suffix l = suffix m) :
    l.language = m.language ∧ l.datatype = m.datatype := by
  have hsingle := hl.single
  have hsingle' := hm.single
  rw [suffix_eq hl, suffix_eq hm] at h
  obtain ⟨_, datatype, language⟩ := l
  obtain ⟨_, datatype', language'⟩ := m
  cases language <;> cases datatype <;> cases language' <;> cases datatype' <;>
    simp_all [Text.toList_inj]

theorem feed_notMem_suffix {l : Literal} (h : l.IsSingle) (hfeed : ∀ n ∈ l.datatype, .char '\n' ∉ n.toList) :
    .char '\n' ∉ suffix l := by
  rw [suffix_eq h]
  cases hlanguage : l.language with
  | some tag =>
    have htag : .char '\n' ∉ tag.toList := fun hmem => by
      rcases NTriples.isTagChar_of_mem (h.isTag tag hlanguage) _ hmem with hchar | hchar <;> cases hchar
    simpa using htag
  | none =>
    cases hdatatype : l.datatype with
    | none => simp
    | some n => simpa using hfeed n hdatatype

/-- Quoted literals of one datatype that are set as long texts with the same lines. -/
structure LaidOutAlike (l m : Literal) : Prop where
  quoted : isBare l = false ∧ isBare m = false
  typed : ∃ n, l.datatype = some n ∧ m.datatype = some n
  lines : ∃ ls, layout true l.value.toList = some ls ∧ layout true m.value.toList = some ls

/-- Without a datatype a text is not broken at blanks, so its lines are its own. -/
theorem eq_of_layout_eq {cs cs' : List CodePoint} {ls : List (List CodePoint)} (h : layout false cs = some ls)
    (h' : layout false cs' = some ls) : cs = cs' := by
  have hjoin {cs : List CodePoint} (h : layout false cs = some ls) :
      List.intercalate [CodePoint.char '\n'] ls = cs := by
    unfold layout at h
    split at h
    · cases h
      exact List.intercalate_splitOn (CodePoint.char '\n')
    · cases h
  rw [← hjoin h, ← hjoin h']

/-- Of two different literals that are laid out alike, one is broken at its blanks: it is wide and has no
line feeds of its own. -/
theorem LaidOutAlike.eq_of_not_wide {l m : Literal} (h : LaidOutAlike l m) (hl : l.IsSingle)
    (hm : m.IsSingle) (hlwide : .char '\n' ∈ l.value.toList ∨ l.value.toList.length ≤ lineWidth)
    (hmwide : .char '\n' ∈ m.value.toList ∨ m.value.toList.length ≤ lineWidth) : l = m := by
  obtain ⟨n, hln, hmn⟩ := h.typed
  obtain ⟨ls, hlls, hmls⟩ := h.lines
  rw [layout_eq_of_not_wide hlwide] at hlls
  rw [layout_eq_of_not_wide hmwide] at hmls
  exact hl.eq_of_datatype hm hln hmn (Text.toList_inj.mp (eq_of_layout_eq hlls hmls))

/-- Quoted literals are written alike iff they are the same or laid out alike. -/
theorem renderLiteral_eq_iff {l m : Literal} (hl : l.IsSingle) (hm : m.IsSingle)
    (hlfeed : ∀ n ∈ l.datatype, .char '\n' ∉ n.toList) (hmfeed : ∀ n ∈ m.datatype, .char '\n' ∉ n.toList)
    (hlquoted : isBare l = false) (hmquoted : isBare m = false) :
    renderLiteral l = renderLiteral m ↔ l = m ∨ LaidOutAlike l m := by
  rw [← Text.toList_inj, toList_renderLiteral hlquoted, toList_renderLiteral hmquoted,
    hl.nonempty_datatype, hm.nonempty_datatype]
  constructor
  · intro h
    obtain ⟨hlayout, hvalue, hsuffix⟩ :=
      quote_append_inj (feed_notMem_suffix hl hlfeed) (feed_notMem_suffix hm hmfeed) h
    obtain ⟨hlanguage, hdatatype⟩ := suffix_inj hl hm hsuffix
    have heq (hvalue : l.value.toList = m.value.toList) : l = m := by
      obtain ⟨value, _, _⟩ := l
      obtain ⟨value', _, _⟩ := m
      rw [Text.toList_inj] at hvalue
      simp_all
    cases hlines : layout l.datatype.isSome l.value.toList with
    | none => exact .inl (heq (hvalue hlines))
    | some ls =>
      rw [hlines] at hlayout
      cases htyped : l.datatype with
      | none =>
        rw [htyped] at hlines
        rw [← hdatatype, htyped] at hlayout
        exact .inl (heq (eq_of_layout_eq hlines hlayout.symm))
      | some n =>
        rw [htyped] at hlines
        rw [← hdatatype, htyped] at hlayout
        exact .inr ⟨⟨hlquoted, hmquoted⟩, ⟨n, htyped, hdatatype ▸ htyped⟩, ⟨ls, hlines, hlayout.symm⟩⟩
  · rintro (rfl | ⟨-, ⟨n, hln, hmn⟩, ⟨ls, hlls, hmls⟩⟩)
    · rfl
    · rw [suffix_eq hl, suffix_eq hm, hl.language_eq_none hln, hm.language_eq_none hmn, hln, hmn]
      simp only [Option.isSome_some]
      rw [quote_of_layout hlls, quote_of_layout hmls]

/-! ### Objects -/

/-- The names do not blur the written form: a name begins like no other object, a datatype has no line feed,
and items have no blanks. -/
def IsPlain : Term → Prop
  | .name n => ∀ c ∈ n.toList.head?, c ≠ '"' ∧ c ≠ '('
  | .literal l => ∀ n ∈ l.datatype, .char '\n' ∉ n.toList
  | .list items => ∀ n ∈ items, .char ' ' ∉ n.toList

instance : DecidablePred IsPlain
  | .name n => inferInstanceAs (Decidable (∀ c ∈ n.toList.head?, c ≠ '"' ∧ c ≠ '('))
  | .literal l => inferInstanceAs (Decidable (∀ n ∈ l.datatype, .char '\n' ∉ n.toList))
  | .list items => inferInstanceAs (Decidable (∀ n ∈ items, .char ' ' ∉ n.toList))

/-- The four forms in which objects are written. -/
inductive Form where
  | name
  | list
  | bare
  | quoted
deriving DecidableEq

def form : Term → Form
  | .name _ => .name
  | .literal l => if isBare l then .bare else .quoted
  | .list _ => .list

theorem form_literal (l : Literal) : form (.literal l) = .bare ∨ form (.literal l) = .quoted := by
  cases h : isBare l <;> simp [form, h]

/-- The form that a text shows. -/
def formOf (cs : List CodePoint) : Form :=
  if cs.head? = some (.char '"') then .quoted
  else if cs.head? = some (.char '(') then .list
  else if .char ':' ∈ cs then .name
  else .bare

theorem head?_quote (wrapped : Bool) (cs : List CodePoint) : (quote wrapped cs).head? = some (.char '"') := by
  cases h : layout wrapped cs with
  | none => simp [quote_of_not_layout h]
  | some ls => simp [quote_of_layout h, longQuote]

/-- An object with qualified names that do not blur its form, and with one thing behind its quotes. -/
structure IsClear (o : Term) : Prop where
  single : o.IsSingle
  qualified : ∀ n ∈ o.names, Name.IsQualified n
  plain : IsPlain o

/-- The written form of a clear object shows its form. -/
theorem formOf_renderTerm {o : Term} (h : IsClear o) : formOf (renderTerm o).toList = form o := by
  cases o with
  | name n =>
    have hcolon : .char ':' ∈ n.toList := h.qualified n (List.mem_singleton_self n)
    have hquote : n.toList.head? ≠ some (.char '"') := fun hhead => (h.plain '"' hhead).1 rfl
    have hbracket : n.toList.head? ≠ some (.char '(') := fun hhead => (h.plain '(' hhead).2 rfl
    rw [renderTerm, formOf, if_neg hquote, if_neg hbracket, if_pos hcolon]
    rfl
  | literal l =>
    rw [renderTerm, form]
    cases hbare : isBare l with
    | true =>
      have hno {d : CodePoint} (hd : isBareChar d = false) : d ∉ l.value.toList :=
        notMem_of_forall (of_isBare hbare).2 hd
      have hhead {d : CodePoint} (hd : isBareChar d = false) : l.value.toList.head? ≠ some d := fun h =>
        hno hd (List.mem_of_mem_head? h)
      rw [renderLiteral, if_pos hbare, formOf, if_neg (hhead (by decide)), if_neg (hhead (by decide)),
        if_neg (hno (by decide))]
      rfl
    | false =>
      have hhead : (renderLiteral l).toList.head? = some (.char '"') := by
        rw [toList_renderLiteral hbare, List.head?_append, head?_quote]
        rfl
      rw [formOf, if_pos hhead]
      rfl
  | list items => cases items <;> simp [renderTerm, formOf, form]

/-- Lists of names without blanks are written alike only if they are the same. -/
theorem renderTerm_list_inj {items items' : List Text} (h : ∀ n ∈ items, .char ' ' ∉ n.toList)
    (h' : ∀ n ∈ items', .char ' ' ∉ n.toList)
    (heq : renderTerm (.list items) = renderTerm (.list items')) : items = items' := by
  -- the empty list has no blanks around it
  have hlength (item : Text) (items : List Text) :
      (renderTerm (.list (item :: items))).toList.length ≠ (renderTerm (.list [])).toList.length := by
    simp [renderTerm]
  cases items with
  | nil =>
    cases items' with
    | nil => rfl
    | cons item' items' => exact absurd (by rw [heq]) (hlength item' items')
  | cons item items =>
    cases items' with
    | nil => exact absurd (by rw [heq]) (hlength item items)
    | cons item' items' =>
      have hjoined : [CodePoint.char ' '].intercalate ((item :: items).map Text.toList) =
          [CodePoint.char ' '].intercalate ((item' :: items').map Text.toList) := by
        simpa [renderTerm, ← Text.toList_inj, Text.toList_intercalate] using heq
      have hsplit := congrArg (List.splitOn (.char ' ')) hjoined
      rw [List.splitOn_intercalate (CodePoint.char ' ') (List.forall_mem_map.mpr h) (by simp),
        List.splitOn_intercalate (CodePoint.char ' ') (List.forall_mem_map.mpr h') (by simp)] at hsplit
      exact List.map_injective_iff.mpr (fun _ _ => Text.toList_inj.mp) hsplit

/-- Bare literals are written alike only if they are the same. -/
theorem eq_of_isBare {l m : Literal} (hl : l.IsSingle) (hm : m.IsSingle) (hlbare : isBare l = true)
    (hmbare : isBare m = true) (h : renderLiteral l = renderLiteral m) : l = m := by
  rw [renderLiteral, renderLiteral, if_pos hlbare, if_pos hmbare] at h
  -- the common text shows the common datatype
  exact hl.eq_of_datatype hm (of_isBare hlbare).1 (h ▸ (of_isBare hmbare).1) h

/-- **Which objects are written alike.** Clear objects are written alike iff they are the same or literals
that are laid out alike. -/
theorem renderTerm_eq_iff {a b : Term} (ha : IsClear a) (hb : IsClear b) :
    renderTerm a = renderTerm b ↔
      a = b ∨ ∃ l m, a = .literal l ∧ b = .literal m ∧ LaidOutAlike l m := by
  constructor
  · intro h
    have hform : form a = form b := by rw [← formOf_renderTerm ha, h, formOf_renderTerm hb]
    -- only objects of one form can be written alike
    cases a with
    | name n =>
      cases b with
      | name m => exact .inl (congrArg Term.name h)
      | literal m => rcases form_literal m with hm | hm <;> cases hform.trans hm
      | list items => cases hform
    | list items =>
      cases b with
      | name m => cases hform
      | literal m => rcases form_literal m with hm | hm <;> cases hform.trans hm
      | list items' =>
        exact .inl (congrArg Term.list (renderTerm_list_inj ha.plain hb.plain h))
    | literal l =>
      cases b with
      | name m => rcases form_literal l with hl | hl <;> cases hl.symm.trans hform
      | list items => rcases form_literal l with hl | hl <;> cases hl.symm.trans hform
      | literal m =>
        have hl := ha.single l rfl
        have hm := hb.single m rfl
        cases hlbare : isBare l with
        | true =>
          have hmbare : isBare m = true := by simpa [form, hlbare] using hform
          exact .inl (congrArg Term.literal (eq_of_isBare hl hm hlbare hmbare h))
        | false =>
          have hmbare : isBare m = false := by simpa [form, hlbare] using hform
          exact ((renderLiteral_eq_iff hl hm ha.plain hb.plain hlbare hmbare).mp h).imp
            (congrArg Term.literal) fun halike => ⟨l, m, rfl, rfl, halike⟩
  · rintro (rfl | ⟨l, m, rfl, rfl, h⟩)
    · rfl
    · exact (renderLiteral_eq_iff (ha.single l rfl) (hb.single m rfl) ha.plain hb.plain h.quoted.1
        h.quoted.2).mpr (.inr h)

end Ontogram.Turtle

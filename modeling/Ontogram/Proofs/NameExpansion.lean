/-
Names and the identifiers they stand for.

A name is made by putting a label, a colon and a local part together, and it is taken apart at its first
colon. A label may itself have a colon, so the two need not be inverse:

* `expand_eq` — what a name with a colon expands to;
* `expand_label_append_iff` — a name made from a label expands to the label's namespace and the local part
  iff the label is *transparent*: what stands before its first colon leads to the same identifiers;
* `shorten_eq_ok`, `resolve_eq_some_iff` — the names that are made from identifiers and from written texts;
* `names_expand_back_iff` — all names that a prefix map makes expand back to what they were made from iff
  all its labels are transparent.
-/
import Mathlib.Data.List.TakeDrop
import Mathlib.Data.List.TakeWhile
import Ontogram.Name
namespace Ontogram

namespace Name

/-! ### Taking a name apart -/

theorem cut_append {before : List CodePoint} (h : .char ':' ∉ before) (after : List CodePoint) :
    cut (before ++ .char ':' :: after) = (some before, after) := by
  have hbefore : ∀ c ∈ before, (c != ':') = true := by
    intro c hc
    exact bne_iff_ne.mpr fun hcc => h (hcc ▸ hc)
  rw [cut, List.span_eq_takeWhile_dropWhile, List.takeWhile_append_of_pos hbefore,
    List.dropWhile_append_of_pos hbefore]
  simp

theorem cut_of_notMem {cs : List CodePoint} (h : .char ':' ∉ cs) : cut cs = (none, cs) := by
  have hcs : ∀ c ∈ cs, (c != ':') = true := by
    intro c hc
    exact bne_iff_ne.mpr fun hcc => h (hcc ▸ hc)
  rw [cut, List.span_eq_takeWhile_dropWhile, List.takeWhile_eq_self_iff.mpr hcs, List.dropWhile_eq_nil_iff.mpr hcs]

/-- A name with a colon is qualified. -/
def IsQualified (name : Text) : Prop := .char ':' ∈ name.toList

instance : DecidablePred IsQualified := fun name => inferInstanceAs (Decidable (.char ':' ∈ name.toList))

theorem isQualified_append (label localPart : Text) : IsQualified (label ++ ":" ++ localPart) := by
  simp [IsQualified]

theorem expand_eq (declared : PrefixMap) {name : Text} (h : IsQualified name) :
    expand declared name =
      match declared.lookup (label name) with
      | some ns => .ok (ns ++ localPart name)
      | none => .error (.undeclared (label name)) := by
  obtain ⟨before, after, hname, hbefore⟩ := List.eq_append_cons_of_mem h
  have hcut : cut name.toList = (some before, after) := by rw [hname, cut_append hbefore]
  unfold expand label localPart
  rw [hcut]
  cases declared.lookup (Text.ofList before) <;> rfl

/-- A qualified name expands iff its label is declared. -/
theorem expand_isOk_iff (declared : PrefixMap) {name : Text} (h : IsQualified name) :
    (∃ iri, expand declared name = .ok iri) ↔ Assoc.has declared (label name) = true := by
  rw [expand_eq declared h, Assoc.has]
  cases declared.lookup (label name) with
  | none => simp
  | some ns => simp

section Append

variable {own : List CodePoint} (hown : .char ':' ∉ own)

include hown

/-- The label of a name ends at the first colon, wherever that comes from. -/
theorem label_append {l : Text} {rest : List CodePoint} (hl : l.toList = own ++ .char ':' :: rest)
    (localPart : Text) : label (l ++ ":" ++ localPart) = Text.ofList own := by
  have h : (l ++ ":" ++ localPart).toList = own ++ .char ':' :: (rest ++ .char ':' :: localPart.toList) := by
    simp [hl]
  rw [label, h, cut_append hown, Option.getD_some]

theorem localPart_append {l : Text} {rest : List CodePoint} (hl : l.toList = own ++ .char ':' :: rest)
    (r : Text) : localPart (l ++ ":" ++ r) = Text.ofList rest ++ ":" ++ r := by
  have h : (l ++ ":" ++ r).toList = own ++ .char ':' :: (rest ++ .char ':' :: r.toList) := by
    simp [hl]
  rw [localPart, h, cut_append hown, ← Text.toList_inj]
  simp

end Append

theorem label_append_of_notMem {l : Text} (hl : .char ':' ∉ l.toList) (r : Text) :
    label (l ++ ":" ++ r) = l := by
  have h : (l ++ ":" ++ r).toList = l.toList ++ .char ':' :: r.toList := by simp
  rw [label, h, cut_append hl, Option.getD_some, Text.ofList_toList]

theorem localPart_append_of_notMem {l : Text} (hl : .char ':' ∉ l.toList) (r : Text) :
    localPart (l ++ ":" ++ r) = r := by
  have h : (l ++ ":" ++ r).toList = l.toList ++ .char ':' :: r.toList := by simp
  rw [localPart, h, cut_append hl, Text.ofList_toList]

/-! ### Transparent labels -/

/-- A label is transparent if a colon in it does no harm: what stands before the first one is a label as
well, and its namespace followed by the rest of the label and a colon is the label's own namespace. -/
def IsTransparent (declared : PrefixMap) (label : Text) : Prop :=
  ∀ own rest, label.toList = own ++ .char ':' :: rest → .char ':' ∉ own →
    ∃ ns, declared.lookup (Text.ofList own) = some ns ∧
      declared.lookup label = some (ns ++ Text.ofList rest ++ ":")

theorem isTransparent_of_notMem (declared : PrefixMap) {label : Text} (h : .char ':' ∉ label.toList) :
    IsTransparent declared label := by
  intro own rest hlabel _
  exact absurd (hlabel ▸ List.mem_append_right own List.mem_cons_self) h

/-- A name made from a label expands to the label's namespace and the local part iff the label is
transparent. -/
theorem expand_label_append_iff {declared : PrefixMap} {l ns : Text}
    (hl : declared.lookup l = some ns) (r : Text) :
    expand declared (l ++ ":" ++ r) = .ok (ns ++ r) ↔ IsTransparent declared l := by
  rw [expand_eq declared (isQualified_append l r)]
  by_cases hcolon : .char ':' ∈ l.toList
  · obtain ⟨own, rest, hsplit, hown⟩ := List.eq_append_cons_of_mem hcolon
    rw [label_append hown hsplit, localPart_append hown hsplit]
    constructor
    · intro h own' rest' hsplit' hown'
      -- a label has only one first colon
      have hcut : (some own', rest') = (some own, rest) := by
        rw [← cut_append hown', ← cut_append hown, ← hsplit', hsplit]
      obtain ⟨rfl, rfl⟩ : own' = own ∧ rest' = rest := by simpa using hcut
      cases hns : declared.lookup (Text.ofList own') with
      | none => simp [hns] at h
      | some ns' =>
        have h' : ns' ++ Text.ofList rest' ++ ":" ++ r = ns ++ r := by
          simpa [hns, Text.append_assoc] using h
        rw [Text.append_left_inj] at h'
        exact ⟨ns', rfl, by rw [hl, h']⟩
    · intro h
      obtain ⟨ns', hns', hl'⟩ := h own rest hsplit hown
      obtain rfl : ns = ns' ++ Text.ofList rest ++ ":" := Option.some_inj.mp (hl.symm.trans hl')
      simp only [hns', Text.append_assoc]
  · rw [label_append_of_notMem hcolon, localPart_append_of_notMem hcolon, hl]
    exact iff_of_true rfl (isTransparent_of_notMem declared hcolon)

/-! ### The names that are made -/

/-- A name for an identifier puts a label whose namespace the identifier starts with before the rest. -/
theorem shorten_eq_ok {declared : PrefixMap} {iri name : Text} (h : shorten declared iri = .ok name) :
    ∃ l ns r, (l, ns) ∈ declared ∧ ns ≠ "" ∧ iri = ns ++ r ∧ name = l ++ ":" ++ r := by
  simp only [shorten] at h
  split at h
  · rename_i l ns others hsorted
    have hmem : (l, ns) ∈ declared.filter fun p =>
        !p.2.isEmpty && p.2.toList.isPrefixOf iri.toList := by
      rw [← (List.mergeSort_perm _ closer).mem_iff, hsorted]
      exact List.mem_cons_self
    obtain ⟨hdeclared, hcovers⟩ := List.mem_filter.mp hmem
    rw [Bool.and_eq_true, List.isPrefixOf_iff_prefix] at hcovers
    obtain ⟨hne, tail, htail⟩ := hcovers
    have hr : iri.toList.drop ns.length = tail := by
      rw [← htail, ← Text.length_toList, List.drop_left]
    refine ⟨l, ns, Text.ofList tail, hdeclared, ?_, ?_, ?_⟩
    · rintro rfl
      simp at hne
    · rw [← Text.toList_inj, Text.toList_append, Text.toList_ofList, htail]
    · rw [← hr]
      exact (Except.ok.inj h).symm
  · cases h

/-- Resolving splits a text, takes the domain for a missing label and puts the parts together again. -/
theorem resolve_eq_some_iff {s domain name : Text} {declared : Option PrefixMap} :
    resolve s domain declared = some name ↔
      ∃ own r, split s = some (own, r) ∧ r ≠ "" ∧ own.getD domain ≠ "" ∧
        declared.all (Assoc.has · (own.getD domain)) = true ∧ name = own.getD domain ++ ":" ++ r := by
  unfold resolve
  cases hs : split s with
  | none => simp
  | some parts =>
    obtain ⟨own, r⟩ := parts
    constructor
    · intro h
      simp only [Bool.or_eq_true, Text.isEmpty_iff] at h
      split at h
      · cases h
      · rename_i hne
        split at h
        · rename_i hdecl
          rw [not_or] at hne
          exact ⟨own, r, rfl, hne.1, hne.2, hdecl, (Option.some_inj.mp h).symm⟩
        · cases h
    · rintro ⟨own', r', hparts, hr, hown, hdecl, rfl⟩
      obtain ⟨rfl, rfl⟩ : own = own' ∧ r = r' := by simpa using hparts
      simp [hr, hown, hdecl]

theorem isQualified_of_resolve {s domain name : Text} {declared : Option PrefixMap}
    (h : resolve s domain declared = some name) : IsQualified name := by
  obtain ⟨own, r, -, -, -, -, rfl⟩ := resolve_eq_some_iff.mp h
  exact isQualified_append _ _

/-! ### Back to what a name was made from -/

/-- Transparent labels lead back to the identifier of a name. -/
theorem expand_of_shorten {declared : PrefixMap} (hkeys : (Assoc.keys declared).Nodup)
    (h : ∀ l ∈ Assoc.keys declared, IsTransparent declared l) {iri name : Text}
    (hname : shorten declared iri = .ok name) : expand declared name = .ok iri := by
  obtain ⟨l, ns, r, hmem, -, rfl, rfl⟩ := shorten_eq_ok hname
  exact (expand_label_append_iff (Assoc.lookup_of_mem hkeys hmem) r).mpr (h l (List.mem_map_of_mem hmem))

/-- **Names expand back iff labels are transparent.** For a prefix map all of whose labels are transparent,
the name of an identifier expands to that identifier, and the name that a text means in a domain expands to
the namespace of its label, or of the domain, followed by its local part; for any other prefix map one of
the two fails. -/
theorem names_expand_back_iff {declared : PrefixMap} (hkeys : (Assoc.keys declared).Nodup) :
    ((∀ iri name, shorten declared iri = .ok name → expand declared name = .ok iri) ∧
      ∀ text domain name own r, resolve text domain (some declared) = some name →
        split text = some (own, r) →
        ∃ ns, declared.lookup (own.getD domain) = some ns ∧ expand declared name = .ok (ns ++ r)) ↔
    ∀ l ∈ Assoc.keys declared, IsTransparent declared l := by
  constructor
  · rintro ⟨-, hresolve⟩ l hl
    by_cases hcolon : .char ':' ∈ l.toList
    · -- the label as the domain of a text without a label of its own
      have hne : l ≠ "" := by
        rintro rfl
        simp at hcolon
      have hname : resolve "x" l (some declared) = some (l ++ ":" ++ "x") :=
        resolve_eq_some_iff.mpr
          ⟨none, "x", rfl, by decide, hne, by simpa using Assoc.has_iff_mem_keys.mpr hl, rfl⟩
      obtain ⟨ns, hns, hexpand⟩ := hresolve "x" l _ none "x" hname rfl
      exact (expand_label_append_iff hns "x").mp hexpand
    · exact isTransparent_of_notMem declared hcolon
  · intro h
    refine ⟨fun iri name hname => expand_of_shorten hkeys h hname, ?_⟩
    intro text domain name own r hname hsplit
    obtain ⟨own', r', hsplit', -, -, hdecl, rfl⟩ := resolve_eq_some_iff.mp hname
    obtain ⟨rfl, rfl⟩ : own = own' ∧ r = r' := by simpa [hsplit] using hsplit'
    obtain ⟨ns, hns⟩ := Option.isSome_iff_exists.mp hdecl
    exact ⟨ns, hns, (expand_label_append_iff hns r).mpr (h _ (Assoc.has_iff_mem_keys.mp hdecl))⟩

/-- Labels of which one stands before the colon of the other, over namespaces that fit. -/
def nestedLabels : PrefixMap := [("a:b", "http://x/b:"), ("a", "http://x/")]

theorem names_expand_back_nestedLabels :
    (Assoc.keys nestedLabels).Nodup ∧ shorten nestedLabels "http://x/b:1" = .ok "a:b:1" ∧
      ∀ iri name, shorten nestedLabels iri = .ok name → expand nestedLabels name = .ok iri := by
  have hkeys : (Assoc.keys nestedLabels).Nodup := by decide
  have hns : nestedLabels.lookup ("a" : Text) = some "http://x/" := by decide
  have ha : IsTransparent nestedLabels "a" :=
    (expand_label_append_iff hns "").mp (by decide +kernel)
  have hns' : nestedLabels.lookup ("a:b" : Text) = some "http://x/b:" := by decide
  have hab : IsTransparent nestedLabels "a:b" :=
    (expand_label_append_iff hns' "").mp (by decide +kernel)
  have htransparent : ∀ l ∈ Assoc.keys nestedLabels, IsTransparent nestedLabels l := by
    intro l hl
    rcases List.mem_cons.mp hl with rfl | hl
    · exact hab
    · obtain rfl : l = "a" := List.mem_singleton.mp hl
      exact ha
  have hshort : shorten nestedLabels "http://x/b:1" = .ok "a:b:1" := by
    have hsort : nestedLabels.mergeSort closer = nestedLabels :=
      List.mergeSort_of_pairwise (by decide +kernel)
    rw [shorten, List.filter_eq_self.mpr (by decide +kernel), hsort]
    decide +kernel
  exact ⟨hkeys, hshort, ((names_expand_back_iff hkeys).mpr htransparent).1⟩

/-- With a colon in a label the name of an identifier may expand to another one, without any error. -/
theorem shortened_name_expands_elsewhere :
    shorten [("a:b", "http://x/"), ("a", "http://y/")] "http://x/1" = .ok "a:b:1" ∧
      expand [("a:b", "http://x/"), ("a", "http://y/")] "a:b:1" = .ok "http://y/b:1" := by
  decide +kernel

end Name

end Ontogram

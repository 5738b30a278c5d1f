/-
A diagram's statements are those that its rules declare.

The statements of the elements come first, then one list of key attributes for each class that has any,
sorted by position. Against the rules of `Diagram.Declares`:

* `mem_parts_iff` — every diamond, every tree and every arrow contributes once;
* `declares_of_mem_parts`, `isKeyPart_of_mem_keyParts` — what is contributed follows a rule;
* `mem_keyParts_iff`, `pairwise_keyParts` — the key parts are those of the attributes with positions, each once;
* `isKeyOf_iff` — a class's primary key is its sorted key parts;
* `mem_generate_iff` — the statements are exactly the declared ones, less those with undeclared names.
-/
import Mathlib.Data.List.Sort
import Mathlib.Data.Prod.Lex
import Ontogram.Proofs.Contributions
namespace Ontogram

/-! ### The order of key parts -/

namespace KeyPart

/-- The order of key parts is lexicographic. -/
def rank (k : KeyPart) : ℕ ×ₗ Text ×ₗ Text := toLex (k.position, toLex (k.attributeName, k.arrow))

theorem precedes_iff {a b : KeyPart} : a.Precedes b ↔ a.rank < b.rank := by
  rw [rank, rank, Prod.Lex.toLex_lt_toLex, Prod.Lex.toLex_lt_toLex]
  rfl

instance : Std.Irrefl Precedes := ⟨fun _ h => lt_irrefl _ (precedes_iff.mp h)⟩

instance : Std.Antisymm Precedes :=
  ⟨fun _ _ hab hba => absurd (precedes_iff.mp hab) (precedes_iff.mp hba).not_gt⟩

theorem keyBefore_iff {a b : KeyPart} : Diagram.keyBefore a b = true ↔ a.rank ≤ b.rank := by
  rw [rank, rank, Prod.Lex.toLex_le_toLex, Prod.Lex.toLex_le_toLex]
  simp only [Diagram.keyBefore]
  -- by position, then by attribute, then by arrow
  rcases lt_trichotomy a.position b.position with hlt | heq | hgt
  · simp [compare_lt_iff_lt.mpr hlt, hlt]
  · rcases lt_trichotomy a.attributeName b.attributeName with hlt' | heq' | hgt'
    · simp [heq, compare_lt_iff_lt.mpr hlt', hlt']
    · have harrow : (compare a.arrow b.arrow).isLE = true ↔ a.arrow ≤ b.arrow := by
        rw [Ordering.isLE_iff_ne_gt, ← not_lt, ← compare_gt_iff_gt]
      simp [heq, heq', harrow]
    · simp [heq, compare_gt_iff_gt.mpr hgt', hgt'.not_gt, hgt'.ne']
  · simp [compare_gt_iff_gt.mpr hgt, hgt.not_gt, hgt.ne']

end KeyPart

namespace Diagram

variable {d : Diagram}

/-- A sorted key holds the parts of its class. -/
theorem mem_keyOf {subject : Text} {keys : List KeyPart} {k : KeyPart} :
    k ∈ keyOf subject keys ↔ k ∈ keys ∧ k.subject = subject := by
  rw [keyOf, (List.mergeSort_perm _ keyBefore).mem_iff, List.mem_filter, beq_iff_eq]

theorem pairwise_keyOf (subject : Text) (keys : List KeyPart) :
    (keyOf subject keys).Pairwise fun a b => a.rank ≤ b.rank :=
  Traversal.pairwise_mergeSort_of_rank (fun a b => KeyPart.keyBefore_iff (a := a) (b := b)) _

/-! ### The contributions of a diagram -/

theorem mem_parts_iff {C : Contribution} :
    C ∈ d.parts ↔
      (∃ id s, (id, .diamond s) ∈ d.elements ∧ d.diamondPart s = C) ∨
      (∃ id t, (id, .tree t) ∈ d.elements ∧ treePart d.classNames t = C) ∨
      ∃ id a, (id, .arrow a) ∈ d.elements ∧ d.arrowPart d.classNames a = C := by
  simp only [parts, diamondParts, treeParts, arrowParts, List.mem_append, List.mem_filterMap,
    Prod.exists, or_assoc]
  refine or_congr ?_ (or_congr ?_ ?_) <;>
  · constructor
    · rintro ⟨id, e, he, h⟩
      cases e <;> first | exact ⟨id, _, he, Option.some_inj.mp h⟩ | cases h
    · rintro ⟨id, s, hs, rfl⟩
      exact ⟨id, _, hs, rfl⟩

/-- Whatever is contributed follows a rule; elements need only stand under their own ids. -/
theorem declares_of_mem_parts (hid : ∀ id e, (id, e) ∈ d.elements → e.id = id) {C : Contribution}
    (hC : C ∈ d.parts) {s : Statement} (hs : s ∈ C.statements) : d.Declares s := by
  -- the contribution is that of a diamond, of a tree or of an arrow
  rcases mem_parts_iff.mp hC with ⟨id, sh, he, rfl⟩ | ⟨id, t, he, rfl⟩ | ⟨id, a, he, rfl⟩
  · obtain ⟨c, hread, rfl⟩ := mem_diamondPart_iff.mp hs
    obtain ⟨label, hlabel⟩ := readDiamond_eq_declares_iff.mp hread
    exact .classOf ⟨sh, label, he, hlabel⟩
  · obtain ⟨root, values, hroot, hvalues, hne, rfl⟩ := mem_treePart_iff.mp hs
    obtain rfl : t.id = id := hid _ _ he
    have hitems := (enumValues_eq_some_iff.mp hvalues).imp fun item value h =>
      And.intro h.1 (resolves_of_lookup hid h.2)
    exact .enumerationOf ⟨he, resolves_of_lookup hid hroot, hitems, hne⟩
  · obtain rfl : a.id = id := hid _ _ he
    rcases arrowPart_yields hid he with
      ⟨h, hstatements, -⟩ | ⟨h, hstatements, -⟩ | ⟨h, hstatements, -⟩ | ⟨h, hstatements, -⟩ |
        ⟨hstatements, -⟩
    · exact .attributeOf h (hstatements s hs)
    · exact .relationshipOf h (hstatements s hs)
    · rw [hstatements, List.mem_singleton] at hs
      exact hs ▸ .annotationOf h
    · rw [hstatements, List.mem_singleton] at hs
      exact hs ▸ .spelledOut h
    · rw [hstatements] at hs
      cases hs

/-! ### Key parts -/

/-- The key parts that an element contributes. -/
def elementKeys (d : Diagram) : Element → List KeyPart
  | .arrow a => (d.arrowPart d.classNames a).keys
  | _ => []

theorem keyParts_eq : d.keyParts = d.elements.flatMap fun p => d.elementKeys p.2 := by
  -- neither diamonds nor trees contribute to a key
  have hdiamonds : d.diamondParts.flatMap (·.keys) = [] := by
    rw [List.flatMap_eq_nil_iff, diamondParts]
    intro C hC
    obtain ⟨⟨id, e⟩, -, h⟩ := List.mem_filterMap.mp hC
    cases e with
    | diamond s =>
      obtain rfl := Option.some_inj.mp h
      exact diamondPart_keys s
    | _ => cases h
  have htrees : (d.treeParts d.classNames).flatMap (·.keys) = [] := by
    rw [List.flatMap_eq_nil_iff, treeParts]
    intro C hC
    obtain ⟨⟨id, e⟩, -, h⟩ := List.mem_filterMap.mp hC
    cases e with
    | tree t =>
      obtain rfl := Option.some_inj.mp h
      exact treePart_keys _ t
    | _ => cases h
  rw [keyParts, parts, List.flatMap_append, List.flatMap_append, hdiamonds, htrees, arrowParts,
    List.filterMap_eq_flatMap_toList, List.flatMap_assoc]
  refine List.flatMap_congr fun p _ => ?_
  obtain ⟨id, e⟩ := p
  cases e <;> simp [elementKeys]

theorem isKeyPart_of_mem_elementKeys (hid : ∀ id e, (id, e) ∈ d.elements → e.id = id) {id : Text}
    {e : Element} (he : (id, e) ∈ d.elements) {k : KeyPart} (hk : k ∈ d.elementKeys e) :
    d.IsKeyPart k ∧ k.arrow = id := by
  cases e with
  | arrow a =>
    obtain rfl : a.id = id := hid _ _ he
    rcases arrowPart_yields hid he with
      ⟨h, -, hkeys⟩ | ⟨-, -, hkeys⟩ | ⟨-, -, hkeys⟩ | ⟨-, -, hkeys⟩ | ⟨-, hkeys⟩
    · obtain ⟨position, hposition, rfl⟩ : ∃ position, _ ∧ _ = k := by
        simpa [elementKeys, hkeys, keyPartsOf] using hk
      exact ⟨⟨a, _, _, _, _, h, hposition, rfl⟩, rfl⟩
    all_goals simp [elementKeys, hkeys] at hk
  | _ => cases hk

theorem isKeyPart_of_mem_keyParts (hid : ∀ id e, (id, e) ∈ d.elements → e.id = id) {k : KeyPart}
    (hk : k ∈ d.keyParts) : d.IsKeyPart k := by
  rw [keyParts_eq] at hk
  obtain ⟨p, hp, hk⟩ := List.mem_flatMap.mp hk
  exact (isKeyPart_of_mem_elementKeys hid hp hk).1

section Keyed

variable (hd : d.elements.IsKeyed)

include hd

theorem mem_keyParts_iff {k : KeyPart} : k ∈ d.keyParts ↔ d.IsKeyPart k := by
  refine ⟨isKeyPart_of_mem_keyParts hd.id_eq, ?_⟩
  rintro ⟨a, i, j, datatype, c, h, hposition, harrow⟩
  rw [keyParts_eq]
  refine List.mem_flatMap.mpr ⟨_, h.arrow, ?_⟩
  simp [elementKeys, (arrowPart_of_isAttribute hd h).2, keyPartsOf, hposition, harrow]

/-- No two key parts come from the same arrow. -/
theorem pairwise_keyParts : d.keyParts.Pairwise fun k l => k.arrow ≠ l.arrow := by
  have hentries := hd.nodup
  rw [Assoc.keys, List.Nodup, List.pairwise_map] at hentries
  rw [keyParts_eq, List.pairwise_flatMap]
  constructor
  · -- one arrow contributes one part at most
    rintro ⟨id, e⟩ he
    cases e with
    | arrow a =>
      obtain rfl : a.id = id := hd.id_eq _ _ he
      rcases arrowPart_yields hd.id_eq he with
        @⟨_, _, _, _, _, c, _, -, -, hkeys⟩ | ⟨-, -, hkeys⟩ | ⟨-, -, hkeys⟩ | ⟨-, -, hkeys⟩ | ⟨-, hkeys⟩
      · cases hposition : c.key <;> simp [elementKeys, hkeys, keyPartsOf, hposition]
      all_goals simp [elementKeys, hkeys]
    | _ => exact .nil
  · -- and the parts of different arrows have different arrows
    refine hentries.imp_of_mem fun {p q} hp hq hne k hk l hl => ?_
    rw [(isKeyPart_of_mem_elementKeys hd.id_eq hp hk).2,
      (isKeyPart_of_mem_elementKeys hd.id_eq hq hl).2]
    exact hne

/-- A list is the primary key of a class iff it is the class's key parts, sorted, and has any. -/
theorem isKeyOf_iff {subject : Text} {keys : List KeyPart} :
    d.IsKeyOf subject keys ↔ keys = keyOf subject d.keyParts ∧ keys ≠ [] := by
  have hmem : ∀ k, k ∈ keyOf subject d.keyParts ↔ d.IsKeyPart k ∧ k.subject = subject := by
    intro k
    rw [mem_keyOf, mem_keyParts_iff hd]
  have harrows : (keyOf subject d.keyParts).Pairwise fun k l => k.arrow ≠ l.arrow :=
    (List.mergeSort_perm _ keyBefore).symm.pairwise ((pairwise_keyParts hd).filter _) Ne.symm
  -- parts of one rank would come from one arrow, so sorted parts are in strict order
  have hordered : (keyOf subject d.keyParts).Pairwise KeyPart.Precedes :=
    (pairwise_keyOf subject d.keyParts).imp₂ (fun k l hle hne => KeyPart.precedes_iff.mpr <|
      hle.lt_of_ne fun heq => hne (congrArg (fun r => (ofLex (ofLex r).2).2) heq)) harrows
  constructor
  · intro h
    exact ⟨h.ordered.eq_of_mem_iff hordered fun k => (h.mem_iff k).trans (hmem k).symm, h.nonempty⟩
  · rintro ⟨rfl, hne⟩
    exact ⟨hne, hordered, hmem⟩

end Keyed

/-! ### The statements -/

theorem mem_domainStatements {s : Statement} :
    s ∈ domainStatements d.domain d.declared ↔
      d.HasDomain ∧
        (s = ⟨d.domain ++ ":", Vocabulary.type, .name Vocabulary.domainModelType⟩ ∨
          s = ⟨d.domain ++ ":", Vocabulary.domain, .literal ⟨d.domain, none, none⟩⟩) := by
  unfold domainStatements HasDomain
  cases d.declared <;> by_cases hempty : d.domain = "" <;> simp [hempty]

theorem mem_keyStatements {keys : List KeyPart} {s : Statement} :
    s ∈ keyStatements keys ↔
      ∃ subject, keyOf subject keys ≠ [] ∧
        s = ⟨subject, Vocabulary.primaryKey, .list ((keyOf subject keys).map (·.attributeName))⟩ := by
  have hsubject : ∀ subject, subject ∈ keyedSubjects keys ↔ keyOf subject keys ≠ [] := by
    intro subject
    rw [keyedSubjects, List.mem_eraseDups, List.mem_map]
    constructor
    · rintro ⟨k, hk, hsubject⟩
      exact List.ne_nil_of_mem (mem_keyOf.mpr ⟨hk, hsubject⟩)
    · intro hne
      obtain ⟨k, hk⟩ := List.exists_mem_of_ne_nil _ hne
      exact ⟨k, mem_keyOf.mp hk⟩
  simp only [keyStatements, List.mem_map, hsubject, eq_comm]

/-- What a rule declares is among the statements before undeclared names are looked at. -/
theorem mem_allStatements_iff (hd : d.elements.IsKeyed) {s : Statement} :
    s ∈ d.allStatements ↔ d.Declares s := by
  simp only [allStatements, List.mem_append, List.mem_flatMap, mem_domainStatements, mem_keyStatements]
  constructor
  · rintro ((⟨hdomain, rfl | rfl⟩ | ⟨C, hC, hs⟩) | ⟨subject, hne, rfl⟩)
    · exact .domainModel hdomain
    · exact .domainName hdomain
    · exact declares_of_mem_parts hd.id_eq hC hs
    · exact .primaryKeyOf ((isKeyOf_iff hd).mpr ⟨rfl, hne⟩)
  · intro h
    cases h with
    | domainModel h => exact .inl (.inl ⟨h, .inl rfl⟩)
    | domainName h => exact .inl (.inl ⟨h, .inr rfl⟩)
    | classOf h =>
      obtain ⟨sh, label, he, hlabel⟩ := h
      have hread := readDiamond_eq_declares_iff.mpr ⟨label, hlabel⟩
      exact .inl (.inr ⟨_, mem_parts_iff.mpr (.inl ⟨_, sh, he, rfl⟩),
        mem_diamondPart_iff.mpr ⟨_, hread, rfl⟩⟩)
    | attributeOf h hs =>
      exact .inl (.inr ⟨_, mem_parts_iff.mpr (.inr (.inr ⟨_, _, h.arrow, rfl⟩)),
        (arrowPart_of_isAttribute hd h).1 _ hs⟩)
    | relationshipOf h hs =>
      exact .inl (.inr ⟨_, mem_parts_iff.mpr (.inr (.inr ⟨_, _, h.arrow, rfl⟩)),
        arrowPart_of_isRelationship hd h hs⟩)
    | annotationOf h =>
      exact .inl (.inr ⟨_, mem_parts_iff.mpr (.inr (.inr ⟨_, _, h.arrow, rfl⟩)),
        arrowPart_of_isAnnotation hd h⟩)
    | spelledOut h =>
      exact .inl (.inr ⟨_, mem_parts_iff.mpr (.inr (.inr ⟨_, _, h.arrow, rfl⟩)),
        arrowPart_of_spellsOut hd h⟩)
    | enumerationOf h =>
      have hvalues := enumValues_eq_some_iff.mpr (h.items.imp fun item value hitem =>
        And.intro hitem.1 (lookup_of_resolves hd hitem.2))
      exact .inl (.inr ⟨_, mem_parts_iff.mpr (.inr (.inl ⟨_, _, h.tree, rfl⟩)),
        mem_treePart_iff.mpr ⟨_, _, lookup_of_resolves hd h.resolved, hvalues, h.nonempty, rfl⟩⟩)
    | primaryKeyOf h =>
      obtain ⟨rfl, hne⟩ := (isKeyOf_iff hd).mp h
      exact .inr ⟨_, hne, rfl⟩

theorem mem_statements_iff {s : Statement} :
    s ∈ d.statements ↔ s ∈ d.allStatements ∧
      ∀ declared, d.declared = some declared → s.isDeclared declared = true := by
  unfold statements
  cases d.declared with
  | none => simp
  | some declared => simp

end Diagram

end Ontogram

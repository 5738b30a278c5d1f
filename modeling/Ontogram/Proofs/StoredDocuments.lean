/-
What a store has for documents.

Whatever is put into a store is stored as its canonical text. So a store that has canonical texts of documents
that compile goes on having nothing else, in its histories neither, and to put a document again changes
nothing, in whatever order its keys come now:

* `IsCanonicalText` — the canonical text of a document that compiles;
* `Spells` — a value that holds what a text holds, its keys and blanks aside;
* `Store.HoldsCanonicalTexts` — what is stored, or could come back from a history, is such a text;
* `Store.put_spelling` — a document is put again;
* `Store.IsShut` — a store that has no room for a step back, and so refuses to put anything;
* `Store.stays_canonical` — all this together, for every store that was opened on such texts.
-/
import Ontogram.Proofs.Restart
import Ontogram.Proofs.StoreView
namespace Ontogram

open Json (HasDistinctKeys Reorders hasDistinctKeys_of_parse)

/-! ### Canonical texts -/

/-- The canonical text of a document that compiles. -/
def IsCanonicalText (v : Json) : Prop :=
  ∃ text c, v = .str text ∧ compileText text = .ok c ∧ c.canonical = text

/-- The value, read first if it is a text, holds what the text holds, but for the order of keys. -/
inductive Spells (text : Text) : Json → Prop
  | text {spelling : Text} {v w : Json} (hv : Json.parse spelling = .ok v) (hw : Json.parse text = .ok w)
      (h : v.Reorders w) : Spells text (.str spelling)
  | mapping {fields : Assoc Json} {w : Json} (hkeys : (Json.obj fields).HasDistinctKeys)
      (hw : Json.parse text = .ok w) (h : (Json.obj fields).Reorders w) : Spells text (.obj fields)

variable {v : Json} {c : Compilation} {text : Text}

/-- What compiles is a value that repeats no key, or the text of one. -/
theorem exists_of_compileValue (hv : v.HasDistinctKeys) (h : compileValue v = .ok c) :
    ∃ w, w.HasDistinctKeys ∧ compile w = .ok c := by
  unfold compileValue at h
  split at h
  · obtain ⟨w, hw, hc⟩ := compileText_eq_ok_iff.mp h
    exact ⟨w, hasDistinctKeys_of_parse hw, hc⟩
  · exact ⟨v, hv, h⟩

theorem isCanonicalText_of_compileValue (hv : v.HasDistinctKeys) (h : compileValue v = .ok c) :
    IsCanonicalText (.str c.canonical) := by
  obtain ⟨w, hw, hc⟩ := exists_of_compileValue hv h
  exact ⟨_, c, rfl, (compileText_canonical hw (canonicalize_of_compile hc)).trans hc, rfl⟩

theorem spells_self (h : compileText text = .ok c) : Spells text (.str text) := by
  obtain ⟨w, hw, -⟩ := compileText_eq_ok_iff.mp h
  exact .text hw hw (.refl w)

/-- Whatever spells a text compiles as the text does. -/
theorem Spells.compileValue_eq (hspells : Spells text v) (h : compileText text = .ok c) :
    compileValue v = .ok c := by
  obtain ⟨w, hw, hc⟩ := compileText_eq_ok_iff.mp h
  cases hspells with
  | @text spelling u w' hu hw' hreorders =>
    cases hw.symm.trans hw'
    have hc' := (compile_eq_ok_iff_of_reorders (hasDistinctKeys_of_parse hu) hreorders c).mpr hc
    exact compileText_eq_ok_iff.mpr ⟨u, hu, hc'⟩
  | mapping hkeys hw' hreorders =>
    cases hw.symm.trans hw'
    exact (compile_eq_ok_iff_of_reorders hkeys hreorders c).mpr hc

namespace Store

/-! ### From one operation to the next -/

/-- A document that is offered repeats no key. -/
def Operation.OffersDistinctKeys (op : Operation) : Prop := ∀ id v, op = .put id v → v.HasDistinctKeys

/-- Everything that a store has for a document, or could get back from a history, is a canonical text. -/
structure HoldsCanonicalTexts (s : Store) : Prop where
  stored : ∀ key v, s.documents.lookup key = some v → IsCanonicalText v
  held : ∀ key h, s.histories.lookup key = some h → ∀ v, h.Holds v → IsCanonicalText v

variable {s t : Store}

theorem Invariant.holdsCanonicalTexts (h : s.Invariant fun _ => IsCanonicalText) : s.HoldsCanonicalTexts :=
  ⟨h.stored, fun key hist hhist v hv => ((h.recorded key hist hhist).holds v hv).1⟩

/-- What is put is canonical, and is put under a text. -/
theorem Operation.OffersDistinctKeys.of_puts {op : Operation} (hop : op.OffersDistinctKeys) {key : Key}
    (h : op.Puts key v) : key.isText = true ∧ IsCanonicalText v := by
  cases h with
  | put hc => exact ⟨rfl, isCanonicalText_of_compileValue (hop _ _ rfl) hc⟩

/-- Only putting brings in a value. -/
theorem Invariant.runAll {Allowed : Key → Json → Prop} (h : s.Invariant Allowed)
    (hallowed : ∀ key v, key.isText = true → IsCanonicalText v → Allowed key v) {ops : List Operation}
    (hops : ∀ op ∈ ops, op.OffersDistinctKeys) : (runAll ops s).Invariant Allowed := by
  refine (invariant_runAll h ops).mono fun key v hv => ?_
  rcases hv with hv | ⟨op, hop, hput⟩
  · exact hv
  · obtain ⟨hkey, hv⟩ := (hops op hop).of_puts hput
    exact hallowed key v hkey hv

theorem limit_and_histories_of_open {limit : Int} {file : Option ByteArray}
    (h : Store.open limit file = .ok s) : s.limit = limit ∧ s.histories = [] := by
  unfold Store.open at h
  split at h
  · cases h
    exact ⟨rfl, rfl⟩
  · obtain ⟨contents, -, h⟩ := Traversal.bind_eq_ok_iff.mp h
    cases h
    exact ⟨rfl, rfl⟩

theorem invariant_of_stored (hlimit : 1 ≤ s.limit) (hhistories : s.histories = [])
    {Allowed : Key → Json → Prop} (hstored : ∀ key v, s.documents.lookup key = some v → Allowed key v) :
    s.Invariant Allowed := by
  refine ⟨hlimit, hstored, fun key hist hhist => ?_⟩
  rw [hhistories] at hhist
  cases hhist

/-! ### Without room for a step back -/

/-- No history can be made, and none was. -/
structure IsShut (s : Store) : Prop where
  limit_lt : s.limit < 1
  histories_eq : s.histories = []

theorem IsShut.historyOf (h : s.IsShut) (key : Key) : s.historyOf key = .error (.limit .tooSmall) := by
  rw [Store.historyOf, h.histories_eq, List.lookup_nil, History.start?, if_pos h.limit_lt]

theorem IsShut.put (h : s.IsShut) {id : Text} (hc : compileValue v = .ok c) :
    s.put id v = (.error (.limit .tooSmall), s) := by
  unfold Store.put
  simp only [hc, h.historyOf]

theorem IsShut.of_alike (h : s.IsShut) (halike : s.Alike t) : t.IsShut := by
  refine ⟨halike.limit_eq ▸ h.limit_lt, List.eq_nil_iff_forall_not_mem.mpr fun e he => ?_⟩
  -- a history that is kept would be one that could be made
  obtain ⟨hist, hhist⟩ := Assoc.exists_lookup_iff_mem_keys.mpr (List.mem_map_of_mem he)
  cases (historyOf_of_lookup hhist).symm.trans ((halike.historyOf_eq _).trans (h.historyOf _))

/-- Nothing can be done to documents but to drop them. -/
theorem IsShut.edit (h : s.IsShut) {op : Operation} (hedit : s.Edit op t) :
    t.IsShut ∧ ∀ key v, t.documents.lookup key = some v → s.documents.lookup key = some v := by
  cases hedit with
  | put _ hhist _ => cases (h.historyOf _).symm.trans hhist
  | step _ hhist _ => cases (h.historyOf _).symm.trans hhist
  | @remove id _ =>
    refine ⟨⟨h.limit_lt, ?_⟩, fun key v hv => ?_⟩
    · rw [withoutRecord, h.histories_eq]
      rfl
    · rw [withoutRecord, Assoc.lookup_erase] at hv
      split at hv
      · cases hv
      · exact hv
  | setScene _ => exact ⟨⟨h.limit_lt, h.histories_eq⟩, fun _ _ hv => hv⟩

theorem IsShut.run (h : s.IsShut) (op : Operation) :
    (op.run s).IsShut ∧
      ∀ key v, (op.run s).documents.lookup key = some v → s.documents.lookup key = some v := by
  refine run_of_edit (fun halike hkept => ?_) ⟨h, fun _ _ hv => hv⟩ fun _ hedit => h.edit hedit
  obtain ⟨hshut, hfewer⟩ := hkept
  exact ⟨hshut.of_alike halike, fun key v hv => hfewer key v (halike.documents_eq ▸ hv)⟩

theorem IsShut.runAll (h : s.IsShut) (ops : List Operation) :
    (runAll ops s).IsShut ∧
      ∀ key v, (runAll ops s).documents.lookup key = some v → s.documents.lookup key = some v := by
  induction ops generalizing s with
  | nil => exact ⟨h, fun _ _ hv => hv⟩
  | cons op rest ih =>
    obtain ⟨hnext, hfewer⟩ := h.run op
    obtain ⟨hend, hfewer'⟩ := ih hnext
    exact ⟨hend, fun key v hv => hfewer key v (hfewer' key v hv)⟩

theorem IsShut.holdsCanonicalTexts (h : s.IsShut)
    (hstored : ∀ key v, s.documents.lookup key = some v → IsCanonicalText v) : s.HoldsCanonicalTexts := by
  refine ⟨hstored, fun key hist hhist => ?_⟩
  rw [h.histories_eq] at hhist
  cases hhist

/-! ### Putting a document again -/

/-- A value that is reported not to be new changes nothing. -/
theorem unchanged_put {id : Text} (h : (s.put id v).1 = .ok (text, false)) :
    s.Unchanged (s.put id v).2 := by
  rcases put_cases (s := s) id v with ⟨_, -, hput⟩ | ⟨c, hist, -, hhist, ⟨-, hput⟩ | ⟨-, hput⟩⟩ <;> rw [hput] at h ⊢
  · cases h
  · exact unchanged_withHistory hhist
  · cases (changed_fst_eq_ok_iff.mp h).2

/-- A document is put again, as itself or in another spelling. -/
theorem put_spelling (h : s.Invariant fun _ => IsCanonicalText) {id : Text}
    (hstored : s.get id = some (.str text)) (hspells : Spells text v) :
    (s.put id v).1 = .ok (text, false) := by
  obtain ⟨_, c, heq, hc, hcanonical⟩ := h.stored (.text id) _ (value_eq_some_iff.mp hstored).1
  cases heq
  rcases put_of_compileValue h id (hspells.compileValue_eq hc) with ⟨-, hput⟩ | ⟨hnew, -⟩
  · rw [hput, hcanonical]
  · rw [hcanonical] at hnew
    exact absurd hstored hnew

/-- **Stored documents.** A store is opened without a file, or on one that has nothing but canonical texts for
documents, and used in any way. Then it has nothing else, and no history leads to anything else. To put a
stored document again, in whatever spelling, changes nothing. It is reported not to be new, or refused if the
store has no room for a step back. -/
theorem stays_canonical {limit : Int} {file : Option ByteArray} (hopen : Store.open limit file = .ok s)
    (hfile : ∀ key v, s.documents.lookup key = some v → IsCanonicalText v) {ops : List Operation}
    (hops : ∀ op ∈ ops, op.OffersDistinctKeys) :
    (runAll ops s).HoldsCanonicalTexts ∧
      ∀ id stored, (runAll ops s).get id = some stored →
        ∃ text, stored = .str text ∧ Spells text stored ∧ ∀ v, Spells text v →
          (runAll ops s).Unchanged ((runAll ops s).put id v).2 ∧
            ((runAll ops s).put id v).1 =
              if 1 ≤ limit then .ok (text, false) else .error (.limit .tooSmall) := by
  obtain ⟨hlimit, hhistories⟩ := limit_and_histories_of_open hopen
  -- a stored value is a text, whichever way putting it ends
  have htext : (runAll ops s).HoldsCanonicalTexts → ∀ id stored, (runAll ops s).get id = some stored →
      ∃ text c, stored = .str text ∧ Spells text stored ∧ compileText text = .ok c := by
    intro h id stored hstored
    obtain ⟨text, c, rfl, hc, -⟩ := h.stored (.text id) stored (value_eq_some_iff.mp hstored).1
    exact ⟨text, c, rfl, spells_self hc, hc⟩
  by_cases hroom : 1 ≤ limit
  · have hinvariant := (invariant_of_stored (hlimit ▸ hroom) hhistories hfile).runAll
      (fun _ _ _ hv => hv) hops
    refine ⟨hinvariant.holdsCanonicalTexts, fun id stored hstored => ?_⟩
    obtain ⟨text, c, rfl, hself, -⟩ := htext hinvariant.holdsCanonicalTexts id stored hstored
    refine ⟨text, rfl, hself, fun v hv => ?_⟩
    have hput := put_spelling hinvariant hstored hv
    rw [if_pos hroom]
    exact ⟨unchanged_put hput, hput⟩
  · have hshut : s.IsShut := ⟨hlimit ▸ Int.not_le.mp hroom, hhistories⟩
    obtain ⟨hshut, hfewer⟩ := hshut.runAll ops
    have htexts := hshut.holdsCanonicalTexts fun key v hv => hfile key v (hfewer key v hv)
    refine ⟨htexts, fun id stored hstored => ?_⟩
    obtain ⟨text, c, rfl, hself, hc⟩ := htext htexts id stored hstored
    refine ⟨text, rfl, hself, fun v hv => ?_⟩
    rw [hshut.put (hv.compileValue_eq hc), if_neg hroom]
    exact ⟨.refl _, rfl⟩

/-! ### A document in a file -/

/-- A document of one namespace, without anything else. -/
def plainDocument : Json := rawDocument "p" "http://p/" ""

theorem compile_plainDocument :
    ∃ c, compile plainDocument = .ok c ∧ c.canonical = plainDocument.canonical := by
  have hraw : NTriples.parseRaw [("p", "http://p/")] "" = .ok [] := by decide +kernel
  exact ⟨_, compile_rawDocument hraw, rfl⟩

theorem hasDistinctKeys_plainDocument : plainDocument.HasDistinctKeys := hasDistinctKeys_rawDocument _ _ _

theorem isCanonicalText_plainDocument : IsCanonicalText (.str plainDocument.canonical) := by
  obtain ⟨c, hc, hcanonical⟩ := compile_plainDocument
  exact hcanonical ▸ isCanonicalText_of_compileValue hasDistinctKeys_plainDocument hc

def plainFields : Assoc Json :=
  [("domain", .str ""), ("elements", .obj []), ("prefixes", .obj [("p", .str "http://p/")]),
    ("rawStatements", .str "")]

/-- The same document with its keys backwards. -/
def backwardsDocument : Json := .obj plainFields.reverse

theorem reorders_backwardsDocument : backwardsDocument.Reorders plainDocument :=
  .fields (List.reverse_perm plainFields)

theorem hasDistinctKeys_backwardsDocument : backwardsDocument.HasDistinctKeys :=
  hasDistinctKeys_plainDocument.of_reorders reorders_backwardsDocument.symm

theorem spells_backwardsDocument : Spells plainDocument.canonical backwardsDocument := by
  have hread : Json.parse plainDocument.canonical = .ok plainDocument := by
    rw [Json.parse_canonical ⟨hasDistinctKeys_plainDocument, rfl⟩, plainDocument, sortKeys_rawDocument]
  exact .mapping hasDistinctKeys_backwardsDocument hread reorders_backwardsDocument

def plainDocuments : Assoc Json := [("d", .str plainDocument.canonical)]

def plainScene : Assoc Json := [("x", .int 0), ("y", .int 0), ("k", .int 1)]

/-- A state file with that document. -/
def plainFile : ByteArray := StateFile.encode ⟨.ofFields plainDocuments, .ofFields plainScene⟩

def plainStore (limit : Int) : Store :=
  ⟨limit, .ofFields plainDocuments, [], .ofFields plainScene, 0, some plainFile⟩

theorem isWritable_plainStore (limit : Int) : (plainStore limit).contents.IsWritable := by
  have hencodable : (Json.str plainDocument.canonical).isEncodable = true :=
    (Json.isEncodable_canonical _).trans (by decide)
  exact StateFile.isWritable_iff.mpr ⟨List.forall_mem_singleton.mpr ⟨rfl, rfl, hencodable⟩,
    Entries.isWritable_ofFields (show (Json.obj plainScene).hasShortNumbers = true from rfl) rfl⟩

theorem open_plainFile (limit : Int) : Store.open limit (some plainFile) = .ok (plainStore limit) := by
  have hdocuments : (Json.obj plainDocuments).HasDistinctKeys :=
    .obj (by decide) (List.forall_mem_singleton.mpr (.str _))
  have hscene : (Json.obj plainScene).HasDistinctKeys := by
    refine .obj (by decide) ?_
    simp only [plainScene, List.forall_mem_cons]
    exact ⟨.int _, .int _, .int _, List.forall_mem_nil _⟩
  exact open_of_decode (StateFile.decode_encode hdocuments hscene (isWritable_plainStore limit)) limit

theorem isCanonicalText_of_plainStore (limit : Int) (key : Key) (v : Json)
    (h : (plainStore limit).documents.lookup key = some v) : IsCanonicalText v := by
  obtain ⟨e, he, heq⟩ := List.mem_map.mp (Assoc.mem_of_lookup h)
  cases heq
  rw [List.mem_singleton.mp he]
  exact isCanonicalText_plainDocument

/-- The document is put again with its keys backwards, after there was nothing to undo and another was
stored. -/
theorem stays_canonical_backwards : ∃ s, Store.open 1 (some plainFile) = .ok s ∧
    (∀ key v, s.documents.lookup key = some v → IsCanonicalText v) ∧
    (∀ op ∈ [Operation.undo "d", .put "e" plainDocument], op.OffersDistinctKeys) ∧
    let t := runAll [.undo "d", .put "e" plainDocument] s
    t.HoldsCanonicalTexts ∧ t.Unchanged (t.put "d" backwardsDocument).2 ∧
      (t.put "d" backwardsDocument).1 = .ok (plainDocument.canonical, false) := by
  have hops : ∀ op ∈ [Operation.undo "d", .put "e" plainDocument], op.OffersDistinctKeys := by
    simp [Operation.OffersDistinctKeys, hasDistinctKeys_plainDocument]
  have hfile := isCanonicalText_of_plainStore 1
  obtain ⟨htexts, hput⟩ := stays_canonical (open_plainFile 1) hfile hops
  have hget : (runAll [.undo "d", .put "e" plainDocument] (plainStore 1)).get "d" =
      some (.str plainDocument.canonical) := by
    obtain ⟨c, hc, -⟩ := compile_plainDocument
    have hvalue : compileValue plainDocument = .ok c := hc
    show (((plainStore 1).undo "d").2.put "e" plainDocument).2.get "d" = _
    rw [Store.put, hvalue]
    show Option.filter _ ((Store.changed _ _).2.documents.lookup _) = _
    rw [documents_changed]
    rfl
  obtain ⟨text, heq, -, hagain⟩ := hput "d" _ hget
  cases heq
  exact ⟨_, open_plainFile 1, hfile, hops, htexts, hagain _ spells_backwardsDocument⟩

/-- Without room for a step back even the stored text is refused. -/
theorem stored_text_refused : ∃ s, Store.open 0 (some plainFile) = .ok s ∧
    (∀ key v, s.documents.lookup key = some v → IsCanonicalText v) ∧
    s.get "d" = some (.str plainDocument.canonical) ∧
    (s.put "d" (.str plainDocument.canonical)).1 = .error (.limit .tooSmall) := by
  obtain ⟨_, c, heq, hc, -⟩ := isCanonicalText_plainDocument
  cases heq
  refine ⟨_, open_plainFile 0, isCanonicalText_of_plainStore 0, rfl, ?_⟩
  have hshut : (plainStore 0).IsShut := ⟨Int.zero_lt_one, rfl⟩
  have hvalue : compileValue (.str plainDocument.canonical) = .ok c := hc
  rw [hshut.put hvalue]

end Store

end Ontogram

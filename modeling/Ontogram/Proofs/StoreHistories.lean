/-
Documents and their histories.

A store keeps the value of a document twice, among its documents and as the current value of the document's
history, and makes histories whenever it is asked about a document, stored or not. Both stay the same value:

* `Store.Invariant` — every history has the stored value for its current one, and holds only what is allowed;
* `Invariant.edit`, `invariant_run` — edits keep that, and so do operations; the values that come in are those that are
  put;
* `Store.IsLinked` — what follows for putting, for steps back and forth, and for a document after its removal;
* `Store.isLinked_runAll` — every store that was opened and used is linked;
* `Store.failed_put_changes_store` — a document that cannot be written, and is stored.
-/
import Ontogram.Proofs.AtomicUpdate
namespace Ontogram

theorem Assoc.keys_insert_of_has {κ α : Type} [DecidableEq κ] {key : κ} {entries : List (κ × α)}
    (h : has entries key = true) (v : α) : keys (insert key v entries) = keys entries := by
  have hmem := has_iff_mem_keys.mp h
  clear h
  induction entries with
  | nil => cases hmem
  | cons e rest ih =>
    obtain ⟨k, u⟩ := e
    by_cases hk : key = k
    · simp [insert, hk, keys]
    · have hrest : key ∈ keys rest := (List.mem_cons.mp hmem).resolve_left hk
      simpa [insert, hk, keys] using ih hrest

namespace Store

open History (IsMove isMove_undo isMove_redo)

/-! ### All histories of a store -/

/-- There is room for a step back, and every history records the stored value of its document. What is stored
or held is allowed for its key. -/
structure Invariant (Allowed : Key → Json → Prop) (s : Store) : Prop where
  room : 1 ≤ s.limit
  stored : ∀ key v, s.documents.lookup key = some v → Allowed key v
  recorded : ∀ key h, s.histories.lookup key = some h → h.Records (Allowed key) (s.value key)

variable {Allowed Allowed' : Key → Json → Prop} {s t : Store}

theorem value_eq_some_iff {key : Key} {v : Json} :
    s.value key = some v ↔ s.documents.lookup key = some v ∧ v ≠ .null := by
  unfold value
  rw [Option.filter_eq_some_iff, decide_eq_true_eq]

theorem Invariant.mono (h : s.Invariant Allowed) (hallowed : ∀ key v, Allowed key v → Allowed' key v) :
    s.Invariant Allowed' :=
  ⟨h.room, fun key v hv => hallowed key v (h.stored key v hv),
    fun key hist hhist => (h.recorded key hist hhist).mono (hallowed key)⟩

/-- A history that is made for a question records the stored value, too. -/
theorem Invariant.historyOf (h : s.Invariant Allowed) {key : Key} {hist : History Json}
    (hhist : s.historyOf key = .ok hist) : hist.Records (Allowed key) (s.value key) := by
  unfold Store.historyOf at hhist
  split at hhist
  · rename_i hlookup
    cases hhist
    exact h.recorded key _ hlookup
  · unfold History.start? at hhist
    by_cases hlimit : s.limit < 1
    · rw [if_pos hlimit] at hhist
      cases hhist
    · rw [if_neg hlimit] at hhist
      cases hhist
      refine ⟨rfl, fun _ => ⟨rfl, rfl⟩, fun w hw => ?_⟩
      obtain ⟨hstored, hnull⟩ := value_eq_some_iff.mp ((hw.resolve_left List.not_mem_nil).resolve_right
        List.not_mem_nil)
      exact ⟨h.stored key w hstored, hnull⟩

/-- A document and the current value of its history change together. -/
theorem Invariant.withDocument (h : s.Invariant Allowed) {key : Key} {hist : History Json} {v : Json}
    (hhist : hist.Records (Allowed key) (some v)) :
    ((s.withHistory key hist).withDocument key v).Invariant Allowed := by
  obtain ⟨hallowed, hnull⟩ := hhist.holds v (.inr (.inl hhist.current_eq))
  have hlookup : ∀ k, ((s.withHistory key hist).withDocument key v).documents.lookup k =
      if k = key then some v else s.documents.lookup k := fun k =>
    Assoc.lookup_insert key k v s.documents
  refine ⟨h.room, fun k w hw => ?_, fun k hist' hlookup' => ?_⟩
  · rw [hlookup k] at hw
    by_cases hk : k = key
    · rw [if_pos hk] at hw
      cases hw
      exact hk ▸ hallowed
    · rw [if_neg hk] at hw
      exact h.stored k w hw
  · have hhistories : (Assoc.insert key hist s.histories).lookup k = some hist' := hlookup'
    rw [Assoc.lookup_insert] at hhistories
    unfold value
    rw [hlookup k]
    by_cases hk : k = key
    · rw [if_pos hk] at hhistories ⊢
      cases hhistories
      have hvalue : (some v).filter (fun w => decide (w ≠ .null)) = some v :=
        Option.filter_some_pos (decide_eq_true hnull)
      rw [hvalue]
      exact hk ▸ hhist
    · rw [if_neg hk] at hhistories ⊢
      exact h.recorded k hist' hhistories

/-- Nothing is left of a document in its history either. -/
theorem Invariant.withoutRecord (h : s.Invariant Allowed) (key : Key) : (s.withoutRecord key).Invariant Allowed := by
  refine ⟨h.room, fun k v hv => ?_, fun k hist hhist => ?_⟩
  · have hlookup : (Assoc.erase key s.documents).lookup k = some v := hv
    rw [Assoc.lookup_erase] at hlookup
    split at hlookup
    · cases hlookup
    · exact h.stored k v hlookup
  · have hlookup : (Assoc.erase key s.histories).lookup k = some hist := hhist
    rw [Assoc.lookup_erase] at hlookup
    split at hlookup
    · cases hlookup
    · rename_i hkey
      have hvalue : (s.withoutRecord key).value k = s.value k := by
        rw [value, value, Store.withoutRecord, Assoc.lookup_erase, if_neg hkey]
      rw [hvalue]
      exact h.recorded k hist hlookup

theorem Invariant.of_alike (h : s.Invariant Allowed) (halike : s.Alike t) : t.Invariant Allowed := by
  refine ⟨halike.limit_eq ▸ h.room, fun key v hv => h.stored key v (halike.documents_eq ▸ hv), fun key hist hhist => ?_⟩
  have hvalue : t.value key = s.value key := by rw [value, value, halike.documents_eq]
  rw [hvalue]
  exact h.historyOf ((halike.historyOf_eq key).symm.trans (historyOf_of_lookup hhist))

/-- What a step arrives at was held by the history, so it is allowed. -/
theorem Invariant.allowed_of_move (h : s.Invariant Allowed) {key : Key} {hist : History Json}
    (hhist : s.historyOf key = .ok hist) {move : History Json → Option Json × History Json} (hmove : IsMove move)
    {v : Json} (hv : (move hist).1 = some v) : Allowed key v := by
  have hheld : hist.Holds v := (hmove.arrives hist v hv).2.elim .inl fun hfuture => .inr (.inr hfuture)
  exact ((h.historyOf hhist).holds v hheld).1

/-! ### Operations one after another -/

/-- The operation puts the value under the key. -/
inductive Operation.Puts : Operation → Key → Json → Prop
  | put {id : Text} {v : Json} {c : Compilation} (h : compileValue v = .ok c) :
      Puts (.put id v) (.text id) (.str c.canonical)

/-- Only putting brings in a value. -/
theorem Invariant.edit (h : s.Invariant Allowed) {op : Operation} (hedit : s.Edit op t) :
    t.Invariant fun key v => Allowed key v ∨ op.Puts key v := by
  have h' := h.mono fun key v hv => (Or.inl hv : Allowed key v ∨ op.Puts key v)
  cases hedit with
  | put hc hhist _ => exact h'.withDocument ((h'.historyOf hhist).push (.inr (.put hc)) (by simp))
  | step hmoves hhist hv => exact h'.withDocument ((h'.historyOf hhist).move hmoves.isMove hv)
  | remove _ => exact h'.withoutRecord _
  | setScene _ => exact ⟨h'.room, h'.stored, h'.recorded⟩

theorem invariant_run (h : s.Invariant Allowed) (op : Operation) :
    (op.run s).Invariant fun key v => Allowed key v ∨ op.Puts key v :=
  run_of_edit (fun halike hinvariant => hinvariant.of_alike halike) (h.mono fun _ _ => .inl) fun _ hedit => h.edit hedit

/-- The store after operations one after another. -/
def runAll (ops : List Operation) (s : Store) : Store := ops.foldl (fun s op => op.run s) s

theorem invariant_runAll (h : s.Invariant Allowed) (ops : List Operation) :
    (runAll ops s).Invariant fun key v => Allowed key v ∨ ∃ op ∈ ops, op.Puts key v := by
  induction ops generalizing s Allowed with
  | nil => exact h.mono fun key v => .inl
  | cons op rest ih =>
    refine (ih (invariant_run h op)).mono fun key v hv => ?_
    rcases hv with (hv | hput) | ⟨op', hmem, hput⟩
    · exact .inl hv
    · exact .inr ⟨op, List.mem_cons_self, hput⟩
    · exact .inr ⟨op', List.mem_cons_of_mem _ hmem, hput⟩

/-- A store that was just opened has no histories. -/
theorem invariant_open {limit : Int} {file : Option ByteArray} (hlimit : 1 ≤ limit)
    (h : Store.open limit file = .ok s) : s.Invariant fun _ _ => True := by
  unfold Store.open at h
  split at h
  · cases h
    refine ⟨hlimit, fun _ _ _ => trivial, fun _ _ hhist => ?_⟩
    cases hhist
  · obtain ⟨contents, -, h⟩ := Traversal.bind_eq_ok_iff.mp h
    cases h
    refine ⟨hlimit, fun _ _ _ => trivial, fun _ _ hhist => ?_⟩
    cases hhist

/-! ### What follows -/

/-- With room for a step back every document has a history. -/
theorem Invariant.exists_historyOf (h : s.Invariant Allowed) (key : Key) : ∃ hist, s.historyOf key = .ok hist := by
  unfold Store.historyOf
  split
  · exact ⟨_, rfl⟩
  · exact ⟨_, by rw [History.start?, if_neg (Int.not_lt.mpr h.room)]⟩

/-- A value that compiles is put; it is new iff its canonical text is not the stored one, and a new one has to be
written. -/
theorem put_of_compileValue (h : s.Invariant Allowed) (id : Text) {v : Json}
    {c : Compilation} (hc : compileValue v = .ok c) :
    (s.get id = some (.str c.canonical) ∧ (s.put id v).1 = .ok (c.canonical, false)) ∨
      s.get id ≠ some (.str c.canonical) ∧ ∃ hist, s.put id v =
        (s.withRecord (.text id) hist (.str c.canonical)).changed (c.canonical, true) := by
  obtain ⟨hist, hhist⟩ := h.exists_historyOf (.text id)
  have hcurrent : hist.current = s.get id := (h.historyOf hhist).current_eq
  have hnew : (hist.push (.str c.canonical)).1 = true ↔ s.get id ≠ some (.str c.canonical) := by
    rw [← hcurrent, History.push_fst]
  unfold put
  simp only [hc, hhist, hnew]
  by_cases hsame : s.get id = some (.str c.canonical)
  · exact .inl ⟨hsame, by rw [if_neg (not_not.mpr hsame)]⟩
  · exact .inr ⟨hsame, _, by rw [if_pos hsame]; rfl⟩

/-- A step keeps the keys: it arrives somewhere only if the document is stored. -/
theorem keys_step {move : History Json → Option Json × History Json} (hmove : IsMove move)
    (h : s.Invariant Allowed) (id : Text) :
    Assoc.keys (s.step move id).2.documents = Assoc.keys s.documents := by
  rcases step_cases hmove id with ⟨l, hstep⟩ | ⟨hist, hhist, ⟨-, hstep⟩ | ⟨v, hv, hstep⟩⟩ <;> rw [hstep]
  · rfl
  · -- a history that leads somewhere records a stored document, so the key is there
    obtain ⟨w, hw⟩ := Option.isSome_iff_exists.mp ((h.historyOf hhist).isSome_of_move hmove hv)
    have hhas : Assoc.has s.documents (.text id) = true := by
      rw [Assoc.has, (value_eq_some_iff.mp hw).1]
      rfl
    rw [documents_changed]
    exact Assoc.keys_insert_of_has hhas v

theorem lookup_remove (id : Text) : (s.remove id).2.documents.lookup (.text id) = none := by
  rcases remove_cases (s := s) id with ⟨-, hremove⟩ | ⟨hhas, hremove⟩ <;> rw [hremove]
  · rw [documents_changed]
    exact (Assoc.lookup_erase _ _ _).trans (if_pos rfl)
  · exact Option.not_isSome_iff_eq_none.mp (Bool.eq_false_iff.mp hhas)

/-- Nothing is left of a document that was removed, in its history neither. -/
theorem invariant_of_removed (h : s.Invariant Allowed) (id : Text) :
    (s.remove id).2.Invariant fun key _ => key ≠ .text id := by
  have hremoved : (s.remove id).2.Invariant _ := invariant_run h (.remove id)
  have habsent := lookup_remove (s := s) id
  refine ⟨hremoved.room, fun key v hv hkey => ?_, fun key hist hhist => ?_⟩
  · rw [hkey, habsent] at hv
    cases hv
  · -- a history of the document would stand at no value, so it is empty
    have hrecords := hremoved.recorded key hist hhist
    refine ⟨hrecords.current_eq, hrecords.idle, fun w hw => ⟨fun hkey => ?_, (hrecords.holds w hw).2⟩⟩
    have hnone : hist.current = none := by
      rw [hrecords.current_eq, hkey, value, habsent]
      rfl
    obtain ⟨hpast, hfuture⟩ := hrecords.idle hnone
    rcases hw with hw | hw | hw
    · rw [hpast] at hw
      cases hw
    · rw [hnone] at hw
      cases hw
    · rw [hfuture] at hw
      cases hw

/-- Documents and histories belong together. -/
structure IsLinked (s : Store) : Prop where
  /-- Each history stands at the stored value of its document, or at none. -/
  current_eq : ∀ key h, s.histories.lookup key = some h → h.current = s.value key
  /-- A value that compiles is put; it is reported as new iff its canonical text is not the stored one. A new one
  that the file cannot hold ends with an error. -/
  put_eq : ∀ id v c, compileValue v = .ok c →
    (s.put id v).1 = .ok (c.canonical, decide (s.get id ≠ some (.str c.canonical))) ∨
      s.get id ≠ some (.str c.canonical) ∧ ¬ (s.withDocument (.text id) (.str c.canonical)).contents.IsWritable ∧
        ∃ fault, (s.put id v).1 = .error (.notWritten fault)
  /-- A value that is refused leaves everything as it was. One that the file cannot hold is stored, and not counted
  as a change. -/
  put_error : ∀ id v e t, s.put id v = (.error e, t) →
    ((∀ fault, e ≠ .notWritten fault) ∧ t = s) ∨
      (∃ fault, e = .notWritten fault) ∧ t.get id ≠ s.get id ∧ t.version = s.version
  /-- Steps back and forth neither add a document nor drop one. -/
  keys_undo : ∀ id, Assoc.keys (s.undo id).2.documents = Assoc.keys s.documents
  keys_redo : ∀ id, Assoc.keys (s.redo id).2.documents = Assoc.keys s.documents
  /-- Whatever is done after a document was removed, under its id stands only what was put there since. -/
  put_since_remove : ∀ id ops v, (runAll ops (s.remove id).2).documents.lookup (.text id) = some v →
    ∃ op ∈ ops, op.Puts (.text id) v

theorem get_withRecord (id : Text) (hist : History Json) (text : Text) :
    (s.withRecord (.text id) hist (.str text)).get id = some (.str text) := by
  have hlookup : (s.withRecord (.text id) hist (.str text)).documents.lookup (.text id) = some (.str text) :=
    (Assoc.lookup_insert _ _ _ s.documents).trans (if_pos rfl)
  exact value_eq_some_iff.mpr ⟨hlookup, by rintro ⟨⟩⟩

theorem Invariant.isLinked (h : s.Invariant Allowed) : s.IsLinked := by
  refine ⟨fun key hist hhist => (h.recorded key hist hhist).current_eq, fun id v c hc => ?_, fun id v e t hput => ?_,
    keys_step isMove_undo h, keys_step isMove_redo h, fun id later v hv => ?_⟩
  · rcases put_of_compileValue h _ hc with ⟨hsame, hput⟩ | ⟨hnew, hist, hput⟩
    · exact .inl (by rw [hput, decide_eq_false (not_not.mpr hsame)])
    · rcases changed_cases (c.canonical, true) (s.withRecord (.text id) hist (.str c.canonical)) with
        ⟨-, hchanged⟩ | ⟨hnot, fault, hchanged⟩
      · exact .inl (by rw [hput, hchanged, decide_eq_true hnew])
      · exact .inr ⟨hnew, hnot, fault, by rw [hput, hchanged]⟩
  · rcases Store.put_error hput with hsame | ⟨c, hist, fault, -, hhist, hnew, rfl, u, rfl, -, rfl⟩
    · exact .inl hsame
    · have hcurrent : hist.current = s.get id := (h.historyOf hhist).current_eq
      refine .inr ⟨⟨fault, rfl⟩, fun hget => hnew ?_, rfl⟩
      rw [hcurrent, ← hget]
      exact get_withRecord id _ _
  · -- the removal starts the invariant afresh, with nothing allowed under the id
    have hlater := invariant_runAll (invariant_of_removed h id) later
    exact (hlater.stored (.text id) v hv).resolve_left fun hne => hne rfl

/-- **Stores and histories.** However a store is used after it was opened, its documents and histories belong
together. -/
theorem isLinked_runAll {limit : Int} {file : Option ByteArray} {s : Store} (hlimit : 1 ≤ limit)
    (hopen : Store.open limit file = .ok s) (ops : List Operation) : (runAll ops s).IsLinked :=
  (invariant_runAll (invariant_open hlimit hopen) ops).isLinked

/-- A new store in which a document is put, removed, put again and undone. -/
theorem isLinked_runAll_recreated :
    (1 : Int) ≤ 100 ∧ Store.open 100 none = .ok empty ∧
      (runAll [.put "d" (rawDocument "p" "http://p/" ""), .remove "d",
        .put "d" (rawDocument "q" "http://q/" ""), .undo "d"] empty).IsLinked := by
  have hlimit : (1 : Int) ≤ 100 := by decide
  have hopen : Store.open 100 none = .ok empty := rfl
  exact ⟨hlimit, hopen, isLinked_runAll hlimit hopen _⟩

/-- A value that UTF-8 cannot hold keeps a store from being written. -/
theorem not_isWritable_of_lookup (key : Key) (v : Json) (hv : s.documents.lookup key = some v)
    (hhalf : v.isEncodable = false) : ¬ s.contents.IsWritable := by
  intro hwritable
  obtain ⟨-, -, hencodable⟩ := (StateFile.isWritable_iff.mp hwritable).1 _ (Assoc.mem_of_lookup hv)
  exact Bool.false_ne_true (hhalf.symm.trans hencodable)

/-- A document that UTF-8 cannot hold is put. -/
theorem put_halfDocument (h : s.Invariant Allowed) (id : Text) (habsent : s.get id = none) :
    ∃ fault hist, s.put id halfDocument = (.error (.notWritten fault),
      (s.withRecord (.text id) hist (.str halfDocument.canonical)).save.2) := by
  obtain ⟨c, hc, hcanonical⟩ := compile_halfDocument
  have hvalue : compileValue halfDocument = .ok c := hc
  rcases put_of_compileValue h id hvalue with ⟨hsame, -⟩ | ⟨-, hist, hput⟩
  · cases habsent.symm.trans hsame
  · rw [hcanonical] at hput
    have hlookup : (s.withRecord (.text id) hist (.str halfDocument.canonical)).documents.lookup (.text id) =
        some (.str halfDocument.canonical) := (Assoc.lookup_insert _ _ _ s.documents).trans (if_pos rfl)
    have hhalf : (Json.str halfDocument.canonical).isEncodable = false :=
      (Json.isEncodable_canonical _).trans isEncodable_halfDocument
    rcases changed_cases (halfDocument.canonical, true)
        (s.withRecord (.text id) hist (.str halfDocument.canonical)) with
      ⟨hwritable, -⟩ | ⟨-, fault, hchanged⟩
    · exact absurd hwritable (not_isWritable_of_lookup _ _ hlookup hhalf)
    · exact ⟨fault, hist, hput.trans hchanged⟩

/-- Putting it in a new store fails, and the document is stored. -/
theorem failed_put_changes_store : Store.open 100 none = .ok empty ∧
    ∃ e t, empty.put "d" halfDocument = (.error e, t) ∧ t.documents ≠ empty.documents ∧
      t.histories ≠ empty.histories ∧ t.file ≠ empty.file ∧ t.version = empty.version := by
  have hopen : Store.open 100 none = .ok empty := rfl
  have hinvariant := invariant_open (by decide) hopen
  obtain ⟨fault, hist, hput⟩ := put_halfDocument hinvariant "d" rfl
  exact ⟨hopen, _, _, hput, List.cons_ne_nil _ _, List.cons_ne_nil _ _, Option.some_ne_none _, rfl⟩

end Store

end Ontogram

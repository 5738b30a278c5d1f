/-
Documents side by side.

All documents of a store share its scene, its version and its file, and a list goes through the histories of
all of them. Still whoever works on one document cannot tell what is done to the others, unless the file cannot be
written for something in one of them:

* `Operation.concerns`, `transcript` — the operations on a document and the lists, and what they tell of it;
* `SameBeside` — stores that differ in nothing but what belongs to one key, as when a document is stored or dropped
  along with its history;
* `AlikeFor` — stores that are the same for one document, kept by an operation on it in both stores and by one
  that is not on it in either;
* `Agree` — the same answer, or one that the file could not be finished in the place of another;
* `transcript_filter` — whatever is done besides, the operations on a document are answered as if nothing was;
* `failed_put_spreads` — a document that cannot be written, and the answer for another one.
-/
import Ontogram.Proofs.DocumentLists
namespace Ontogram

namespace Store

variable {s t s' t' : Store} {id : Text} {key : Key}

/-! ### What is seen of one document -/

/-- Is the operation on the document, or does it show it? -/
def Operation.concerns (id : Text) : Operation → Bool
  | .put i _ | .get i | .undo i | .redo i | .remove i => i = id
  | .list => true
  | .setScene _ | .save => false

/-- What an operation tells about a document. -/
inductive Reply where
  | put (answer : Except StoreError (Text × Bool))
  | value (v : Option Json)
  | step (answer : Except StoreError (Option Json))
  | removed (answer : Except StoreError Bool)
  | entry (listing : Option Listing)
  | scene (answer : Except StoreError (Assoc Json))
  | saved (answer : Except StoreError Unit)

def Operation.reply (id : Text) (s : Store) : Operation → Reply
  | .put i v => .put (s.put i v).1
  | .get i => .value (s.get i)
  | .undo i => .step (s.undo i).1
  | .redo i => .step (s.redo i).1
  | .remove i => .removed (s.remove i).1
  | .list => .entry (entry id s.list.1)
  | .setScene v => .scene (s.setScene v).1
  | .save => .saved s.save.1

/-- The error that is told, if there is one. -/
def Reply.error? : Reply → Option StoreError
  | .put answer => errorOf? answer
  | .step answer => errorOf? answer
  | .removed answer => errorOf? answer
  | .scene answer => errorOf? answer
  | .saved answer => errorOf? answer
  | .value _ | .entry _ => none

/-- What the operations that concern a document tell about it, one after another. -/
def transcript (id : Text) : List Operation → Store → List Reply
  | [], _ => []
  | op :: rest, s =>
    if op.concerns id then op.reply id s :: transcript id rest (op.run s) else transcript id rest (op.run s)

/-! ### What an operation leaves alone -/

/-- Nothing but what belongs to the key is another. -/
structure SameBeside (key : Key) (s t : Store) : Prop where
  limit_eq : t.limit = s.limit
  lookup_eq : ∀ k, k ≠ key → t.documents.lookup k = s.documents.lookup k
  kept_eq : ∀ k, k ≠ key → t.histories.lookup k = s.histories.lookup k

theorem sameBeside_withHistory (hist : History Json) : SameBeside key s (s.withHistory key hist) :=
  ⟨rfl, fun _ _ => rfl, fun k hk => (Assoc.lookup_insert key k hist s.histories).trans (if_neg hk)⟩

/-- The document changes with its history. -/
theorem sameBeside_withRecord (hist : History Json) (v : Json) : SameBeside key s (s.withRecord key hist v) :=
  ⟨rfl, fun k hk => (Assoc.lookup_insert key k v s.documents).trans (if_neg hk),
    fun k hk => (Assoc.lookup_insert key k hist s.histories).trans (if_neg hk)⟩

theorem sameBeside_withoutRecord : SameBeside key s (s.withoutRecord key) :=
  ⟨rfl, fun k hk => (Assoc.lookup_erase key k s.documents).trans (if_neg hk),
    fun k hk => (Assoc.lookup_erase key k s.histories).trans (if_neg hk)⟩

/-- Two stores have the same for a document, and the same under keys that are no ids. -/
structure AlikeFor (id : Text) (s t : Store) : Prop where
  limit_eq : t.limit = s.limit
  lookup_eq : t.documents.lookup (.text id) = s.documents.lookup (.text id)
  historyOf_eq : t.historyOf (.text id) = s.historyOf (.text id)
  others_eq : ∀ key, key.isText = false → t.documents.lookup key = s.documents.lookup key

theorem AlikeFor.refl (id : Text) (s : Store) : AlikeFor id s s := ⟨rfl, rfl, rfl, fun _ _ => rfl⟩

theorem AlikeFor.symm (h : AlikeFor id s t) : AlikeFor id t s :=
  ⟨h.limit_eq.symm, h.lookup_eq.symm, h.historyOf_eq.symm, fun key hkey => (h.others_eq key hkey).symm⟩

theorem AlikeFor.trans (hst : AlikeFor id s t) (htt' : AlikeFor id t t') : AlikeFor id s t' where
  limit_eq := htt'.limit_eq.trans hst.limit_eq
  lookup_eq := htt'.lookup_eq.trans hst.lookup_eq
  historyOf_eq := htt'.historyOf_eq.trans hst.historyOf_eq
  others_eq key hkey := (htt'.others_eq key hkey).trans (hst.others_eq key hkey)

theorem Alike.alikeFor (h : s.Alike t) (id : Text) : AlikeFor id s t :=
  ⟨h.limit_eq, by rw [h.documents_eq], h.historyOf_eq _, fun _ _ => by rw [h.documents_eq]⟩

theorem ne_text_of_isText (h : key.isText = false) (id : Text) : key ≠ .text id := by
  rintro rfl
  cases h

/-- What happens to one document does not matter to another. -/
theorem SameBeside.alikeFor {other : Text} (h : SameBeside (.text other) s t) (hne : other ≠ id) :
    AlikeFor id s t := by
  have hkey : Key.text id ≠ .text other := fun heq => hne (Key.text.inj heq).symm
  have hlookup := h.lookup_eq _ hkey
  refine ⟨h.limit_eq, hlookup, ?_, fun key hkey => h.lookup_eq key (ne_text_of_isText hkey other)⟩
  exact historyOf_congr h.limit_eq (h.kept_eq _ hkey) (by rw [value, value, hlookup])

/-- Two stores go on having the same for a document if that comes out the same and nothing beside it
changes. -/
theorem AlikeFor.next (h : AlikeFor id s t)
    (hs : SameBeside (.text id) s s') (ht : SameBeside (.text id) t t')
    (hlookup : t'.documents.lookup (.text id) = s'.documents.lookup (.text id))
    (hhistory : t'.historyOf (.text id) = s'.historyOf (.text id)) : AlikeFor id s' t' where
  limit_eq := ht.limit_eq.trans (h.limit_eq.trans hs.limit_eq.symm)
  lookup_eq := hlookup
  historyOf_eq := hhistory
  others_eq key hkey := by
    have hne := ne_text_of_isText hkey id
    rw [ht.lookup_eq key hne, hs.lookup_eq key hne, h.others_eq key hkey]

/-! ### Operations on the document itself -/

/-- The same answer, or the answer that the file could not be finished in the place of another. -/
inductive Agree {β : Type} (error? : β → Option StoreError) : β → β → Prop
  | same (x : β) : Agree error? x x
  | left {x y : β} {fault : Json.WriteFault} (h : error? x = some (.notWritten fault)) : Agree error? x y
  | right {x y : β} {fault : Json.WriteFault} (h : error? y = some (.notWritten fault)) : Agree error? x y

theorem Agree.reply {α : Type} {x y : Except StoreError α} (h : Agree errorOf? x y) {f : Except StoreError α → Reply}
    (hf : ∀ x, (f x).error? = errorOf? x) : Agree Reply.error? (f x) (f y) := by
  cases h with
  | same => exact .same _
  | left h => exact .left ((hf x).trans h)
  | right h => exact .right ((hf y).trans h)

/-- The history that is kept is the one asked for, and the document is as it was. -/
theorem AlikeFor.withHistory (h : AlikeFor id s t) (hist : History Json) :
    AlikeFor id (s.withHistory (.text id) hist) (t.withHistory (.text id) hist) := by
  refine h.next (sameBeside_withHistory hist) (sameBeside_withHistory hist) h.lookup_eq ?_
  rw [historyOf_withHistory, historyOf_withHistory, if_pos rfl, if_pos rfl]

theorem AlikeFor.withRecord (h : AlikeFor id s t) (hist : History Json) (v : Json) :
    AlikeFor id (s.withRecord (.text id) hist v) (t.withRecord (.text id) hist v) := by
  have hlookup (u : Store) : (u.withRecord (.text id) hist v).documents.lookup (.text id) = some v :=
    (Assoc.lookup_insert _ _ v u.documents).trans (if_pos rfl)
  have hhistory (u : Store) : (u.withRecord (.text id) hist v).historyOf (.text id) = .ok hist :=
    historyOf_of_lookup ((Assoc.lookup_insert _ _ hist u.histories).trans (if_pos rfl))
  refine h.next (sameBeside_withRecord hist v) (sameBeside_withRecord hist v) ?_ ?_
  · rw [hlookup, hlookup]
  · rw [hhistory, hhistory]

/-- After its removal there is nothing of a document in either store. -/
theorem AlikeFor.withoutRecord (h : AlikeFor id s t) :
    AlikeFor id (s.withoutRecord (.text id)) (t.withoutRecord (.text id)) := by
  have hdocument (u : Store) : (u.withoutRecord (.text id)).documents.lookup (.text id) = none :=
    (Assoc.lookup_erase _ _ u.documents).trans (if_pos rfl)
  have hkept (u : Store) : (u.withoutRecord (.text id)).histories.lookup (.text id) = none :=
    (Assoc.lookup_erase _ _ u.histories).trans (if_pos rfl)
  refine h.next sameBeside_withoutRecord sameBeside_withoutRecord ?_ (historyOf_congr h.limit_eq ?_ ?_)
  · rw [hdocument, hdocument]
  · rw [hkept, hkept]
  · rw [value, value, hdocument, hdocument]

/-- Neither the file nor the version is looked at, and both answers are the given one, unless a file could not be
written. -/
theorem AlikeFor.changed {α : Type} (h : AlikeFor id s t) (answer : α) :
    Agree errorOf? (s.changed answer).1 (t.changed answer).1 ∧
      AlikeFor id (s.changed answer).2 (t.changed answer).2 := by
  refine ⟨?_, ?_⟩
  · rcases changed_cases answer s with ⟨-, hs⟩ | ⟨-, fault, hs⟩
    · rcases changed_cases answer t with ⟨-, ht⟩ | ⟨-, fault, ht⟩
      · rw [hs, ht]
        exact .same _
      · rw [ht]
        exact .right rfl
    · rw [hs]
      exact .left rfl
  · obtain ⟨_, -, hs⟩ := changed_snd answer s
    obtain ⟨_, -, ht⟩ := changed_snd answer t
    rw [hs, ht]
    exact ⟨h.limit_eq, h.lookup_eq, h.historyOf_eq, h.others_eq⟩

theorem AlikeFor.put (h : AlikeFor id s t) (v : Json) :
    Agree errorOf? (s.put id v).1 (t.put id v).1 ∧ AlikeFor id (s.put id v).2 (t.put id v).2 := by
  unfold Store.put
  rw [h.historyOf_eq]
  split
  · exact ⟨.same _, h⟩
  · split
    · exact ⟨.same _, h⟩
    · simp only
      split
      · exact (h.withRecord _ _).changed _
      · exact ⟨.same _, h.withHistory _⟩

theorem AlikeFor.step (h : AlikeFor id s t) (move : History Json → Option Json × History Json) :
    Agree errorOf? (s.step move id).1 (t.step move id).1 ∧ AlikeFor id (s.step move id).2 (t.step move id).2 := by
  unfold Store.step
  rw [h.historyOf_eq]
  split
  · exact ⟨.same _, h⟩
  · simp only
    split
    · exact ⟨.same _, h.withHistory _⟩
    · exact (h.withRecord _ _).changed _

theorem AlikeFor.remove (h : AlikeFor id s t) :
    Agree errorOf? (s.remove id).1 (t.remove id).1 ∧ AlikeFor id (s.remove id).2 (t.remove id).2 := by
  have hhas : Assoc.has t.documents (.text id) = Assoc.has s.documents (.text id) := by
    rw [Assoc.has, Assoc.has, h.lookup_eq]
  unfold Store.remove
  rw [hhas]
  split
  · exact h.withoutRecord.changed true
  · exact ⟨.same _, h⟩

/-! ### Entries in lists -/

theorem AlikeFor.shown_eq (h : AlikeFor id s t) : t.shown id = s.shown id := by
  rw [shown, shown, listing, listing, h.historyOf_eq, h.lookup_eq]

theorem AlikeFor.hasTextKeys_iff (h : AlikeFor id s t) : t.HasTextKeys ↔ s.HasTextKeys :=
  forall₂_congr fun key hkey => by rw [h.others_eq key hkey]

theorem AlikeFor.entry_eq (h : AlikeFor id s t) (hs : s.Invariant fun _ => IsDocumentText)
    (ht : t.Invariant fun _ => IsDocumentText) : entry id t.list.1 = entry id s.list.1 := by
  have hhas : Assoc.has t.documents (.text id) = Assoc.has s.documents (.text id) := by
    rw [Assoc.has, Assoc.has, h.lookup_eq]
  classical
  rw [entry_list hs, entry_list ht, hhas, h.shown_eq]
  simp only [h.hasTextKeys_iff]

/-! ### Operations one after another -/

/-- An operation that does not concern a document leaves it alone. -/
theorem alikeFor_run {op : Operation} (h : op.concerns id = false) (s : Store) :
    AlikeFor id s (op.run s) := by
  have hne {i : Text} (hi : decide (i = id) = false) : i ≠ id := of_decide_eq_false hi
  refine run_of_edit (fun halike hsame => hsame.trans (halike.alikeFor id)) (.refl id s) fun u hedit => ?_
  cases hedit with
  | put => exact (sameBeside_withRecord _ _).alikeFor (hne h)
  | step hmoves => cases hmoves <;> exact (sameBeside_withRecord _ _).alikeFor (hne h)
  | remove => exact sameBeside_withoutRecord.alikeFor (hne h)
  | setScene => exact ⟨rfl, rfl, rfl, fun _ _ => rfl⟩

/-- An operation that concerns a document tells the same about it in both stores, unless a file could not be written,
and leaves them the same for it. -/
theorem AlikeFor.run (h : AlikeFor id s t) {op : Operation} (hop : op.concerns id = true)
    (hs : s.Invariant fun _ => IsDocumentText) (ht : t.Invariant fun _ => IsDocumentText) :
    Agree Reply.error? (op.reply id s) (op.reply id t) ∧ AlikeFor id (op.run s) (op.run t) := by
  cases op with
  | put i v =>
    obtain rfl := of_decide_eq_true hop
    exact (h.put v).imp_left fun hagree => hagree.reply fun _ => rfl
  | get i =>
    obtain rfl := of_decide_eq_true hop
    have hvalue : t.get i = s.get i := by rw [get, get, value, value, h.lookup_eq]
    rw [Operation.reply, Operation.reply, hvalue]
    exact ⟨.same _, h⟩
  | undo i =>
    obtain rfl := of_decide_eq_true hop
    exact (h.step _).imp_left fun hagree => hagree.reply fun _ => rfl
  | redo i =>
    obtain rfl := of_decide_eq_true hop
    exact (h.step _).imp_left fun hagree => hagree.reply fun _ => rfl
  | remove i =>
    obtain rfl := of_decide_eq_true hop
    exact h.remove.imp_left fun hagree => hagree.reply fun _ => rfl
  | list =>
    have hnext : AlikeFor id s.list.2 t.list.2 :=
      (alike_list.alikeFor id).symm.trans (h.trans (alike_list.alikeFor id))
    rw [Operation.reply, Operation.reply, h.entry_eq hs ht]
    exact ⟨.same _, hnext⟩
  | setScene v => cases hop
  | save => cases hop

/-- Operations that do not concern a document can be left out. -/
theorem AlikeFor.transcript (h : AlikeFor id s t) (hs : s.Invariant fun _ => IsDocumentText)
    (ht : t.Invariant fun _ => IsDocumentText) {ops : List Operation}
    (hops : ∀ op ∈ ops, op.OffersDistinctKeys) :
    List.Forall₂ (Agree Reply.error?) (transcript id ops s) (transcript id (ops.filter (·.concerns id)) t) := by
  induction ops generalizing s t with
  | nil => exact .nil
  | cons op rest ih =>
    obtain ⟨hop, hrest⟩ := List.forall_mem_cons.mp hops
    have hrun : ∀ {u : Store}, u.Invariant (fun _ => IsDocumentText) →
        (op.run u).Invariant fun _ => IsDocumentText := fun hu =>
      hu.runAll (fun _ _ _ hv => hv.isDocumentText) (List.forall_mem_singleton.mpr hop)
    cases hconcerns : op.concerns id with
    | true =>
      obtain ⟨hreply, hnext⟩ := h.run hconcerns hs ht
      rw [List.filter_cons_of_pos hconcerns, Store.transcript, Store.transcript, if_pos hconcerns, if_pos hconcerns]
      exact .cons hreply (ih hnext (hrun hs) (hrun ht) hrest)
    | false =>
      -- the operation is left out, and the second store waits
      have hnext := (alikeFor_run hconcerns s).symm.trans h
      have hnot : ¬ op.concerns id = true := Bool.eq_false_iff.mp hconcerns
      rw [List.filter_cons_of_neg hnot, Store.transcript, if_neg hnot]
      exact ih hnext (hrun hs) ht hrest

/-! ### Where nothing fails to be saved -/

theorem failsToSave_of_reply {op : Operation} {fault : Json.WriteFault}
    (h : (op.reply id s).error? = some (.notWritten fault)) : op.FailsToSave s := by
  cases op with
  | get i => cases h
  | list => cases h
  | _ => exact ⟨fault, h⟩

/-- A store into which nothing is brought but what can be written never tells of a file that could not be. -/
theorem error?_of_mem_transcript (h : s.IsSavable) {ops : List Operation} (hops : ∀ op ∈ ops, op.IsWritable)
    {r : Reply} (hr : r ∈ transcript id ops s) (fault : Json.WriteFault) : r.error? ≠ some (.notWritten fault) := by
  induction ops generalizing s with
  | nil => cases hr
  | cons op rest ih =>
    obtain ⟨hop, hrest⟩ := List.forall_mem_cons.mp hops
    have hnext := isSavable_run h hop
    rw [transcript] at hr
    split at hr
    · rcases List.mem_cons.mp hr with rfl | hr
      · exact fun hfault => not_failsToSave_runAll h (List.forall_mem_nil _) hop (failsToSave_of_reply hfault)
      · exact ih hnext hrest hr
    · exact ih hnext hrest hr

theorem eq_of_agree {rs rs' : List Reply} (h : List.Forall₂ (Agree Reply.error?) rs rs')
    (hleft : ∀ r ∈ rs, ∀ fault, r.error? ≠ some (.notWritten fault))
    (hright : ∀ r ∈ rs', ∀ fault, r.error? ≠ some (.notWritten fault)) : rs = rs' := by
  induction h with
  | nil => rfl
  | cons hagree _ ih =>
    obtain ⟨hl, hleft⟩ := List.forall_mem_cons.mp hleft
    obtain ⟨hr, hright⟩ := List.forall_mem_cons.mp hright
    rw [ih hleft hright]
    cases hagree with
    | same => rfl
    | left h => exact absurd h (hl _)
    | right h => exact absurd h (hr _)

/-! ### Whole runs -/

/-- What is put is put under a text. -/
theorem HasTextKeys.run (h : s.HasTextKeys) (op : Operation) : (op.run s).HasTextKeys := by
  have hbeside {i : Text} {t : Store} (hsame : SameBeside (.text i) s t) : t.HasTextKeys := fun key hkey =>
    (hsame.lookup_eq key (ne_text_of_isText hkey i)).trans (h key hkey)
  refine run_of_edit (fun halike hkeys key hkey => ?_) h fun u hedit => ?_
  · rw [halike.documents_eq]
    exact hkeys key hkey
  · cases hedit with
    | put => exact hbeside (sameBeside_withRecord _ _)
    | step => exact hbeside (sameBeside_withRecord _ _)
    | remove => exact hbeside sameBeside_withoutRecord
    | setScene => exact h

theorem HasTextKeys.runAll (h : s.HasTextKeys) (ops : List Operation) : (runAll ops s).HasTextKeys := by
  induction ops generalizing s with
  | nil => exact h
  | cons op rest ih => exact ih (h.run op)

/-- **Documents do not interfere.** A store is opened without a file, or on one with texts of documents, and
used in any way. What the operations on one document and the lists tell about it is what they tell in a store
on the same file in which nothing else is done, unless it is told that the file could not be written. That is never told
if all that was in the file and all that is brought in can be written. If the file has nothing but texts for keys, lists
never fail. -/
theorem transcript_filter {limit : Int} {file : Option ByteArray} (hlimit : 1 ≤ limit)
    (hopen : Store.open limit file = .ok s)
    (hfile : ∀ key v, s.documents.lookup key = some v → IsDocumentText v) {ops : List Operation}
    (hops : ∀ op ∈ ops, op.OffersDistinctKeys) (id : Text) :
    List.Forall₂ (Agree Reply.error?) (transcript id ops s) (transcript id (ops.filter (·.concerns id)) s) ∧
      (s.contents.IsWritable → (∀ op ∈ ops, op.IsWritable) →
        transcript id ops s = transcript id (ops.filter (·.concerns id)) s) ∧
      (s.HasTextKeys → ∃ listings, (runAll ops s).list.1 = .ok listings) := by
  obtain ⟨hlimit', hhistories⟩ := limit_and_histories_of_open hopen
  have hroom : 1 ≤ s.limit := hlimit' ▸ hlimit
  have hinvariant : s.Invariant fun _ => IsDocumentText := invariant_of_stored hroom hhistories hfile
  have hagree := (AlikeFor.refl id s).transcript hinvariant hinvariant hops
  refine ⟨hagree, fun hcontents hwritable => ?_, fun htext => ?_⟩
  · have hsavable := isSavable_of_isWritable hroom hhistories hcontents
    have hfewer : ∀ op ∈ ops.filter (·.concerns id), op.IsWritable := fun op hop =>
      hwritable op (List.mem_of_mem_filter hop)
    exact eq_of_agree hagree (fun r hr => error?_of_mem_transcript hsavable hwritable hr)
      fun r hr => error?_of_mem_transcript hsavable hfewer hr
  · have hafter := hinvariant.runAll (fun _ _ _ hv => hv.isDocumentText) hops
    obtain ⟨keys, hkeys⟩ := exists_keys (htext.runAll ops)
    obtain ⟨listings, hlist, -⟩ := list_of_keys hafter hkeys
    exact ⟨listings, hlist⟩

/-- Work on two documents, of which one is in the file. -/
def twoDocuments : List Operation :=
  [.put "e" plainDocument, .remove "d", .list, .put "d" backwardsDocument, .undo "e", .save, .redo "d", .list]

theorem transcript_filter_twoDocuments : (1 : Int) ≤ 2 ∧ ∃ s, Store.open 2 (some plainFile) = .ok s ∧
    (∀ key v, s.documents.lookup key = some v → IsDocumentText v) ∧
    (∀ op ∈ twoDocuments, op.OffersDistinctKeys) ∧ s.HasTextKeys ∧
    transcript "e" twoDocuments s = transcript "e" [.put "e" plainDocument, .list, .undo "e", .list] s ∧
    ∃ listings, (runAll twoDocuments s).list.1 = .ok listings := by
  have hlimit : (1 : Int) ≤ 2 := by decide
  have hfile : ∀ key v, (plainStore 2).documents.lookup key = some v → IsDocumentText v :=
    fun key v hv => (isCanonicalText_of_plainStore 2 key v hv).isDocumentText
  have hops : ∀ op ∈ twoDocuments, op.OffersDistinctKeys := by
    simp [twoDocuments, Operation.OffersDistinctKeys, hasDistinctKeys_plainDocument,
      hasDistinctKeys_backwardsDocument]
  have htext : (plainStore 2).HasTextKeys := hasTextKeys_iff.mpr (List.forall_mem_singleton.mpr rfl)
  obtain ⟨-, hsame, hlists⟩ := transcript_filter hlimit (open_plainFile 2) hfile hops "e"
  have hfilter : twoDocuments.filter (·.concerns "e") = [.put "e" plainDocument, .list, .undo "e", .list] :=
    rfl
  have hwritable : ∀ op ∈ twoDocuments, op.IsWritable := by
    simp only [twoDocuments, List.forall_mem_cons]
    exact ⟨.put (by decide) (by decide), .of_ne (by simp) (by simp), .of_ne (by simp) (by simp),
      .put (by decide) (by decide), .of_ne (by simp) (by simp), .of_ne (by simp) (by simp), .of_ne (by simp) (by simp),
      .of_ne (by simp) (by simp), List.forall_mem_nil _⟩
  exact ⟨hlimit, _, open_plainFile 2, hfile, hops, htext, hfilter ▸ hsame (isWritable_plainStore 2) hwritable,
    hlists htext⟩

/-- A document that UTF-8 cannot hold is put into a new store, and then another one. Put alone, the other one is stored;
behind the first one it fails. -/
theorem failed_put_spreads : Store.open 100 none = .ok empty ∧
    transcript "a" [.put "b" halfDocument, .put "a" plainDocument] empty ≠
      transcript "a" [.put "a" plainDocument] empty := by
  have hopen : Store.open 100 none = .ok empty := rfl
  have hempty := invariant_open (by decide) hopen
  obtain ⟨c, hc, hcanonical⟩ := compile_plainDocument
  have hvalue : compileValue plainDocument = .ok c := hc
  -- put alone, the document is written
  have halone : (empty.put "a" plainDocument).1 = .ok (plainDocument.canonical, true) := by
    rcases put_of_compileValue hempty "a" hvalue with ⟨⟨⟩, -⟩ | ⟨-, hist, hput⟩
    rw [hput, hcanonical, changed_of_isWritable _ _ (isWritable_put isWritable_empty (by decide) (by decide) hist)]
  obtain ⟨fault, hist, hhalf⟩ := put_halfDocument hempty "b" rfl
  have hbehind : ((empty.put "b" halfDocument).2.put "a" plainDocument).1 ≠ .ok (plainDocument.canonical, true) := by
    have hinvariant := invariant_run hempty (.put "b" halfDocument)
    rw [Operation.run, hhalf] at hinvariant
    rw [hhalf]
    rcases put_of_compileValue hinvariant "a" hvalue with ⟨-, hput⟩ | ⟨-, hist', hput⟩
    · rw [hput, hcanonical]
      rintro ⟨⟩
    · rw [hput, ne_eq, changed_fst_eq_ok_iff]
      -- the document of the first operation is still there
      rintro ⟨hwritable, -⟩
      refine not_isWritable_of_lookup (.text "b") (.str halfDocument.canonical) ?_
        ((Json.isEncodable_canonical _).trans isEncodable_halfDocument) hwritable
      rfl
  refine ⟨hopen, fun hsame => hbehind ?_⟩
  have hreply : Reply.put ((empty.put "b" halfDocument).2.put "a" plainDocument).1 =
      .put (empty.put "a" plainDocument).1 := (List.cons.inj hsame).1
  rw [Reply.put.inj hreply, halone]

end Store

end Ontogram

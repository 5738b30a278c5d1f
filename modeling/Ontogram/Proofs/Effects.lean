/-
What the operations of a store do.

Most of what a store is asked leaves it as it was, but for histories that are made to answer. What an operation changes
it changes at once, and then saves. So whatever such an edit keeps is kept by all operations:

* `Alike`, `Unchanged` — stores that differ in nothing but histories that would be made anyway;
* `put_cases`, `step_cases`, `remove_cases`, `setScene_cases` — all that a single operation can come to;
* `Edit` — what is made of a store before it is saved;
* `Effect`, `effect_run` — an operation leaves all that can be seen, or makes an edit and saves it, or only saves;
* `run_of_edit` — what stores that are alike have in common, and edits keep, an operation keeps;
* `version_run` — an operation counts as no change or as one.
-/
import Ontogram.Proofs.HistoryMoves
import Ontogram.Proofs.StoreRun
namespace Ontogram.Store

open History (IsMove isMove_undo isMove_redo)

variable {s t u : Store} {key : Key} {hist : History Json}

/-! ### Histories that are made for a question -/

theorem historyOf_of_lookup (h : s.histories.lookup key = some hist) : s.historyOf key = .ok hist := by
  rw [historyOf, h]

/-- A history depends on the limit, the history kept so far and the stored value. -/
theorem historyOf_congr (hlimit : t.limit = s.limit)
    (hkept : t.histories.lookup key = s.histories.lookup key) (hvalue : t.value key = s.value key) :
    t.historyOf key = s.historyOf key := by
  rw [historyOf, historyOf, hlimit, hkept, hvalue]

theorem historyOf_withHistory (k : Key) :
    (s.withHistory key hist).historyOf k = if k = key then .ok hist else s.historyOf k := by
  have hlookup : (s.withHistory key hist).histories.lookup k =
      if k = key then some hist else s.histories.lookup k := Assoc.lookup_insert key k hist s.histories
  by_cases hk : k = key
  · rw [if_pos hk] at hlookup ⊢
    exact historyOf_of_lookup hlookup
  · rw [if_neg hk] at hlookup ⊢
    exact historyOf_congr rfl hlookup rfl

/-- The second store is the first one but for its file, its version, and histories that would be made
anyway. -/
structure Alike (s t : Store) : Prop where
  limit_eq : t.limit = s.limit
  documents_eq : t.documents = s.documents
  scene_eq : t.scene = s.scene
  historyOf_eq : ∀ key, t.historyOf key = s.historyOf key

theorem Alike.refl (s : Store) : s.Alike s := ⟨rfl, rfl, rfl, fun _ => rfl⟩

theorem Alike.trans (hst : s.Alike t) (htu : t.Alike u) : s.Alike u where
  limit_eq := htu.limit_eq.trans hst.limit_eq
  documents_eq := htu.documents_eq.trans hst.documents_eq
  scene_eq := htu.scene_eq.trans hst.scene_eq
  historyOf_eq key := (htu.historyOf_eq key).trans (hst.historyOf_eq key)

/-- To keep the history that was found or made changes nothing. -/
theorem alike_withHistory (h : s.historyOf key = .ok hist) : s.Alike (s.withHistory key hist) := by
  refine ⟨rfl, rfl, rfl, fun k => ?_⟩
  rw [historyOf_withHistory]
  split
  · rename_i hk
    rw [hk, h]
  · rfl

theorem alike_listFrom (keys : List Key) : s.Alike (listFrom keys s).2 := by
  induction keys generalizing s with
  | nil => exact .refl s
  | cons key rest ih =>
    rw [listFrom]
    split
    · exact .refl s
    · rename_i h hhist
      have hhere := alike_withHistory hhist
      have hrest := hhere.trans ih
      simp only
      split
      · exact hhere
      · split <;> rename_i heq <;> rw [heq] at hrest <;> exact hrest

theorem alike_list : s.Alike s.list.2 := by
  unfold list
  split
  · exact .refl s
  · exact alike_listFrom _

/-- Neither the file nor the version is looked at. -/
theorem alike_save (s : Store) : s.Alike s.save.2 := ⟨rfl, rfl, rfl, fun _ => rfl⟩

theorem alike_changed {α : Type} (answer : α) (s : Store) : s.Alike (s.changed answer).2 := by
  obtain ⟨_, -, hchanged⟩ := changed_snd answer s
  rw [hchanged]
  exact ⟨rfl, rfl, rfl, fun _ => rfl⟩

/-- Nothing is changed: the documents, the scene, the histories asked for, the version and the file. -/
structure Unchanged (s t : Store) : Prop extends Alike s t where
  version_eq : t.version = s.version
  file_eq : t.file = s.file

theorem Unchanged.refl (s : Store) : s.Unchanged s := ⟨.refl s, rfl, rfl⟩

theorem unchanged_withHistory (h : s.historyOf key = .ok hist) : s.Unchanged (s.withHistory key hist) :=
  ⟨alike_withHistory h, rfl, rfl⟩

/-- A list makes histories that would be made anyway. -/
theorem unchanged_list : s.Unchanged s.list.2 := by
  obtain ⟨histories, hlist⟩ := list_snd (s := s)
  refine ⟨alike_list, ?_, ?_⟩ <;> rw [hlist]

/-! ### Single operations -/

/-- The store in which the document and its history are the given ones. -/
def withRecord (key : Key) (h : History Json) (v : Json) (s : Store) : Store :=
  (s.withHistory key h).withDocument key v

theorem historyOf_eq_error {key : Key} (h : s.historyOf key = .error e) : ∃ l, e = .limit l := by
  unfold historyOf at h
  split at h
  · cases h
  · split at h
    · cases h
    · cases h
      exact ⟨_, rfl⟩

theorem elementCount_ne_notWritten (v : Json) (fault : Json.WriteFault) :
    elementCount v ≠ .error (.notWritten fault) := by
  unfold elementCount
  repeat' split
  all_goals rintro ⟨⟩

/-- A list is not written. -/
theorem listFrom_ne_notWritten (keys : List Key) (fault : Json.WriteFault) :
    (listFrom keys s).1 ≠ .error (.notWritten fault) := by
  induction keys generalizing s with
  | nil => rintro ⟨⟩
  | cons key rest ih =>
    rw [listFrom]
    split
    · rename_i e hhist
      obtain ⟨l, rfl⟩ := historyOf_eq_error hhist
      rintro ⟨⟩
    · rename_i hist _
      simp only
      split
      · rename_i e he
        rintro ⟨⟩
        exact elementCount_ne_notWritten _ fault he
      · have hrest := ih (s := s.withHistory key hist)
        split <;> rename_i heq <;> rw [heq] at hrest
        · exact fun herror => hrest (by rw [Except.error.inj herror])
        · rintro ⟨⟩

theorem not_failsToSave_list : ¬ Operation.list.FailsToSave s := by
  rintro ⟨fault, hfault⟩
  have hlist : s.list.1 = .error (.notWritten fault) := errorOf?_eq_some_iff.mp hfault
  unfold list keys at hlist
  split at hlist
  · rename_i hkeys
    split at hkeys <;> cases hkeys
    cases hlist
  · exact listFrom_ne_notWritten _ fault hlist

/-- The store without the document and without its history. -/
def withoutRecord (key : Key) (s : Store) : Store :=
  { s with documents := Assoc.erase key s.documents, histories := Assoc.erase key s.histories }

/-- To put a document is refused, and does nothing; or the value is current already, and its history is kept; or it
becomes the document's value and the current one of the history. -/
theorem put_cases (id : Text) (v : Json) :
    (∃ e, (∀ fault, e ≠ .notWritten fault) ∧ s.put id v = (.error e, s)) ∨
      ∃ c hist, compileValue v = .ok c ∧ s.historyOf (.text id) = .ok hist ∧
        (hist.current = some (.str c.canonical) ∧
            s.put id v = (.ok (c.canonical, false), s.withHistory (.text id) hist) ∨
          hist.current ≠ some (.str c.canonical) ∧
            s.put id v = (s.withRecord (.text id) (hist.push (.str c.canonical)).2 (.str c.canonical)).changed
              (c.canonical, true)) := by
  unfold put
  cases hc : compileValue v with
  | error e => exact .inl ⟨.refused e, by rintro _ ⟨⟩, rfl⟩
  | ok c =>
    cases hhist : s.historyOf (.text id) with
    | error e =>
      obtain ⟨l, rfl⟩ := historyOf_eq_error hhist
      exact .inl ⟨.limit l, by rintro _ ⟨⟩, rfl⟩
    | ok hist =>
      refine .inr ⟨c, hist, rfl, rfl, ?_⟩
      by_cases hcurrent : hist.current = some (.str c.canonical)
      · refine .inl ⟨hcurrent, ?_⟩
        simp only [History.push, if_pos hcurrent]
        rfl
      · refine .inr ⟨hcurrent, ?_⟩
        simp only [History.push_fst.mpr hcurrent, if_true]
        rfl

/-- There is nowhere to go, and the history is kept; or a step arrives at a value, which becomes the document's. -/
theorem step_cases {move : History Json → Option Json × History Json} (hmove : IsMove move) (id : Text) :
    (∃ l, s.step move id = (.error (.limit l), s)) ∨
      ∃ hist, s.historyOf (.text id) = .ok hist ∧
        ((move hist).1 = none ∧ s.step move id = (.ok none, s.withHistory (.text id) hist) ∨
          ∃ v, (move hist).1 = some v ∧
            s.step move id = (s.withRecord (.text id) (move hist).2 v).changed (some v)) := by
  unfold step
  cases hhist : s.historyOf (.text id) with
  | error e =>
    obtain ⟨l, rfl⟩ := historyOf_eq_error hhist
    exact .inl ⟨l, rfl⟩
  | ok hist =>
    refine .inr ⟨hist, rfl, ?_⟩
    cases hv : (move hist).1 with
    | none => exact .inl ⟨rfl, by simp only [hv, hmove.stays hist hv]⟩
    | some v =>
      refine .inr ⟨v, rfl, ?_⟩
      simp only [hv]
      rfl

theorem remove_cases (id : Text) :
    Assoc.has s.documents (.text id) = true ∧ s.remove id = (s.withoutRecord (.text id)).changed true ∨
      Assoc.has s.documents (.text id) = false ∧ s.remove id = (.ok false, s) := by
  unfold remove
  split
  · rename_i hhas
    exact .inl ⟨hhas, rfl⟩
  · rename_i hhas
    exact .inr ⟨Bool.not_eq_true _ ▸ hhas, rfl⟩

theorem setScene_cases (v : Json) :
    (∃ violation, s.setScene v = (.error (.badScene violation), s)) ∨
      ∃ fields, Schema.scene v = .ok fields ∧
        s.setScene v = { s with scene := .ofFields fields }.changed fields := by
  unfold setScene
  cases Schema.scene v with
  | error e => exact .inl ⟨e, rfl⟩
  | ok fields => exact .inr ⟨fields, rfl, rfl⟩

/-! ### Edits -/

/-- The answer to the operation tells of a change. -/
def Operation.ReportsChange : Operation → Store → Prop
  | .put id v, s => ∃ text, (s.put id v).1 = .ok (text, true)
  | .undo id, s => ∃ v, (s.undo id).1 = .ok (some v)
  | .redo id, s => ∃ v, (s.redo id).1 = .ok (some v)
  | .remove id, s => (s.remove id).1 = .ok true
  | .setScene v, s => ∃ scene, (s.setScene v).1 = .ok scene
  | .get _, _ | .list, _ | .save, _ => False

/-- The step along the history of a document that an operation is. -/
inductive Operation.Moves : Operation → Text → (History Json → Option Json × History Json) → Prop
  | undo (id : Text) : Moves (.undo id) id History.undo
  | redo (id : Text) : Moves (.redo id) id History.redo

theorem Operation.Moves.isMove {op : Operation} {id : Text} {move : History Json → Option Json × History Json}
    (h : op.Moves id move) : IsMove move := by
  cases h with
  | undo => exact isMove_undo
  | redo => exact isMove_redo

/-- What an operation makes of a store before it is saved: a document is stored or dropped along with its history, or
the scene is set. -/
inductive Edit (s : Store) : Operation → Store → Prop
  | put {id : Text} {v : Json} {c : Compilation} {hist : History Json} (hc : compileValue v = .ok c)
      (hhist : s.historyOf (.text id) = .ok hist) (hnew : hist.current ≠ some (.str c.canonical)) :
      Edit s (.put id v) (s.withRecord (.text id) (hist.push (.str c.canonical)).2 (.str c.canonical))
  | step {op : Operation} {id : Text} {move : History Json → Option Json × History Json} {hist : History Json}
      {v : Json} (hmoves : op.Moves id move) (hhist : s.historyOf (.text id) = .ok hist)
      (hv : (move hist).1 = some v) : Edit s op (s.withRecord (.text id) (move hist).2 v)
  | remove {id : Text} (hhas : Assoc.has s.documents (.text id) = true) :
      Edit s (.remove id) (s.withoutRecord (.text id))
  | setScene {v : Json} {fields : Assoc Json} (hscene : Schema.scene v = .ok fields) :
      Edit s (.setScene v) { s with scene := .ofFields fields }

theorem Edit.version_eq {op : Operation} (h : s.Edit op u) : u.version = s.version := by
  cases h <;> rfl

/-- What an operation comes to. -/
inductive Effect (s : Store) (op : Operation) : Prop
  | unchanged (h : s.Unchanged (op.run s)) (hsaves : ¬ op.FailsToSave s) (hreports : ¬ op.ReportsChange s)
  | edited {α : Type} {answer : α} {u : Store} (h : s.Edit op u) (hrun : op.run s = (u.changed answer).2)
      (herror : op.error? s = errorOf? (u.changed answer).1)
      (hreports : op.ReportsChange s ↔ (u.changed answer).1 = .ok answer)
  | saved (h : op = .save)

/-- How an operation is answered, and which of the answers tell of a change. -/
structure Operation.Answers {α : Type} (op : Operation) (s : Store) (isNew : α → Prop) (r : Answer α) : Prop where
  run_eq : op.run s = r.2
  error_eq : op.error? s = errorOf? r.1
  reports_iff : op.ReportsChange s ↔ ∃ a, r.1 = .ok a ∧ isNew a

section Answers

variable {α : Type} {op : Operation} {isNew : α → Prop} {answer : α}

theorem Operation.Answers.unchanged {x : Except StoreError α} (h : op.Answers s isNew (x, t)) (hsame : s.Unchanged t)
    (hx : ∀ fault, x ≠ .error (.notWritten fault)) (hold : ∀ a, x = .ok a → ¬ isNew a) : s.Effect op := by
  refine .unchanged (h.run_eq ▸ hsame) (fun hfails => ?_) fun hreports => ?_
  · obtain ⟨fault, hfault⟩ := hfails
    exact hx fault (errorOf?_eq_some_iff.mp (h.error_eq.symm.trans hfault))
  · obtain ⟨a, ha, hnew⟩ := h.reports_iff.mp hreports
    exact hold a ha hnew

theorem Operation.Answers.refused {e : StoreError} (h : op.Answers s isNew (.error e, s))
    (he : ∀ fault, e ≠ .notWritten fault) : s.Effect op :=
  h.unchanged (.refl s) (fun fault hfault => he fault (Except.error.inj hfault)) (by rintro _ ⟨⟩)

theorem Operation.Answers.kept (h : op.Answers s isNew (.ok answer, t)) (hsame : s.Unchanged t)
    (hold : ¬ isNew answer) : s.Effect op :=
  h.unchanged hsame (by rintro _ ⟨⟩) (by rintro _ ⟨⟩; exact hold)

theorem Operation.Answers.edited (h : op.Answers s isNew (u.changed answer)) (hedit : s.Edit op u)
    (hnew : isNew answer) : s.Effect op := by
  refine .edited hedit h.run_eq h.error_eq (h.reports_iff.trans ⟨?_, fun hanswer => ⟨answer, hanswer, hnew⟩⟩)
  rintro ⟨a, ha, -⟩
  exact ha.trans (congrArg Except.ok (changed_fst_eq_ok_iff.mp ha).2)

end Answers

theorem effect_step {op : Operation} {id : Text} {move : History Json → Option Json × History Json}
    (hmoves : op.Moves id move) (s : Store) : s.Effect op := by
  have hsome (x : Except StoreError (Option Json)) :
      (∃ v, x = .ok (some v)) ↔ ∃ a, x = .ok a ∧ a.isSome = true := by
    simp only [Option.isSome_iff_exists]
    constructor
    · rintro ⟨v, hv⟩
      exact ⟨some v, hv, v, rfl⟩
    · rintro ⟨_, hx, v, rfl⟩
      exact ⟨v, hx⟩
  have hanswers : op.Answers s (fun a => a.isSome = true) (s.step move id) := by
    cases hmoves <;> exact ⟨rfl, rfl, hsome _⟩
  rcases step_cases hmoves.isMove id with ⟨l, hstep⟩ | ⟨hist, hhist, ⟨-, hstep⟩ | ⟨v, hv, hstep⟩⟩ <;>
    rw [hstep] at hanswers
  · exact hanswers.refused (by rintro _ ⟨⟩)
  · exact hanswers.kept (unchanged_withHistory hhist) Bool.false_ne_true
  · exact hanswers.edited (.step hmoves hhist hv) rfl

/-- All that the operations come to. -/
theorem effect_run (op : Operation) (s : Store) : s.Effect op := by
  cases op with
  | put id v =>
    have hanswers : (Operation.put id v).Answers s (fun a => a.2 = true) (s.put id v) :=
      ⟨rfl, rfl, by simp [Operation.ReportsChange]⟩
    rcases put_cases id v with ⟨e, he, hput⟩ | ⟨c, hist, hc, hhist, ⟨-, hput⟩ | ⟨hnew, hput⟩⟩ <;>
      rw [hput] at hanswers
    · exact hanswers.refused he
    · exact hanswers.kept (unchanged_withHistory hhist) Bool.false_ne_true
    · exact hanswers.edited (.put hc hhist hnew) rfl
  | get id => exact .unchanged (.refl s) (by rintro ⟨_, ⟨⟩⟩) not_false
  | list => exact .unchanged unchanged_list not_failsToSave_list not_false
  | undo id => exact effect_step (.undo id) s
  | redo id => exact effect_step (.redo id) s
  | remove id =>
    have hanswers : (Operation.remove id).Answers s (· = true) (s.remove id) :=
      ⟨rfl, rfl, by simp [Operation.ReportsChange]⟩
    rcases remove_cases id with ⟨hhas, hremove⟩ | ⟨-, hremove⟩ <;> rw [hremove] at hanswers
    · exact hanswers.edited (.remove hhas) rfl
    · exact hanswers.kept (.refl s) Bool.false_ne_true
  | setScene v =>
    have hanswers : (Operation.setScene v).Answers s (fun _ => True) (s.setScene v) :=
      ⟨rfl, rfl, by simp [Operation.ReportsChange]⟩
    rcases setScene_cases v with ⟨violation, hset⟩ | ⟨fields, hfields, hset⟩ <;> rw [hset] at hanswers
    · exact hanswers.refused (by rintro _ ⟨⟩)
    · exact hanswers.edited (.setScene hfields) trivial
  | save => exact .saved rfl

/-- What stores that are alike have in common, and edits keep, an operation keeps. -/
theorem run_of_edit {P : Store → Prop} (halike : ∀ {t u : Store}, t.Alike u → P t → P u) (h : P s) {op : Operation}
    (hedit : ∀ u, s.Edit op u → P u) : P (op.run s) := by
  cases effect_run op s with
  | unchanged hsame => exact halike hsame.toAlike h
  | edited he hrun =>
    rw [hrun]
    exact halike (alike_changed _ _) (hedit _ he)
  | saved hsave =>
    subst hsave
    exact halike (alike_save s) h

/-- An operation counts as no change or as one. -/
theorem version_run (op : Operation) (s : Store) :
    (op.run s).version = s.version ∨ (op.run s).version = s.version + 1 := by
  cases effect_run op s with
  | unchanged hsame => exact .inl hsame.version_eq
  | edited hedit hrun =>
    rw [hrun, ← hedit.version_eq]
    exact version_changed _ _
  | saved hsave =>
    subst hsave
    exact .inl rfl

theorem version_le_run (op : Operation) (s : Store) : s.version ≤ (op.run s).version := by
  rcases version_run op s with h | h <;> omega

end Ontogram.Store

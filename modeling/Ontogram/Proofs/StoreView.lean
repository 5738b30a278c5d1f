/-
What can be seen of a store.

A list of documents shows what each of them holds and which steps are open to it. Behind the list there are
histories, and they are made whenever a store is asked about a document. That cannot be seen:

* `Store.list_fst` — a list puts together what is found for each document alone;
* `Alike.view_eq` — stores that are alike show the same;
* `alike_run` — an operation that leaves the version as it was leaves the store alike, unless it made a change
  that it could not save;
* `version_determines_view` — the version stands for everything that can be seen, as long as no such change was
  made;
* `failed_put_is_seen` — such a change can be seen.
-/
import Ontogram.Proofs.FailedSaves
namespace Ontogram.Store

variable {s t u : Store} {key : Key} {hist : History Json}

/-! ### Lists of documents -/

/-- What a list says about one document. -/
def listing (s : Store) (key : Key) : Except StoreError (Key × Listing) := do
  let h ← s.historyOf key
  let elements ← elementCount ((s.documents.lookup key).getD .null)
  return (key, ⟨elements, h.canUndo, h.canRedo⟩)

theorem Alike.listing_eq (h : s.Alike t) (key : Key) : t.listing key = s.listing key := by
  rw [listing, listing, h.historyOf_eq, h.documents_eq]

/-- The documents are listed one after another, but each is found as if it were the only one. -/
theorem listFrom_fst (keys : List Key) : (listFrom keys s).1 = keys.mapM s.listing := by
  induction keys generalizing s with
  | nil => rfl
  | cons key rest ih =>
    rw [listFrom, List.mapM_cons, listing]
    cases hhist : s.historyOf key with
    | error e => rfl
    | ok h =>
      -- the history that is kept now is not seen in the rest of the list
      have hrest : (listFrom rest (s.withHistory key h)).1 = rest.mapM s.listing :=
        ih.trans (congrArg rest.mapM (funext (alike_withHistory hhist).listing_eq))
      have hvalue : (s.withHistory key h).documents = s.documents := rfl
      rw [← hrest]
      simp only [hvalue]
      cases elementCount ((s.documents.lookup key).getD .null) with
      | error e => rfl
      | ok elements =>
        generalize listFrom rest (s.withHistory key h) = found
        obtain ⟨_ | _, _⟩ := found <;> rfl

theorem list_fst : s.list.1 = s.keys >>= fun keys => keys.mapM s.listing := by
  unfold list
  cases s.keys with
  | error e => rfl
  | ok keys => exact listFrom_fst keys

/-- Everything that a store answers without being changed. -/
structure View where
  listings : Except StoreError (List (Key × Listing))
  values : Key → Option Json
  scene : Entries

def view (s : Store) : View := ⟨s.list.1, s.value, s.scene⟩

theorem Alike.view_eq (h : s.Alike t) : t.view = s.view := by
  have hkeys : t.keys = s.keys := by rw [keys, keys, h.documents_eq]
  have hlistings : t.list.1 = s.list.1 := by
    rw [list_fst, list_fst, hkeys, funext h.listing_eq]
  have hvalues : t.value = s.value := funext fun key => by rw [value, value, h.documents_eq]
  rw [view, view, hlistings, hvalues, h.scene_eq]

/-! ### What the version stands for -/

/-- A change is counted, or it failed to be saved. -/
theorem alike_run {op : Operation} (h : (op.run s).version = s.version) (hsaved : ¬ op.IsUncounted s) :
    s.Alike (op.run s) := by
  cases effect_run op s with
  | unchanged hsame => exact hsame.toAlike
  | edited hedit hrun herror =>
    rw [hrun, ← hedit.version_eq] at h
    obtain ⟨fault, hfault⟩ := version_changed_eq_iff.mp h
    refine absurd ⟨?_, fault, herror.trans (errorOf?_eq_some_iff.mpr hfault)⟩ hsaved
    rintro rfl
    cases hedit with
    | step hmoves => cases hmoves
  | saved hsave =>
    subst hsave
    exact alike_save s

theorem version_le_runAll (ops : List Operation) (s : Store) : s.version ≤ (runAll ops s).version := by
  induction ops generalizing s with
  | nil => exact Nat.le_refl _
  | cons op rest ih => exact Nat.le_trans (version_le_run op s) (ih _)

/-- Operations that end with the version they began with changed nothing on the way, as no change is ever
counted back. -/
theorem alike_runAll {ops : List Operation} (h : (runAll ops s).version = s.version)
    (hsaved : ∀ k (op : Operation), ops[k]? = some op → ¬ op.IsUncounted (runAll (ops.take k) s)) :
    s.Alike (runAll ops s) := by
  induction ops generalizing s with
  | nil => exact .refl s
  | cons op rest ih =>
    have hfirst := version_le_run op s
    have hrest : (op.run s).version ≤ (runAll (op :: rest) s).version := version_le_runAll rest (op.run s)
    -- the version does not fall in what follows, so it cannot have grown here
    have hop : (op.run s).version = s.version := by omega
    have hlater : (op.run s).Alike (runAll rest (op.run s)) :=
      ih (h.trans hop.symm) fun k op' hop' => hsaved (k + 1) op' hop'
    exact (alike_run hop (hsaved 0 op rfl)).trans hlater

theorem runAll_append (ops later : List Operation) (s : Store) :
    runAll (ops ++ later) s = runAll later (runAll ops s) := List.foldl_append

/-- The operations from one point of a run to another. -/
def between (i j : Nat) (ops : List Operation) : List Operation := (ops.take j).drop i

/-- A later point of a run is reached from an earlier one. -/
theorem runAll_between {i j : Nat} (hij : i ≤ j) (ops : List Operation) (s : Store) :
    runAll (between i j ops) (runAll (ops.take i) s) = runAll (ops.take j) s := by
  have htake : ops.take i = (ops.take j).take i := by rw [List.take_take, Nat.min_eq_left hij]
  rw [between, ← runAll_append, htake, List.take_append_drop]

/-- What is done at a place between two points is done at that place of the whole run. -/
theorem runAll_take_between {i j k : Nat} {ops : List Operation} {op : Operation}
    (h : (between i j ops)[k]? = some op) (s : Store) : i + k < j ∧ ops[i + k]? = some op ∧
      runAll ((between i j ops).take k) (runAll (ops.take i) s) = runAll (ops.take (i + k)) s := by
  rw [between, List.getElem?_drop, List.getElem?_take] at h
  obtain ⟨hk, hop⟩ := Option.ite_none_right_eq_some.mp h
  refine ⟨hk, hop, ?_⟩
  have hplace : (between i j ops).take k = between i (i + k) ops := by
    rw [between, between, List.take_drop, List.take_take, Nat.min_eq_left hk.le]
  rw [hplace, runAll_between (Nat.le_add_right i k)]

/-- **The version.** At any two points of a run at which a store has the same version, it answers the same to
all that can be asked of it without a change, unless a change between them failed to be saved: it lists the same
documents with the same elements and the same steps to take, and it has the same values and the same scene. No
change fails to be saved if all that the store has and all that is brought in can be written. The version never
falls, and an operation raises it by one at most. -/
theorem version_determines_view (s : Store) (ops : List Operation) :
    (∀ i j, i ≤ j → (runAll (ops.take i) s).version = (runAll (ops.take j) s).version →
      (∀ k (op : Operation), i ≤ k → k < j → ops[k]? = some op → ¬ op.IsUncounted (runAll (ops.take k) s)) →
        (runAll (ops.take i) s).view = (runAll (ops.take j) s).view) ∧
    (s.IsSavable → (∀ op ∈ ops, op.IsWritable) →
      ∀ i j, (runAll (ops.take i) s).version = (runAll (ops.take j) s).version →
        (runAll (ops.take i) s).view = (runAll (ops.take j) s).view) ∧
    (∀ i j, i ≤ j → (runAll (ops.take i) s).version ≤ (runAll (ops.take j) s).version) ∧
    ∀ i, (runAll (ops.take (i + 1)) s).version ≤ (runAll (ops.take i) s).version + 1 := by
  have hview : ∀ i j, i ≤ j → (runAll (ops.take i) s).version = (runAll (ops.take j) s).version →
      (∀ k (op : Operation), i ≤ k → k < j → ops[k]? = some op → ¬ op.IsUncounted (runAll (ops.take k) s)) →
        (runAll (ops.take i) s).view = (runAll (ops.take j) s).view := by
    intro i j hij hversion hsaved
    rw [← runAll_between hij ops s] at hversion ⊢
    refine (alike_runAll hversion.symm fun k op hop => ?_).view_eq.symm
    obtain ⟨hk, hop, hrun⟩ := runAll_take_between hop s
    rw [hrun]
    exact hsaved (i + k) op (Nat.le_add_right i k) hk hop
  refine ⟨hview, fun hsavable hwritable i j hversion => ?_, fun i j hij => ?_, fun i => ?_⟩
  · have hsaved (k : Nat) (op : Operation) (hop : ops[k]? = some op) : ¬ op.IsUncounted (runAll (ops.take k) s) :=
      fun huncounted => not_failsToSave_runAll hsavable (fun op' hop' => hwritable op' (List.mem_of_mem_take hop'))
        (hwritable op (List.mem_of_getElem? hop)) huncounted.2
    rcases Nat.le_total i j with hij | hji
    · exact hview i j hij hversion fun k op _ _ => hsaved k op
    · exact (hview j i hji hversion.symm fun k op _ _ => hsaved k op).symm
  · rw [← runAll_between hij ops s]
    exact version_le_runAll _ _
  · rw [List.take_add_one, runAll_append]
    cases ops[i]? with
    | none => exact Nat.le_succ _
    | some op =>
      have hstep := version_run op (runAll (ops.take i) s)
      have hone : runAll (some op).toList (runAll (ops.take i) s) = op.run (runAll (ops.take i) s) := rfl
      rw [hone]
      omega

/-- A document is stored, and then it is only looked for steps back and for other documents. -/
def lookAround : List Operation := [.put "d" (rawDocument "p" "http://p/" ""), .undo "d", .undo "e", .list]

theorem version_determines_view_reads :
    (runAll (lookAround.take 1) empty).version = (runAll (lookAround.take 4) empty).version ∧
      (runAll (lookAround.take 1) empty).version = 1 ∧
      (∀ k (op : Operation), 1 ≤ k → k < 4 → lookAround[k]? = some op →
        ¬ op.IsUncounted (runAll (lookAround.take k) empty)) ∧
      (runAll (lookAround.take 1) empty).view = (runAll (lookAround.take 4) empty).view := by
  have hraw : NTriples.parseRaw [("p", "http://p/")] "" = .ok [] := by decide +kernel
  have hvalue : compileValue (rawDocument "p" "http://p/" "") =
      .ok ⟨(rawDocument "p" "http://p/" "").canonical, ⟨[("p", "http://p/")], "", [], ""⟩, [], [], []⟩ :=
    compile_rawDocument hraw
  have hput : empty.put "d" (rawDocument "p" "http://p/" "") =
      (empty.withRecord (.text "d") ⟨100, [], some (.str (rawDocument "p" "http://p/" "").canonical), []⟩
        (.str (rawDocument "p" "http://p/" "").canonical)).changed
          ((rawDocument "p" "http://p/" "").canonical, true) := by
    unfold put
    rw [hvalue]
    rfl
  -- the document is written and counted
  rw [changed_of_isWritable _ _ (isWritable_put isWritable_empty (by decide) (by decide) _)] at hput
  have hstored : runAll (lookAround.take 1) empty = (empty.put "d" (rawDocument "p" "http://p/" "")).2 := rfl
  rw [hput] at hstored
  have hversion : (runAll (lookAround.take 1) empty).version = 1 := by
    rw [hstored]
    rfl
  have hlater : (runAll (lookAround.take 4) empty).version = 1 := by
    show (runAll [.undo "d", .undo "e", .list] (runAll (lookAround.take 1) empty)).version = 1
    rw [hstored]
    exact unchanged_list.version_eq
  have hsaved : ∀ k (op : Operation), 1 ≤ k → k < 4 → lookAround[k]? = some op →
      ¬ op.IsUncounted (runAll (lookAround.take k) empty) := by
    rintro k op hk hk' hop ⟨-, hfails⟩
    obtain rfl | rfl | rfl : k = 1 ∨ k = 2 ∨ k = 3 := by omega
    · -- there is nothing before the document
      cases hop
      rw [hstored] at hfails
      obtain ⟨_, ⟨⟩⟩ := hfails
    · cases hop
      have hundone : runAll (lookAround.take 2) empty =
          (Operation.undo "d").run (runAll (lookAround.take 1) empty) := rfl
      rw [hundone, hstored] at hfails
      obtain ⟨_, ⟨⟩⟩ := hfails
    · cases hop
      exact not_failsToSave_list hfails
  have hsame : (runAll (lookAround.take 1) empty).version = (runAll (lookAround.take 4) empty).version :=
    hversion.trans hlater.symm
  exact ⟨hsame, hversion, hsaved, (version_determines_view empty lookAround).1 1 4 (by omega) hsame hsaved⟩

/-- A document that UTF-8 cannot hold is put into a new store, and it is seen there at the same version. -/
theorem failed_put_is_seen : Store.open 100 none = .ok empty ∧
    (runAll ([.put "d" halfDocument].take 0) empty).version = (runAll ([.put "d" halfDocument].take 1) empty).version ∧
      (runAll ([.put "d" halfDocument].take 0) empty).get "d" ≠
        (runAll ([.put "d" halfDocument].take 1) empty).get "d" := by
  have hopen : Store.open 100 none = .ok empty := rfl
  obtain ⟨fault, hist, hput⟩ := put_halfDocument (invariant_open (by decide) hopen) "d" rfl
  have hstored : runAll ([.put "d" halfDocument].take 1) empty = (empty.put "d" halfDocument).2 := rfl
  rw [hput] at hstored
  have hget : (empty.withRecord (.text "d") hist (.str halfDocument.canonical)).get "d" =
      some (.str halfDocument.canonical) := get_withRecord _ _ _
  refine ⟨hopen, by rw [hstored]; rfl, fun hsame => ?_⟩
  rw [hstored] at hsame
  cases hsame.trans hget

end Ontogram.Store

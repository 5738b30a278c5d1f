/-
The views of what is refused.

A state file is trusted with its documents, so what is stored may be no document. The two texts that are made of
one are then refused for the same reason. The classification has no refusal, and there the request fails:

* `AsksFor`, `respond_view` — a request for a view is answered from the store, which stays as it is;
* `CompileError.IsRejection` — the errors that a document is refused for;
* `Reports` — a view that says so if there is no document, or one that is refused;
* `views_report_iff` — which views do;
* `classification_fails` — a document whose texts are refused, and whose classification fails.
-/
import Ontogram.Proofs.StateRecovery
namespace Ontogram

/-- The document is refused for what is in it. A code that stands for no character is not among the reasons, and a whole
number that is too long neither. -/
def CompileError.IsRejection : CompileError → Prop
  | .raw (.escape _) | .document .tooManyDigits => False
  | _ => True

namespace Service

variable {id : Text} {view : View} {s : Store} {value : Json} {e : CompileError}

/-! ### Requests for a view -/

/-- The request is for a view of the document. -/
structure AsksFor (r : Request) (id : Text) (view : View) : Prop where
  method : r.method.toUpper = "GET"
  path : target r.path = .resource (.view id view)

theorem respond_view {r : Request} (h : AsksFor r id view) (s : Store) :
    respond r s = (getView id view s, s) := by
  have hroute : route { r with method := r.method.toUpper } s = (getView id view s, s) := by
    simp only [route, h.path, respondAt, h.method]
  have hshown (response : Response) : response.forMethod r.method.toUpper = response :=
    if_neg (by rw [h.method]; decide)
  rw [respond]
  simp only [hroute, hshown]

/-! ### What a view reports -/

theorem refused_of_isRejection (h : e.IsRejection) : refused e = .refusal 400 e.message := by
  unfold refused
  split
  · cases h
  · cases h
  · rfl

theorem getView_of_missing (h : s.get id = none) : getView id view s = notFound := by
  rw [getView, h]

/-- The texts are refused with the reason. -/
theorem getView_of_refused (hview : view ≠ .classification) (hvalue : s.get id = some value)
    (he : compileValue value = .error e) : getView id view s = refused e := by
  rw [getView, hvalue]
  cases view with
  | ntriples => simp only [he]
  | turtle => simp only [he]
  | classification => exact absurd rfl hview

theorem getView_classification_of_refused (hvalue : s.get id = some value)
    (he : compileValue value = .error e) : getView id .classification s = .failed := by
  rw [getView, hvalue]
  simp only [he]

theorem getView_of_isRejection (hview : view ≠ .classification) (hvalue : s.get id = some value)
    (he : compileValue value = .error e) (h : e.IsRejection) : getView id view s = .refusal 400 e.message :=
  (getView_of_refused hview hvalue he).trans (refused_of_isRejection h)

/-- The view says so if there is no document, or if the document is refused, and then for what. -/
structure Reports (s : Store) (id : Text) (view : View) : Prop where
  missing : s.get id = none → getView id view s = notFound
  rejected : ∀ value e, s.get id = some value → compileValue value = .error e → e.IsRejection →
    getView id view s = .refusal 400 e.message ∧ (getView id view s).status = 400

/-- A text reports a document that is refused if UTF-8 has the reason. -/
theorem reports_iff_of_ne_classification (hview : view ≠ .classification) : Reports s id view ↔
    ∀ value e, s.get id = some value → compileValue value = .error e → e.IsRejection →
      e.message.isEncodable = true := by
  constructor
  · intro h value e hvalue he hrejection
    obtain ⟨hrefusal, hstatus⟩ := h.rejected value e hvalue he hrejection
    rw [hrefusal] at hstatus
    exact (Response.status_refusal (by decide) _).mp hstatus
  · intro h
    refine ⟨getView_of_missing, fun value e hvalue he hrejection => ?_⟩
    have hrefusal := getView_of_isRejection hview hvalue he hrejection
    refine ⟨hrefusal, ?_⟩
    rw [hrefusal]
    exact (Response.status_refusal (by decide) _).mpr (h value e hvalue he hrejection)

theorem reports_classification_iff : Reports s id .classification ↔
    ∀ value e, s.get id = some value → compileValue value = .error e → ¬ e.IsRejection := by
  constructor
  · intro h value e hvalue he hrejection
    obtain ⟨-, hstatus⟩ := h.rejected value e hvalue he hrejection
    rw [getView_classification_of_refused hvalue he] at hstatus
    cases hstatus
  · intro h
    exact ⟨getView_of_missing, fun value e hvalue he hrejection =>
      absurd hrejection (h value e hvalue he)⟩

theorem exists_compileValue_of_get (h : s.HoldsCanonicalTexts) (hvalue : s.get id = some value) :
    ∃ c, compileValue value = .ok c := by
  obtain ⟨text, c, rfl, hc, -⟩ := h.stored (.text id) value (Store.value_eq_some_iff.mp hvalue).1
  exact ⟨c, hc⟩

/-- **What the views report.** The views of a document are answered alike if there is none. If it is refused,
the two texts are refused for the reason, which reaches the client if UTF-8 has it, and the classification fails. So the
three report alike iff the document is not refused, as in every store that has nothing but canonical texts. -/
theorem views_report_iff (s : Store) (id : Text) :
    (∀ view r, AsksFor r id view → respond r s = (getView id view s, s)) ∧
      (∀ view, view ≠ .classification → ∀ value e, s.get id = some value → compileValue value = .error e →
        e.IsRejection → getView id view s = .refusal 400 e.message) ∧
      (∀ view, view ≠ .classification → (Reports s id view ↔
        ∀ value e, s.get id = some value → compileValue value = .error e → e.IsRejection →
          e.message.isEncodable = true)) ∧
      (Reports s id .classification ↔
        ∀ value e, s.get id = some value → compileValue value = .error e → ¬ e.IsRejection) ∧
      (∀ value e, s.get id = some value → compileValue value = .error e →
        getView id .classification s = .failed) ∧
      (s.HoldsCanonicalTexts → ∀ view, Reports s id view) := by
  refine ⟨fun _ _ h => respond_view h s, fun _ hview _ _ => getView_of_isRejection hview,
    fun _ => reports_iff_of_ne_classification, reports_classification_iff,
    fun _ _ => getView_classification_of_refused, fun h view => ⟨getView_of_missing, ?_⟩⟩
  intro value e hvalue he
  obtain ⟨c, hc⟩ := exists_compileValue_of_get h hvalue
  cases hc.symm.trans he

/-! ### The empty object -/

/-- A store that was opened on a file with the empty object for a document. -/
def elementlessStore : Store :=
  ⟨1, [(.text "d", .str "\x7b\x7d")], [], StateFile.defaultScene, 0, some (fileOf elementlessFields)⟩

theorem open_elementlessStore : Store.open 1 (some (fileOf elementlessFields)) = .ok elementlessStore :=
  Store.open_of_decode decode_elementlessFields 1

theorem get_elementlessStore : elementlessStore.get "d" = some (.str "\x7b\x7d") := rfl

theorem compileValue_emptyObject :
    compileValue (.str "\x7b\x7d") = .error (.document (.violation (.missing "document.prefixes"))) := by
  have hdecode : Document.decode "\x7b\x7d" = .ok (.obj []) := by decide +kernel
  have hcanonicalize : Document.canonicalize (.obj []) = .error (.violation (.missing "document.prefixes")) := by
    decide +kernel
  rw [compileValue, compileText, hdecode]
  show compile (.obj []) = _
  rw [compile, hcanonicalize]
  rfl

def viewRequest (name : String) : Request := ⟨"GET", "/api/documents/d/" ++ name, .empty⟩

theorem asksFor_viewRequest : AsksFor (viewRequest "ntriples") "d" .ntriples ∧
    AsksFor (viewRequest "turtle") "d" .turtle ∧ AsksFor (viewRequest "classification") "d" .classification := by
  have hmethod : "GET".toUpper = "GET" := by decide +kernel
  exact ⟨⟨hmethod, by decide +kernel⟩, ⟨hmethod, by decide +kernel⟩, ⟨hmethod, by decide +kernel⟩⟩

/-- The rejection, with the reason for it, reaches the client of either text, and none of the classification. -/
theorem views_report_iff_elementless :
    respond (viewRequest "ntriples") elementlessStore =
        (.refusal 400 "document.prefixes is required", elementlessStore) ∧
      respond (viewRequest "turtle") elementlessStore =
        (.refusal 400 "document.prefixes is required", elementlessStore) ∧
      Reports elementlessStore "d" .ntriples ∧ Reports elementlessStore "d" .turtle ∧
      ¬ Reports elementlessStore "d" .classification := by
  obtain ⟨hrespond, hrefusal, htexts, hclassification, -⟩ := views_report_iff elementlessStore "d"
  obtain ⟨hasks, hasks', -⟩ := asksFor_viewRequest
  have hmessage : ∀ value e, elementlessStore.get "d" = some value → compileValue value = .error e →
      e.IsRejection → e.message.isEncodable = true := by
    intro value e hvalue he _
    cases get_elementlessStore.symm.trans hvalue
    cases compileValue_emptyObject.symm.trans he
    decide
  refine ⟨?_, ?_, (htexts _ (by decide)).mpr hmessage, (htexts _ (by decide)).mpr hmessage, fun h =>
    hclassification.mp h _ _ get_elementlessStore compileValue_emptyObject trivial⟩
  · rw [hrespond _ _ hasks, hrefusal _ (by decide) _ _ get_elementlessStore compileValue_emptyObject trivial]
    rfl
  · rw [hrespond _ _ hasks', hrefusal _ (by decide) _ _ get_elementlessStore compileValue_emptyObject trivial]
    rfl

/-- A document whose text is refused, and whose classification fails. -/
theorem classification_fails : ∃ s, Store.open 1 (some (fileOf elementlessFields)) = .ok s ∧
    (respond (viewRequest "ntriples") s).1 = .refusal 400 "document.prefixes is required" ∧
    (respond (viewRequest "classification") s).1 = .failed := by
  obtain ⟨hasks, -, hasks'⟩ := asksFor_viewRequest
  refine ⟨elementlessStore, open_elementlessStore, ?_, ?_⟩
  · rw [respond_view hasks, getView_of_refused (by decide) get_elementlessStore compileValue_emptyObject]
    rfl
  · rw [respond_view hasks', getView_classification_of_refused get_elementlessStore compileValue_emptyObject]

end Service

end Ontogram

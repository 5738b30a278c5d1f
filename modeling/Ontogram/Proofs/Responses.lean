/-
What can be sent.

A response is sent in UTF-8, and its JSON has no numbers without digits. One that cannot be sent is replaced by the
response to a request that failed:

* `status_ofText`, `status_json` — which texts and which values are sent;
* `status_refusal` — a refusal is sent iff the reason for it is;
* `status_forMethod` — the status does not depend on the method.
-/
import Ontogram.Proofs.PiecewiseText
import Ontogram.Service.Exchange
namespace Ontogram.Service.Response

variable {status : Nat}

theorem status_ofText (h : status ≠ 500) (contentType : String) (body : Text) :
    (ofText status contentType body).status = status ↔ body.isEncodable = true := by
  rw [Text.isEncodable_iff, ofText]
  simp only [← Text.toString?_eq_some_iff]
  cases body.toString? with
  | none => exact iff_of_false h.symm (by simp)
  | some s => exact iff_of_true rfl ⟨s, rfl⟩

/-- A value is sent iff its numbers have digits and UTF-8 has its texts. -/
theorem status_json (v : Json) :
    (json v).status = 200 ↔ v.isFinite = true ∧ v.isEncodable = true := by
  rw [json]
  split
  · rename_i hfinite
    rw [status_ofText (by decide), Json.isEncodable_text Json.isMarked_compact rfl, and_iff_right hfinite]
  · rename_i hinfinite
    exact iff_of_false (by decide) fun h => hinfinite h.1

/-- A refusal is sent iff UTF-8 has its reason. -/
theorem status_refusal (h : status ≠ 500) (detail : Text) :
    (refusal status detail).status = status ↔ detail.isEncodable = true := by
  have hdetail : (Json.obj [("detail", .str detail)]).isEncodable = detail.isEncodable := Bool.and_true _
  rw [refusal, status_ofText h, Json.isEncodable_text Json.isMarked_compact rfl, hdetail]

theorem status_forMethod (method : String) (response : Response) :
    (response.forMethod method).status = response.status := by
  unfold forMethod
  split <;> rfl

end Ontogram.Service.Response

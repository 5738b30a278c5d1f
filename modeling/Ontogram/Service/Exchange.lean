/-
Requests and responses.

* `Request` — what a client asks;
* `Response` — what it is told; `Response.json` refuses numbers without digits, which JSON text has no
  agreed spelling for, and `Response.ofText` what cannot be sent in UTF-8; both answer with
  `Response.failed` in its place;
* `Response.forMethod` — what of a response reaches the client.
-/
import Ontogram.Json.Printer
namespace Ontogram.Service

structure Request where
  method : String
  /-- The path as it was sent, percent-encoded and with its query. -/
  path : String
  body : ByteArray

structure Response where
  status : Nat
  /-- What the body is; a response that never has one does not say. -/
  contentType : Option String
  body : String
deriving DecidableEq

namespace Response

/-- The response to a request that cannot be served. -/
def failed : Response := ⟨500, some "text/plain; charset=utf-8", "Internal Server Error"⟩

def jsonType : String := "application/json"

def htmlType : String := "text/html; charset=utf-8"

/-- A response with a text, which has to be sent in UTF-8. -/
def ofText (status : Nat) (contentType : String) (body : Text) : Response :=
  match body.toString? with
  | some body => ⟨status, some contentType, body⟩
  | none => failed

def json (v : Json) : Response :=
  if v.isFinite then ofText 200 jsonType (v.text .compact) else failed

/-- A refusal, with the reason for it. -/
def refusal (status : Nat) (detail : Text) : Response :=
  ofText status jsonType ((Json.obj [("detail", .str detail)]).text .compact)

/-- The advice to ask again elsewhere, with the same method and body. -/
def elsewhere : Response := ⟨307, none, ""⟩

/-- Asked with `HEAD`, a client wants to hear about the body without being sent it. -/
def forMethod (method : String) (r : Response) : Response :=
  if method = "HEAD" then { r with body := "" } else r

end Response

end Ontogram.Service

/-
The endpoints of the service.

An endpoint answers a request to one resource and gives the store as it is afterwards:

* `route`, `respond` — the response to any request;
* `putDocument`, `putScene` — the endpoints that take a body;
* `getView` — what is derived from a stored document.
-/
import Ontogram.Service.Page
import Ontogram.Service.Resource
import Ontogram.Store.Basic
namespace Ontogram

def Listing.toJson (key : Key) (l : Listing) : Json :=
  .obj [("id", key.toJson), ("elements", .int l.elements), ("can_undo", .bool l.canUndo),
    ("can_redo", .bool l.canRedo)]

def listingsJson (listings : List (Key × Listing)) : Json :=
  .obj (listings.map fun (key, l) => (key.fieldName, l.toJson key))

namespace Service

/-- The response to a document that does not compile. -/
def refused : CompileError → Response
  | .raw (.escape _) | .document .tooManyDigits => .failed
  | e => .refusal 400 e.message

def notFound : Response := .refusal 404 "Document not found"

/-- A stored value, with the JSON that its text holds. -/
def documentResponse (id : Text) (value : Json) (more : List (Text × Json)) : Response :=
  match value with
  | .str text =>
    match Json.parse text with
    | .ok document => .json (.obj (("id", .str id) :: ("value", value) :: ("document", document) :: more))
    | .error _ => .failed
  | _ => .failed

def getPage (s : Store) : Response × Store :=
  match s.list with
  | (.ok listings, s) =>
    (if Page.isShowable s.scene then .ofText 200 Response.htmlType (Page.page listings s.scene) else .failed, s)
  | (.error _, s) => (.failed, s)

def getDocuments (s : Store) : Response × Store :=
  match s.list with
  | (.ok listings, s) => (.json (listingsJson listings), s)
  | (.error _, s) => (.failed, s)

def getDocument (id : Text) (s : Store) : Response :=
  match s.get id with
  | some value => documentResponse id value []
  | none => notFound

def putDocument (id : Text) (body : ByteArray) (s : Store) : Response × Store :=
  match Text.ofUtf8? body with
  | none => (.refusal 400 "document must be valid UTF-8", s)
  | some text =>
    match s.put id (.str text) with
    | (.ok (value, isNew), s) => (documentResponse id (.str value) [("changed", .bool isNew)], s)
    | (.error (.refused e), s) => (refused e, s)
    | (.error _, s) => (.failed, s)

def deleteDocument (id : Text) (s : Store) : Response × Store :=
  match s.remove id with
  | (.ok true, s) => (.json (.obj [("removed", .str id)]), s)
  | (.ok false, s) => (notFound, s)
  | (.error _, s) => (.failed, s)

/-- A text made from the statements, whose names all need a declared prefix. -/
def textResponse (contentType : String) : Except NameError Text → Response
  | .ok text => .ofText 200 contentType text
  | .error e => .refusal 400 e.message

def getView (id : Text) (view : View) (s : Store) : Response :=
  match s.get id with
  | none => notFound
  | some value =>
    match view, compileValue value with
    | .classification, .error _ => .failed
    | _, .error e => refused e
    | .ntriples, .ok c => textResponse "application/n-triples" c.ntriples
    | .turtle, .ok c => textResponse "text/turtle; charset=utf-8" c.turtle
    | .classification, .ok c => .json c.classificationJson

/-- The change of a store that a move is. -/
def Move.onStore : Move → Text → Store → Store.Answer (Option Json)
  | .undo => Store.undo
  | .redo => Store.redo

/-- The response where there is nowhere to move. -/
def Move.refusal : Move → Response
  | .undo => .refusal 409 "Nothing to undo"
  | .redo => .refusal 409 "Nothing to redo"

def postMove (id : Text) (move : Move) (s : Store) : Response × Store :=
  match s.get id with
  | none => (notFound, s)
  | some _ =>
    match move.onStore id s with
    | (.ok (some value), s) => (documentResponse id value [], s)
    | (.ok none, s) => (move.refusal, s)
    | (.error _, s) => (.failed, s)

def getScene (s : Store) : Response :=
  if s.scene.isFinite && s.scene.hasShortNumbers then .json s.scene.toJson else .failed

/-- A scene comes in any Unicode encoding. -/
def putScene (body : ByteArray) (s : Store) : Response × Store :=
  match (Text.decodeAny body.data.toList).map Json.parse with
  | none | some (.error .tooManyDigits) => (.failed, s)
  | some (.error _) => (.refusal 400 "scene must be an object", s)
  | some (.ok v) =>
    match s.setScene v with
    | (.ok scene, s) => (.json (.obj scene), s)
    | (.error (.badScene violation), s) => (.refusal 400 violation.message, s)
    | (.error _, s) => (.failed, s)

def getManual : Manual → Response
  | .description => ⟨200, some Response.jsonType, ""⟩
  | _ => ⟨200, some Response.htmlType, ""⟩

/-- The response of a resource to a method; the events of a store are streamed and not answered here. -/
def respondAt (resource : Resource) (r : Request) (s : Store) : Response × Store :=
  match resource, r.method with
  | .page, "GET" => getPage s
  | .manual part, "GET" | .manual part, "HEAD" => (getManual part, s)
  | .documents, "GET" => getDocuments s
  | .document id, "GET" => (getDocument id s, s)
  | .document id, "PUT" => putDocument id r.body s
  | .document id, "DELETE" => deleteDocument id s
  | .view id view, "GET" => (getView id view s, s)
  | .move id move, "POST" => postMove id move s
  | .scene, "GET" => (getScene s, s)
  | .scene, "PUT" => putScene r.body s
  | _, _ => (.refusal 405 "Method Not Allowed", s)

/-- The response as the service gives it. -/
def route (r : Request) (s : Store) : Response × Store :=
  match target r.path with
  | .resource resource => respondAt resource r s
  | .elsewhere => (.elsewhere, s)
  | .nothing => (.refusal 404 "Not Found", s)

/-- The response to a request, whose method may be written in small letters. -/
def respond (r : Request) (s : Store) : Response × Store :=
  let r := { r with method := r.method.toUpper }
  let (response, s) := route r s
  (response.forMethod r.method, s)

end Service

end Ontogram

/-
The canonical text of a document.

* `Document.toJson` — the document as a JSON object;
* `Document.parse` — the document that a text holds;
* `Document.canonicalize` — the one text of a document given as a JSON value: compact, with sorted keys.
-/
import Ontogram.Document.Schema
import Ontogram.Json.Printer
namespace Ontogram.Document

open Schema (Checked)

def toJson (d : Document) : Json :=
  .obj
    [("prefixes", .obj (d.namespaces.map fun (label, ns) => (label, .str ns))),
     ("domain", .str d.domain),
     ("elements", .obj (d.elements.map fun (id, e) => (id, e.toJson))),
     ("rawStatements", .str d.rawStatements)]

/-- Why a document is not read or not written. -/
inductive Failure where
  | violation (violation : Violation)
  /-- A whole number that is too long. -/
  | tooManyDigits
deriving DecidableEq

def Failure.message : Failure → Text
  | .violation v => v.message
  | .tooManyDigits => Json.Fault.tooManyDigits.message

/-- The JSON value of a document's text. -/
def decode (s : Text) : Except Failure Json :=
  match Json.parse s with
  | .ok v => .ok v
  | .error .tooManyDigits => .error .tooManyDigits
  | .error fault => .error (.violation (.notJson fault))

def ofJson (v : Json) : Checked Document := Schema.document v

def parse (s : Text) : Except Failure Document := do (ofJson (← decode s)).mapError .violation

/-- The canonical text of a JSON value that is a document. -/
def canonicalize (v : Json) : Except Failure Text := do
  let _ ← (ofJson v).mapError .violation
  match v.canonical? with
  | some text => return text
  | none => .error .tooManyDigits

/-- The canonical text of the document that a text holds. -/
def canonicalizeText (s : Text) : Except Failure Text := do canonicalize (← decode s)

def isCanonical (s : Text) : Except Failure Bool := do return (← canonicalizeText s) == s

/-- The text of a document's file. -/
def fileText (d : Document) : Except Failure Text := do return (← canonicalize d.toJson) ++ "\n"

/-- The bytes of a document's file; there are none for a text that UTF-8 cannot hold. -/
def fileBytes (d : Document) : Except Failure (Option ByteArray) := do return (← fileText d).toUtf8?

end Ontogram.Document

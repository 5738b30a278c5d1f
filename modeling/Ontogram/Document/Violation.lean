/-
What can be wrong with a document.

A `Violation` names the offending place by its path (`elements['e1'].width`) and the rule it breaks;
`Violation.message` is the only place where the wording stands.
-/
import Ontogram.Document.Element
import Ontogram.Json.Reader
namespace Ontogram

/-- The kind of a JSON value, as messages call it. -/
def Json.kindName : Json → Text
  | .null => "null"
  | .bool _ => "boolean"
  | .int _ | .double _ => "number"
  | .str _ => "string"
  | .arr _ => "array"
  | .obj _ => "object"

inductive Violation where
  /-- The document's text is no JSON. -/
  | notJson (fault : Json.Fault)
  | notDefined (place : Text)
  | notNumber (place : Text)
  | notString (place : Text)
  | notStringOrNull (place : Text)
  | notArray (place : Text)
  | notObject (place : Text)
  /-- An object was expected, and an array would be a likely mistake. -/
  | notMap (place : Text)
  | missing (place : Text)
  | missingTypeOrId (place : Text)
  | missingParentOrElement (place : Text)
  | missingSceneField
  | unknownType (place : Text)
  | otherType (place expected actual : Text)
  | extraField (place : Text)
  | extraKey (key : Text)
  | tooSmall (place : Text)
  | idMismatch (id : Text)
  | namespaceNotString (label kind : Text)
  | badTree (id : Text)
deriving DecidableEq

namespace Violation

/-- The least absolute width and height of a shape. -/
def leastExtent : Nat := 24

def message : Violation → Text
  | .notJson fault => "document must be valid JSON: " ++ fault.message
  | .notDefined place => place ++ " must be defined"
  | .notNumber place => place ++ " must be a number"
  | .notString place => place ++ " must be a string"
  | .notStringOrNull place => place ++ " must be a string or null"
  | .notArray place => place ++ " must be an array"
  | .notObject place => place ++ " must be an object"
  | .notMap place => place ++ " must be an object (not an array)"
  | .missing place => place ++ " is required"
  | .missingTypeOrId place => place ++ " must have type and id properties"
  | .missingParentOrElement place => place ++ " must have parent and element properties"
  | .missingSceneField => "scene must have x, y, and k properties"
  | .unknownType place =>
    place ++ " must be one of: " ++ Text.intercalate ", " (Variant.all.map Variant.name)
  | .otherType place expected actual =>
    place ++ ".type must be '" ++ expected ++ "', got '" ++ actual ++ "'"
  | .extraField place => place ++ " is not a valid field"
  | .extraKey key => "unexpected key in document: " ++ key
  | .tooSmall place => place ++ " absolute value must be at least " ++ Text.ofNat leastExtent ++ "px"
  | .idMismatch id => "elements['" ++ id ++ "'].id must match the key '" ++ id ++ "'"
  | .namespaceNotString label kind =>
    "prefixes['" ++ label ++ "'] must be a string, got " ++ kind
  | .badTree id =>
    "elements['" ++ id ++ "'] has invalid tree structure " ++
      "(check that root and all items exist, are diamonds, and no cycles exist)"

end Violation

end Ontogram

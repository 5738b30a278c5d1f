/-
Reading a document out of a JSON value.

Each reader answers with the value it was asked for or with the first violation. Inside one object a
missing key comes before a wrong type, a wrong type before an extra key, and an extra key before a value
out of range; trees are looked at once every element has passed:

* `Schema.readElement` — an element by the field order of its variant, its size apart;
* `Schema.element` — an element whose shape is large enough;
* `Schema.elements` — an element map with matching ids and sound trees;
* `Schema.document`, `Schema.scene` — the two values that are stored.
-/
import Ontogram.Document.Hierarchy
import Ontogram.Document.Violation
namespace Ontogram

/-- Namespaces by their labels, in the order in which they were declared. -/
abbrev PrefixMap := Assoc Text

/-- A diagram with the names it may use and the statements written beside it. -/
structure Document where
  namespaces : PrefixMap
  domain : Text
  elements : Elements
  rawStatements : Text
deriving DecidableEq

namespace Schema

/-- A value or the first violation. -/
abbrev Checked := Except Violation

def number (place : Text) (v : Json) : Checked Number :=
  match Number.ofJson? v with
  | some n => .ok n
  | none => .error (.notNumber place)

def string (place : Text) : Json → Checked Text
  | .str s => .ok s
  | _ => .error (.notString place)

def stringOrNull (place : Text) : Json → Checked (Option Text)
  | .null => .ok none
  | .str s => .ok (some s)
  | _ => .error (.notStringOrNull place)

def defined (place : Text) : Json → Checked Unit
  | .null => .error (.notDefined place)
  | _ => .ok ()

/-- The value of a field that has to be there. -/
def field (place key : Text) (fields : Assoc Json) : Checked Json :=
  match fields.lookup key with
  | some v => .ok v
  | none => .error (.missing (place ++ "." ++ key))

def numberField (place key : Text) (fields : Assoc Json) : Checked Number := do
  number (place ++ "." ++ key) (← field place key fields)

def stringField (place key : Text) (fields : Assoc Json) : Checked Text := do
  string (place ++ "." ++ key) (← field place key fields)

def endField (place key : Text) (fields : Assoc Json) : Checked (Option Text) := do
  stringOrNull (place ++ "." ++ key) (← field place key fields)

/-- The first of the keys that the object lacks is the violation. -/
def requireAll (place : Text) (keys : List Text) (fields : Assoc Json) : Checked Unit :=
  match keys.find? fun key => !Assoc.has fields key with
  | some key => .error (.missing (place ++ "." ++ key))
  | none => .ok ()

/-- The least key, by code point, that is not allowed. -/
def extraKey? (allowed : List Text) (fields : Assoc Json) : Option Text :=
  (((Assoc.keys fields).filter fun key => !allowed.contains key).mergeSort fun a b => a ≤ b).head?

def noExtraField (place : Text) (allowed : List Text) (fields : Assoc Json) : Checked Unit :=
  match extraKey? allowed fields with
  | some key => .error (.extraField (place ++ "." ++ key))
  | none => .ok ()

/-- One of the names of the variants. -/
def variant (place : Text) : Json → Checked Variant
  | .str s =>
    match Variant.ofName? s with
    | some v => .ok v
    | none => .error (.unknownType place)
  | _ => .error (.unknownType place)

/-- A name of a variant that stands by itself; here a value of another kind has a message of its own. -/
def elementType : Json → Checked Variant
  | .str s => variant "type" (.str s)
  | _ => .error (.notString "type")

def treeItem (place : Text) : Json → Checked TreeItem
  | .obj fields =>
    if Assoc.has fields "parent" && Assoc.has fields "element" then do
      let parent ← stringField place "parent" fields
      let element ← stringField place "element" fields
      noExtraField place ["parent", "element"] fields
      return ⟨parent, element⟩
    else .error (.missingParentOrElement place)
  | _ => .error (.notObject place)

/-- The items of an array, from the one with the given index on. -/
def treeItemsFrom (place : Text) : Nat → List Json → Checked (List TreeItem)
  | _, [] => .ok []
  | i, v :: rest => do
    let item ← treeItem (place ++ "[" ++ Text.ofNat i ++ "]") v
    return item :: (← treeItemsFrom place (i + 1) rest)

def treeItems (place : Text) : Json → Checked (List TreeItem)
  | .arr items => treeItemsFrom place 0 items
  | _ => .error (.notArray place)

def shape (place : Text) (fields : Assoc Json) : Checked Shape := do
  let id ← stringField place "id" fields
  let x ← numberField place "x" fields
  let y ← numberField place "y" fields
  let width ← numberField place "width" fields
  let height ← numberField place "height" fields
  let text ← stringField place "text" fields
  return { id, x, y, width, height, text }

def arrow (place : Text) (fields : Assoc Json) : Checked Arrow := do
  let id ← stringField place "id" fields
  let x1 ← numberField place "x1" fields
  let y1 ← numberField place "y1" fields
  let x2 ← numberField place "x2" fields
  let y2 ← numberField place "y2" fields
  let text ← stringField place "text" fields
  let source ← endField place "source" fields
  let target ← endField place "target" fields
  return { id, x1, y1, x2, y2, text, source, target }

def note (place : Text) (fields : Assoc Json) : Checked Note := do
  let id ← stringField place "id" fields
  let x ← numberField place "x" fields
  let y ← numberField place "y" fields
  let text ← stringField place "text" fields
  return { id, x, y, text }

def tree (place : Text) (fields : Assoc Json) : Checked Tree := do
  let id ← stringField place "id" fields
  let root ← stringField place "root" fields
  let items ← treeItems (place ++ ".items") (← field place "items" fields)
  return { id, root, items }

/-- The fields of a variant, in its order. -/
def variantFields (place : Text) (v : Variant) (fields : Assoc Json) : Checked Element :=
  match v with
  | .rectangle => .rectangle <$> shape place fields
  | .diamond => .diamond <$> shape place fields
  | .arrow => .arrow <$> arrow place fields
  | .note => .note <$> note place fields
  | .tree => .tree <$> tree place fields

/-- An element of any size. -/
def readElement (place : Text) : Json → Checked Element
  | .obj fields =>
    match fields.lookup ("type" : Text), Assoc.has fields "id" with
    | some type, true => do
      let v ← variant (place ++ ".type") type
      requireAll place v.fields fields
      let e ← variantFields place v fields
      noExtraField place v.fields fields
      return e
    | _, _ => .error (.missingTypeOrId place)
  | _ => .error (.notObject place)

/-- Width before height. -/
def largeEnough (place : Text) (s : Shape) : Checked Unit :=
  if s.width.absBelow Violation.leastExtent then .error (.tooSmall (place ++ ".width"))
  else if s.height.absBelow Violation.leastExtent then .error (.tooSmall (place ++ ".height"))
  else .ok ()

def element (place : Text) (v : Json) : Checked Element := do
  let e ← readElement place v
  match e with
  | .rectangle s | .diamond s => largeEnough place s
  | _ => pure ()
  return e

/-- An element of one given variant. -/
def elementOf (expected place : Text) (v : Json) : Checked Element := do
  let e ← element place v
  if e.variant.name = expected then return e
  else .error (.otherType place expected e.variant.name)

/-- The entries of an element map, each under its own id. -/
def elementEntries : List (Text × Json) → Checked Elements
  | [] => .ok []
  | (id, v) :: rest => do
    let e ← element ("elements['" ++ id ++ "']") v
    if e.id = id then return (id, e) :: (← elementEntries rest)
    else .error (.idMismatch id)

/-- The key of the first tree that is no hierarchy of the map's diamonds. -/
def unsoundTree? (elements : Elements) : Option Text :=
  (elements.find? fun (_, e) =>
    match e with
    | .tree t => !t.isSound elements
    | _ => false).map (·.1)

def elements : Json → Checked Elements
  | .obj fields => do
    let entries ← elementEntries fields
    match unsoundTree? entries with
    | some id => .error (.badTree id)
    | none => return entries
  | _ => .error (.notMap "elements")

def namespaceEntries : List (Text × Json) → Checked PrefixMap
  | [] => .ok []
  | (label, .str ns) :: rest => do return (label, ns) :: (← namespaceEntries rest)
  | (label, v) :: _ => .error (.namespaceNotString label v.kindName)

def namespaces : Json → Checked PrefixMap
  | .obj fields => namespaceEntries fields
  | _ => .error (.notMap "prefixes")

def domain (v : Json) : Checked Text := string "domain" v

def rawStatements (v : Json) : Checked Text := string "rawStatements" v

def sceneKeys : List Text := ["x", "y", "k"]

/-- The fields of a scene, the visible part of the canvas: its origin and its zoom. -/
def scene : Json → Checked (Assoc Json)
  | .obj fields =>
    if sceneKeys.all (Assoc.has fields) then do
      let _ ← numberField "scene" "x" fields
      let _ ← numberField "scene" "y" fields
      let _ ← numberField "scene" "k" fields
      noExtraField "scene" sceneKeys fields
      return fields
    else .error .missingSceneField
  | _ => .error (.notObject "scene")

def documentKeys : List Text := ["prefixes", "domain", "elements", "rawStatements"]

def document : Json → Checked Document
  | .obj fields => do
    requireAll "document" documentKeys fields
    let namespaces ← namespaces (← field "document" "prefixes" fields)
    let domain ← domain (← field "document" "domain" fields)
    let elements ← elements (← field "document" "elements" fields)
    let rawStatements ← rawStatements (← field "document" "rawStatements" fields)
    match extraKey? documentKeys fields with
    | some key => .error (.extraKey key)
    | none => return { namespaces, domain, elements, rawStatements }
  | _ => .error (.notObject "document")

end Schema

end Ontogram

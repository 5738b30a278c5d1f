/-
The elements of a diagram.

* `Element` — a box, a diamond, an arrow, a note or a tree, each with its id;
* `Element.toJson` — its JSON object, whose fields are exactly those of its variant;
* `Variant` — the five kinds, with the name and the field order of each.
-/
import Ontogram.Json.Value
namespace Ontogram

/-- A coordinate or extent, whole or floating-point as it was written. -/
inductive Number where
  | int (value : Int)
  | double (value : Double)
deriving DecidableEq

namespace Number

def toJson : Number → Json
  | .int n => .int n
  | .double x => .double x

def ofJson? : Json → Option Number
  | .int n => some (.int n)
  | .double x => some (.double x)
  | _ => none

/-- Is the absolute value below the bound? -/
def absBelow (bound : Nat) : Number → Bool
  | .int n => n.natAbs < bound
  | .double x => x.absBelow bound

end Number

/-- A rectangle or a diamond. Its extents may be negative, as a drag to the left or up leaves them. -/
structure Shape where
  id : Text
  x : Number
  y : Number
  width : Number
  height : Number
  text : Text
deriving DecidableEq

/-- An arrow; an end that is attached to nothing has no id. -/
structure Arrow where
  id : Text
  x1 : Number
  y1 : Number
  x2 : Number
  y2 : Number
  text : Text
  source : Option Text
  target : Option Text
deriving DecidableEq

structure Note where
  id : Text
  x : Number
  y : Number
  text : Text
deriving DecidableEq

/-- One edge of a tree, from a parent's id to an element's. -/
structure TreeItem where
  parent : Text
  element : Text
deriving DecidableEq

structure Tree where
  id : Text
  root : Text
  items : List TreeItem
deriving DecidableEq

inductive Element where
  | rectangle (shape : Shape)
  | diamond (shape : Shape)
  | arrow (arrow : Arrow)
  | note (note : Note)
  | tree (tree : Tree)
deriving DecidableEq

/-- The element map of a diagram. -/
abbrev Elements := Assoc Element

/-- The kinds of element. -/
inductive Variant where
  | rectangle
  | diamond
  | arrow
  | note
  | tree
deriving DecidableEq

namespace Variant

def name : Variant → Text
  | .rectangle => "rectangle"
  | .diamond => "diamond"
  | .arrow => "arrow"
  | .note => "text"
  | .tree => "tree"

def all : List Variant := [.rectangle, .diamond, .arrow, .note, .tree]

def ofName? (s : Text) : Option Variant := all.find? fun v => v.name == s

theorem ofName?_name (v : Variant) : ofName? v.name = some v := by cases v <;> decide

/-- The fields of a kind, in the order in which they are checked. -/
def fields : Variant → List Text
  | .rectangle | .diamond => ["id", "type", "x", "y", "width", "height", "text"]
  | .arrow => ["id", "type", "x1", "y1", "x2", "y2", "text", "source", "target"]
  | .note => ["id", "type", "x", "y", "text"]
  | .tree => ["id", "type", "root", "items"]

end Variant

namespace Element

def variant : Element → Variant
  | .rectangle _ => .rectangle
  | .diamond _ => .diamond
  | .arrow _ => .arrow
  | .note _ => .note
  | .tree _ => .tree

def id : Element → Text
  | .rectangle s | .diamond s => s.id
  | .arrow a => a.id
  | .note n => n.id
  | .tree t => t.id

def isDiamond : Element → Bool
  | .diamond _ => true
  | _ => false

/-- A missing end is null. -/
def endJson : Option Text → Json
  | some id => .str id
  | none => .null

def toJson (e : Element) : Json :=
  let head : List (Text × Json) := [("id", .str e.id), ("type", .str e.variant.name)]
  .obj <| head ++ match e with
    | .rectangle s | .diamond s =>
      [("x", s.x.toJson), ("y", s.y.toJson), ("width", s.width.toJson), ("height", s.height.toJson),
       ("text", .str s.text)]
    | .arrow a =>
      [("x1", a.x1.toJson), ("y1", a.y1.toJson), ("x2", a.x2.toJson), ("y2", a.y2.toJson),
       ("text", .str a.text), ("source", endJson a.source), ("target", endJson a.target)]
    | .note n => [("x", n.x.toJson), ("y", n.y.toJson), ("text", .str n.text)]
    | .tree t =>
      [("root", .str t.root),
       ("items", .arr (t.items.map fun i => .obj [("parent", .str i.parent), ("element", .str i.element)]))]

end Element

/-- Both ends of the arrow are attached. -/
def Arrow.isBound (a : Arrow) : Bool := a.source.isSome && a.target.isSome

end Ontogram

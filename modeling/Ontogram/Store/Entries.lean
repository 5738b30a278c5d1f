/-
Entries of a store and their keys.

The keys of a JSON object are texts. Entries that are written as pairs may also have null, a truth value
or a number for a key; there a truth value counts as 0 or 1, and equal numbers are one key:

* `Key.denotesSame` — do two keys stand for one entry?
* `Key.sortOn?` — texts in code-point order, numbers by size; there is no order between the two kinds;
* `Entries.ofPairs` — pairs one after another, the first spelling of a key and the last value staying;
* `Entries.toJson`, `Entries.canonical?` — the object that has the entries for fields, and its text with
  the keys in order.
-/
import Ontogram.InsertionOrder
import Ontogram.Json.Printer
namespace Ontogram

/-- The key of an entry. -/
inductive Key where
  | text (value : Text)
  | null
  | bool (value : Bool)
  | int (value : Int)
  | double (value : Double)
deriving DecidableEq

namespace Key

/-- The value that a key is; one that has parts is no key. -/
def ofJson? : Json → Option Key
  | .null => some .null
  | .bool b => some (.bool b)
  | .int n => some (.int n)
  | .double x => some (.double x)
  | .str s => some (.text s)
  | .arr _ => none
  | .obj _ => none

def toJson : Key → Json
  | .text s => .str s
  | .null => .null
  | .bool b => .bool b
  | .int n => .int n
  | .double x => .double x

theorem ofJson?_eq_some_iff {v : Json} {k : Key} : ofJson? v = some k ↔ v = k.toJson := by
  cases v <;> cases k <;> simp [ofJson?, toJson]

/-- A key as the field of an object: a text as it is, anything else as JSON writes it. -/
def fieldName : Key → Text
  | .text s => s
  | k => k.toJson.text .compact

def isText : Key → Bool
  | .text _ => true
  | _ => false

def isNumber : Key → Bool
  | .bool _ | .int _ | .double _ => true
  | _ => false

/-- Where a number lies: on which side of all finite numbers, if not among them, and how many units of
`2^-1074` it has. What is not a number lies nowhere. -/
def position? : Key → Option (Int × Int)
  | .bool b => some (0, if b then (Nat.pow 2 1074 : Nat) else 0)
  | .int n => some (0, n * (Nat.pow 2 1074 : Nat))
  | .double (.finite negative size) => some (0, if negative then -size.units else size.units)
  | .double (.infinite negative) => some (if negative then -1 else 1, 0)
  | _ => none

def denotesSame (a b : Key) : Bool :=
  a = b || (a.position?.isSome && a.position? = b.position?)

/-- Does a key stand before another? Only asked of keys that can be compared; what is not a number stands
before nothing and has nothing before it. -/
def isBefore (a b : Key) : Bool :=
  match a, b with
  | .text s, .text t => s < t
  | a, b =>
    match a.position?, b.position? with
    | some x, some y => x.1 < y.1 || (x.1 = y.1 && x.2 < y.2)
    | _, _ => false

/-- Can these keys be put in order? A single one always can. -/
def areComparable (keys : List Key) : Bool :=
  keys.length < 2 || keys.all isText || keys.all isNumber

/-- Does every one of these keys have its place in an order? -/
def areOrdered (keys : List Key) : Bool := !keys.contains (.double .notANumber)

/-- Things in the order of their keys, if they can be compared. With something among the keys that is not
a number, the order is the one that comes out of inserting. -/
def sortOn? {α : Type} (key : α → Key) (xs : List α) : Option (List α) :=
  let keys := xs.map key
  if !areComparable keys then none
  else if areOrdered keys then some (xs.mergeSort fun a b => !(key b).isBefore (key a))
  else some (sortByInsertion (fun a b => (key a).isBefore (key b)) xs)

end Key

/-- Values by their keys, in order of first arrival. -/
abbrev Entries := List (Key × Json)

namespace Entries

def ofFields (fields : Assoc Json) : Entries := fields.map fun (name, v) => (.text name, v)

/-- A key that is there already keeps its place and its spelling. -/
def put (key : Key) (value : Json) : Entries → Entries
  | [] => [(key, value)]
  | (k, v) :: rest =>
    if key.denotesSame k then (k, value) :: rest else (k, v) :: put key value rest

def ofPairs (pairs : List (Key × Json)) : Entries :=
  pairs.foldl (fun entries e => put e.1 e.2 entries) []

def toJson (entries : Entries) : Json := .obj (entries.map fun (k, v) => (k.fieldName, v))

/-- Every number among keys and values has digits. -/
def isFinite (entries : Entries) : Bool :=
  entries.all fun (k, v) => k.toJson.isFinite && v.isFinite

/-- No whole number among keys and values is too long. -/
def hasShortNumbers (entries : Entries) : Bool :=
  entries.all fun (k, v) => k.toJson.hasShortNumbers && v.hasShortNumbers

/-- The compact text with sorted keys, for keys that have an order. -/
def canonical? (entries : Entries) : Option Text :=
  (Key.sortOn? (·.1) entries).map fun sorted =>
    (toJson (sorted.map fun (k, v) => (k, v.sortKeys))).text .compact

end Entries

end Ontogram

/-
JSON values.

Whole numbers are unbounded and never confused with floating-point numbers of the same value, and an
object keeps the order of its fields:

* `Json` — the values, with decidable equality;
* `Json.sortKeys` — every object's fields in code-point order of their keys, at every level;
* `Json.all` — a test of everything inside;
* `Json.isFinite`, `Json.hasShortNumbers`, `Json.isEncodable` — no infinity and nothing that is not a number
  inside, no whole number with too many digits, no text that UTF-8 cannot hold.
-/
import Ontogram.Assoc
import Ontogram.Double
namespace Ontogram

inductive Json where
  | null
  | bool (value : Bool)
  | int (value : Int)
  | double (value : Double)
  | str (value : Text)
  | arr (items : List Json)
  | obj (fields : List (Text × Json))

namespace Json

mutual

protected def decEq (a b : Json) : Decidable (a = b) :=
  match a with
  | .null => by cases b <;> first | exact isTrue rfl | exact isFalse (by simp)
  | .bool x => by
    cases b with
    | bool y => exact decidable_of_iff (x = y) (by simp)
    | _ => exact isFalse (by simp)
  | .int x => by
    cases b with
    | int y => exact decidable_of_iff (x = y) (by simp)
    | _ => exact isFalse (by simp)
  | .double x => by
    cases b with
    | double y => exact decidable_of_iff (x = y) (by simp)
    | _ => exact isFalse (by simp)
  | .str x => by
    cases b with
    | str y => exact decidable_of_iff (x = y) (by simp)
    | _ => exact isFalse (by simp)
  | .arr xs => by
    cases b with
    | arr ys => exact @decidable_of_iff _ (xs = ys) (by simp) (Json.decEqItems xs ys)
    | _ => exact isFalse (by simp)
  | .obj xs => by
    cases b with
    | obj ys => exact @decidable_of_iff _ (xs = ys) (by simp) (Json.decEqFields xs ys)
    | _ => exact isFalse (by simp)

protected def decEqItems (xs ys : List Json) : Decidable (xs = ys) :=
  match xs, ys with
  | [], [] => isTrue rfl
  | [], _ :: _ => isFalse (by simp)
  | _ :: _, [] => isFalse (by simp)
  | x :: xs, y :: ys =>
    match Json.decEq x y, Json.decEqItems xs ys with
    | isTrue h, isTrue hs => isTrue (by rw [h, hs])
    | isFalse h, _ => isFalse (by simp [h])
    | _, isFalse hs => isFalse (by simp [hs])

protected def decEqFields (xs ys : List (Text × Json)) : Decidable (xs = ys) :=
  match xs, ys with
  | [], [] => isTrue rfl
  | [], _ :: _ => isFalse (by simp)
  | _ :: _, [] => isFalse (by simp)
  | (k, x) :: xs, (l, y) :: ys =>
    match decEq k l, Json.decEq x y, Json.decEqFields xs ys with
    | isTrue hk, isTrue h, isTrue hs => isTrue (by rw [hk, h, hs])
    | isFalse hk, _, _ => isFalse (by simp [hk])
    | _, isFalse h, _ => isFalse (by simp [h])
    | _, _, isFalse hs => isFalse (by simp [hs])

end

instance : DecidableEq Json := Json.decEq

/-- Fields in code-point order of their keys; fields of one key would keep their order. -/
def sortFields {α : Type} (fields : Assoc α) : Assoc α :=
  fields.mergeSort fun a b => a.1 ≤ b.1

mutual

def sortKeys : Json → Json
  | .arr items => .arr (sortKeysItems items)
  | .obj fields => .obj (sortFields (sortKeysFields fields))
  | v => v

def sortKeysItems : List Json → List Json
  | [] => []
  | v :: rest => v.sortKeys :: sortKeysItems rest

def sortKeysFields : List (Text × Json) → List (Text × Json)
  | [] => []
  | (k, v) :: rest => (k, v.sortKeys) :: sortKeysFields rest

end

mutual

/-- Do all keys inside pass a test, and all values inside that have no parts another? -/
def all (scalar : Json → Bool) (key : Text → Bool) : Json → Bool
  | .arr items => allItems scalar key items
  | .obj fields => allFields scalar key fields
  | v => scalar v

def allItems (scalar : Json → Bool) (key : Text → Bool) : List Json → Bool
  | [] => true
  | v :: rest => v.all scalar key && allItems scalar key rest

def allFields (scalar : Json → Bool) (key : Text → Bool) : List (Text × Json) → Bool
  | [] => true
  | (k, v) :: rest => key k && (v.all scalar key && allFields scalar key rest)

end

/-- Every number inside has digits. -/
def isFinite (v : Json) : Bool :=
  v.all (fun | .double x => x.isFinite | _ => true) fun _ => true

/-- A whole number only has as many digits as can be read and written. -/
def isShort : Json → Bool
  | .int n => (Text.decimalDigits n.natAbs).length ≤ Text.digitLimit
  | _ => true

def hasShortNumbers (v : Json) : Bool := v.all isShort fun _ => true

/-- A test of texts, passed by all that is none. -/
def onText (test : Text → Bool) : Json → Bool
  | .str s => test s
  | _ => true

/-- Do all texts inside pass a test, keys among them? -/
def allTexts (test : Text → Bool) (v : Json) : Bool := v.all (onText test) test

/-- Every text inside can be written in UTF-8. -/
def isEncodable (v : Json) : Bool := v.allTexts Text.isEncodable

/-- The value of a field, for an object that has it. -/
def field? (key : Text) : Json → Option Json
  | .obj fields => fields.lookup key
  | _ => none

end Json

end Ontogram

/-
The file that a store is kept in.

* `StateFile.dump` — documents and scene as indented JSON, as far as they get into the file;
* `StateFile.decode` — the documents and the scene of a file; what is no such file counts as an empty
  one, but documents or a scene that are no pairs of a key and a value are an error.
-/
import Ontogram.Json.Reader
import Ontogram.Store.Entries
import Ontogram.Text.File
namespace Ontogram

/-- Why a state file is not read. -/
inductive StateError where
  /-- A value that holds no items, an item that is no pair of things, or a key that has parts. -/
  | notPairs
  /-- An item with fewer or more than two parts. -/
  | wrongLength
  /-- A whole number that is too long. -/
  | tooManyDigits
deriving DecidableEq

namespace StateFile

/-- The scene of a store that has none yet. -/
def defaultScene : Entries := [(.text "x", .int 0), (.text "y", .int 0), (.text "k", .int 1)]

/-- An item as a key and a value: two characters, two items, or the keys of two fields. -/
def pair : Json → Except StateError (Key × Json)
  | .str s =>
    match s.toList with
    | [k, v] => .ok (.text (Text.singleton k), .str (Text.singleton v))
    | _ => .error .wrongLength
  | .arr [k, v] =>
    match Key.ofJson? k with
    | some key => .ok (key, v)
    | none => .error .notPairs
  | .arr _ => .error .wrongLength
  | .obj [(k, _), (l, _)] => .ok (.text k, .str l)
  | .obj _ => .error .wrongLength
  | _ => .error .notPairs

/-- A value as entries: the fields of an object, or the items of an array as pairs. -/
def entries : Json → Except StateError Entries
  | .obj fields => .ok (.ofFields fields)
  | .arr items => do return Entries.ofPairs (← items.mapM pair)
  | .str s => if s.isEmpty then .ok [] else .error .wrongLength
  | _ => .error .notPairs

/-- What a state file holds. -/
structure Contents where
  documents : Entries
  scene : Entries
deriving DecidableEq

/-- The fields of the object that a file holds, if it holds one. -/
def fields? (bytes : ByteArray) : Except StateError (Option (Assoc Json)) :=
  match (Text.ofFile? bytes).map Json.parse with
  | some (.ok (.obj fields)) => .ok (some fields)
  | some (.error .tooManyDigits) => .error .tooManyDigits
  | _ => .ok none

def decode (bytes : ByteArray) : Except StateError Contents := do
  match ← fields? bytes with
  | none => return ⟨[], defaultScene⟩
  | some fields =>
    let documents ← ((fields.lookup ("documents" : Text)).map entries).getD (.ok [])
    let scene ← ((fields.lookup ("scene" : Text)).map entries).getD (.ok defaultScene)
    return ⟨documents, scene⟩

/-- Documents and scene as one value. -/
def Contents.toJson (c : Contents) : Json :=
  .obj [("documents", c.documents.toJson), ("scene", c.scene.toJson)]

/-- Documents and scene written to a file, and what has got into it. -/
def dump (c : Contents) : Except Json.WriteFault Unit × String := c.toJson.dump (.indented false)

/-- The bytes of the file then. -/
def encode (c : Contents) : ByteArray := (dump c).2.toUTF8

end StateFile

end Ontogram

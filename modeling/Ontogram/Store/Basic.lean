/-
The store of documents.

A store holds the text of every document, a history for each document it was asked about, the scene, and
the file in which it is kept. Its version counts the changes. Documents are asked for by text ids, but a
state file may bring some with other keys. Every operation answers and gives the store as it is
afterwards, also when the answer is an error. A change is made before it is written, and stays when it cannot
be written:

* `Store.open` — the store of a state file;
* `Store.put`, `Store.remove`, `Store.undo`, `Store.redo` — changes of one document;
* `Store.list` — what each document holds and which steps are open to it;
* `Store.setScene` — a change of the scene.
-/
import Ontogram.Compilation
import Ontogram.History
import Ontogram.Store.StateFile
namespace Ontogram

/-- Why a store does not do what it is asked. -/
inductive StoreError where
  | limit (error : History.LimitError)
  | refused (error : CompileError)
  | badScene (violation : Violation)
  /-- A stored value that is no text. -/
  | notText
  /-- A stored text that is not read as JSON. -/
  | notJson (fault : Json.Fault)
  /-- A stored object without elements. -/
  | noElements
  /-- A stored value whose elements cannot be counted. -/
  | notCountable
  /-- Documents whose keys have no order. -/
  | notComparable
  /-- The file was begun and could not be finished. -/
  | notWritten (fault : Json.WriteFault)
deriving DecidableEq

structure Store where
  limit : Int
  documents : Entries
  histories : List (Key × History Json)
  scene : Entries
  version : Nat
  /-- The bytes of the state file, if there is one. -/
  file : Option ByteArray

/-- What a list of documents says about one of them. -/
structure Listing where
  elements : Nat
  canUndo : Bool
  canRedo : Bool
deriving DecidableEq

/-- The compilation of a stored or offered value: a text is read as JSON first. -/
def compileValue : Json → Except CompileError Compilation
  | .str s => compileText s
  | v => compile v

namespace Store

/-- An answer or an error, and the store afterwards. -/
abbrev Answer (α : Type) := Except StoreError α × Store

protected def «open» (limit : Int) (file : Option ByteArray) : Except StateError Store :=
  match file with
  | none => .ok ⟨limit, [], [], StateFile.defaultScene, 0, none⟩
  | some bytes => do
    let contents ← StateFile.decode bytes
    return ⟨limit, contents.documents, [], contents.scene, 0, some bytes⟩

/-- What belongs into the file. -/
def contents (s : Store) : StateFile.Contents := ⟨s.documents, s.scene⟩

/-- The file is written: it now holds the documents and the scene, or what comes before the first thing in
them that cannot be written. -/
def save (s : Store) : Answer Unit :=
  ((StateFile.dump s.contents).1.mapError .notWritten, { s with file := some (StateFile.encode s.contents) })

/-- The end of a change: the file is written, and if that is done, the version counts one change more. -/
def changed {α : Type} (answer : α) (s : Store) : Answer α :=
  match s.save with
  | (.ok (), s) => (.ok answer, { s with version := s.version + 1 })
  | (.error e, s) => (.error e, s)

/-- The store again as its file has it, without histories. -/
def reopen (s : Store) : Except StateError Store := Store.open s.limit s.file

/-- The value of a document; null is none. -/
def value (key : Key) (s : Store) : Option Json := (s.documents.lookup key).filter (· ≠ .null)

def get (id : Text) (s : Store) : Option Json := s.value (.text id)

/-- The keys of all documents in order. -/
def keys (s : Store) : Except StoreError (List Key) :=
  match Key.sortOn? id (Assoc.keys s.documents) with
  | some keys => .ok keys
  | none => .error .notComparable

/-- The history of a document, a new one if there was none. -/
def historyOf (key : Key) (s : Store) : Except StoreError (History Json) :=
  match s.histories.lookup key with
  | some h => .ok h
  | none =>
    match History.start? s.limit (s.value key) with
    | .ok h => .ok h
    | .error e => .error (.limit e)

def withHistory (key : Key) (h : History Json) (s : Store) : Store :=
  { s with histories := Assoc.insert key h s.histories }

def withDocument (key : Key) (v : Json) (s : Store) : Store :=
  { s with documents := Assoc.insert key v s.documents }

/-- The number of elements in a stored text; also a list and a text in their place have a length. -/
def elementCount : Json → Except StoreError Nat
  | .str text =>
    match Json.parse text with
    | .error fault => .error (.notJson fault)
    | .ok (.obj fields) =>
      match fields.lookup ("elements" : Text) with
      | none => .error .noElements
      | some (.obj elements) => .ok elements.length
      | some (.arr items) => .ok items.length
      | some (.str s) => .ok s.length
      | some _ => .error .notCountable
    | .ok _ => .error .notCountable
  | _ => .error .notText

/-- The listings of the given documents in turn, up to the first error. -/
def listFrom : List Key → Store → Answer (List (Key × Listing))
  | [], s => (.ok [], s)
  | key :: rest, s =>
    match s.historyOf key with
    | .error e => (.error e, s)
    | .ok h =>
      let s := s.withHistory key h
      match elementCount ((s.documents.lookup key).getD .null) with
      | .error e => (.error e, s)
      | .ok elements =>
        match listFrom rest s with
        | (.error e, s) => (.error e, s)
        | (.ok listings, s) => (.ok ((key, ⟨elements, h.canUndo, h.canRedo⟩) :: listings), s)

def list (s : Store) : Answer (List (Key × Listing)) :=
  match s.keys with
  | .error e => (.error e, s)
  | .ok keys => listFrom keys s

/-- Store a document's canonical text; answers the text and whether it is new. -/
def put (id : Text) (v : Json) (s : Store) : Answer (Text × Bool) :=
  match compileValue v with
  | .error e => (.error (.refused e), s)
  | .ok c =>
    match s.historyOf (.text id) with
    | .error e => (.error e, s)
    | .ok h =>
      let (isNew, h) := h.push (.str c.canonical)
      let s := s.withHistory (.text id) h
      if isNew then (s.withDocument (.text id) (.str c.canonical)).changed (c.canonical, true)
      else (.ok (c.canonical, false), s)

/-- Drop a document with its history; answers whether there was one. -/
def remove (id : Text) (s : Store) : Answer Bool :=
  if Assoc.has s.documents (.text id) then
    { s with
      documents := Assoc.erase (.text id) s.documents
      histories := Assoc.erase (.text id) s.histories }.changed true
  else (.ok false, s)

/-- Move along a document's history; what the move arrives at becomes the document. -/
def step (move : History Json → Option Json × History Json) (id : Text) (s : Store) :
    Answer (Option Json) :=
  match s.historyOf (.text id) with
  | .error e => (.error e, s)
  | .ok h =>
    let (arrived, h) := move h
    let s := s.withHistory (.text id) h
    match arrived with
    | none => (.ok none, s)
    | some v => (s.withDocument (.text id) v).changed (some v)

def undo (id : Text) (s : Store) : Answer (Option Json) := step History.undo id s

def redo (id : Text) (s : Store) : Answer (Option Json) := step History.redo id s

def setScene (v : Json) (s : Store) : Answer (Assoc Json) :=
  match Schema.scene v with
  | .error e => (.error (.badScene e), s)
  | .ok scene => { s with scene := .ofFields scene }.changed scene

end Store

end Ontogram

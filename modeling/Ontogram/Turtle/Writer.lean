/-
The grouped view: a header of namespaces, then one block for each subject.

* `compareSubjects`, `compareEntries` — the order of the blocks and of the entries in a block;
* `group` — the entries of each subject, each once;
* `header`, `block` — the written namespaces and the written block of a subject;
* `write` — the whole view.
-/
import Ontogram.Text.CaseFold
import Ontogram.Turtle.Literal
namespace Ontogram.Turtle

/-- A predicate with a written object. -/
abbrev Entry := Text × Text

/-- The predicates that come first in a block, in this order. -/
def leadingPredicates : List Text :=
  [Vocabulary.type, Vocabulary.targetClass, Vocabulary.datatype, Vocabulary.minCount,
   Vocabulary.maxCount, Vocabulary.primaryKey, Vocabulary.property]

def writePredicate (predicate : Text) : Text :=
  if predicate = Vocabulary.type then "a" else predicate

/-- By local part without regard to case, then by the name itself. -/
def compareSubjects (a b : Text) : Ordering :=
  let folded (s : Text) := Text.ofList (Text.foldCase (Name.localPart s).toList)
  (compare (folded a) (folded b)).then (compare a b)

/-- The rank of a predicate and the text by which predicates of one rank are ordered. -/
def predicateRank (predicate : Text) : Nat × Text :=
  match leadingPredicates.findIdx? (· == predicate) with
  | some i => (i, "")
  | none => (leadingPredicates.length, predicate)

/-- By rank and text of the predicate, then by written object. -/
def compareEntries (a b : Entry) : Ordering :=
  let (i, p) := predicateRank a.1
  let (j, q) := predicateRank b.1
  (compare i j).then <| (compare p q).then (compare a.2 b.2)

def sortSubjects (subjects : List Text) : List Text :=
  subjects.mergeSort fun a b => (compareSubjects a b).isLE

def sortEntries (entries : List Entry) : List Entry :=
  entries.mergeSort fun a b => (compareEntries a b).isLE

/-- The entries of a subject, each once, in their order. -/
def entriesOf (subject : Text) (statements : List Statement) : List Entry :=
  sortEntries <| List.eraseDups <|
    (statements.filter fun s => s.subject == subject).map fun s => (s.predicate, renderTerm s.object)

/-- Subjects in their order, each with its entries. -/
def group (statements : List Statement) : List (Text × List Entry) :=
  (sortSubjects (statements.map (·.subject)).eraseDups).map fun subject =>
    (subject, entriesOf subject statements)

/-- The text, filled up with blanks to a width counted in characters. -/
def pad (width : Nat) (s : Text) : Text :=
  s ++ Text.ofList (List.replicate (width - s.length) ' ')

/-- Greatest length of the texts. -/
def widest (texts : List Text) : Nat := texts.foldl (fun n s => max n s.length) 0

/-- A line for each namespace, in code-point order of the labels, all in one column. -/
def header (namespaces : PrefixMap) : Text :=
  let width := "@prefix ".length + widest (Assoc.keys namespaces) + 1
  let lines := (namespaces.mergeSort fun a b => a.1 ≤ b.1).map fun (label, ns) =>
    pad width ("@prefix " ++ label ++ ":") ++ " <" ++ ns ++ "> ."
  Text.intercalate "\n" lines

/-- A subject, its entries in one column, and a full stop. -/
def block (subject : Text) (entries : List Entry) : Text :=
  let width := widest (entries.map fun e => writePredicate e.1)
  let lines := entries.map fun (predicate, object) =>
    "    " ++ pad width (writePredicate predicate) ++ " " ++ object ++ " ;"
  Text.intercalate "\n" (subject :: (lines ++ [.ofString "."]))

/-- The block of a subject that has entries. -/
def block? (subject : Text) (entries : List Entry) : Option Text :=
  if entries.isEmpty then none else some (block subject entries)

/-- The labels of all names that the view shows, each once, in code-point order. -/
def referencedLabels (statements : List Statement) : List Text :=
  ((statements.flatMap referencedNames).map Name.label).eraseDups.mergeSort fun a b => a ≤ b

/-- The namespaces that are declared for the labels; the first label without one is the error. -/
def declaredFor (declared : PrefixMap) : List Text → Except NameError PrefixMap
  | [] => .ok []
  | label :: rest =>
    match declared.lookup label with
    | some ns => do return (label, ns) :: (← declaredFor declared rest)
    | none => .error (.undeclared label)

def write (declared : PrefixMap) (statements : List Statement) : Except NameError Text := do
  if statements.isEmpty then return ""
  else
    let namespaces ← declaredFor declared (referencedLabels statements)
    let blocks := (group statements).map fun (subject, entries) => block subject entries
    return Text.intercalate "\n\n" (header namespaces :: blocks) ++ "\n"

end Ontogram.Turtle

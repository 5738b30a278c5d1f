/-
Qualified names.

A name is `label:local`; a label stands for a namespace of the prefix map. Labels and namespaces are free
texts, so a name is taken apart at its first colon and nowhere else:

* `Name.split` — the two parts of a text over the name characters;
* `Name.resolve` — the name that such a text means in a domain;
* `Name.shorten`, `Name.expand` — between absolute identifiers and names;
* `NameError` — a namespace that is not declared.
-/
import Ontogram.Document.Schema
import Ontogram.Text.Ascii
import Ontogram.Text.Line
namespace Ontogram

/-- A name or an identifier that the declared namespaces do not cover. -/
inductive NameError where
  | undeclared (label : Text)
  | uncovered (iri : Text)
deriving DecidableEq

def NameError.message : NameError → Text
  | .undeclared label => "No namespace found for prefix: " ++ label
  | .uncovered iri => "No prefix found for URI: " ++ iri

namespace Name

/-- The characters that a written name consists of, the colon apart. -/
def isNameChar (c : CodePoint) : Bool :=
  Text.isAsciiAlphanumeric c || c == '.' || c == '_' || c == '-'

/-- The part before the first colon, if there is a colon, and the part after it. -/
def cut (cs : List CodePoint) : Option (List CodePoint) × List CodePoint :=
  match cs.span (· != .char ':') with
  | (before, _ :: after) => (some before, after)
  | (all, []) => (none, all)

/-- Label and local part of a text that consists of name characters and at most one colon; one line
feed at the end is not counted. -/
def split (s : Text) : Option (Option Text × Text) :=
  let (label, localPart) := cut (Text.dropFinalBreak s.toList)
  if label.all (·.all isNameChar) && localPart.all isNameChar then
    some (label.map Text.ofList, Text.ofList localPart)
  else none

/-- The part after the first colon; all of a text without one. -/
def localPart (name : Text) : Text := Text.ofList (cut name.toList).2

/-- The part before the first colon; nothing for a text without one. -/
def label (name : Text) : Text := Text.ofList ((cut name.toList).1.getD [])

/-- The name that a text means: without a label it is one of the domain. With a prefix map given, the
label has to be declared there. -/
def resolve (s : Text) (domain : Text) (declared : Option PrefixMap) : Option Text :=
  match split s with
  | none => none
  | some (own, localPart) =>
    let label := own.getD domain
    if localPart.isEmpty || label.isEmpty then none
    else if declared.all (Assoc.has · label) then some (label ++ ":" ++ localPart)
    else none

/-- Longer namespaces first, then by label. -/
def closer (a b : Text × Text) : Bool :=
  if a.2.length = b.2.length then a.1 ≤ b.1 else b.2.length < a.2.length

/-- The name of an absolute identifier by the longest namespace that it starts with; of two labels for
that namespace the lesser. -/
def shorten (declared : PrefixMap) (iri : Text) : Except NameError Text :=
  let covering := declared.filter fun (_, ns) => !ns.isEmpty && ns.toList.isPrefixOf iri.toList
  match covering.mergeSort closer with
  | (label, ns) :: _ => .ok (label ++ ":" ++ Text.ofList (iri.toList.drop ns.length))
  | [] => .error (.uncovered iri)

/-- The absolute identifier of a name. -/
def expand (declared : PrefixMap) (name : Text) : Except NameError Text :=
  let (label, localPart) := match cut name.toList with
    | (some label, rest) => (Text.ofList label, Text.ofList rest)
    | (none, all) => (Text.ofList all, "")
  match declared.lookup label with
  | some ns => .ok (ns ++ localPart)
  | none => .error (.undeclared label)

end Name

end Ontogram

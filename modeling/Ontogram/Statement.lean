/-
Statements.

A statement says that a subject has an object under a predicate. All names in it are qualified:

* `Statement` — the triple, whose object is a name, a literal or a list of names;
* `Statement.compare` — the order in which statements are listed;
* `Statement.names` — every name that a statement mentions.
-/
import Ontogram.Name
namespace Ontogram

/-- A text value with the name of its datatype or the tag of its language. -/
structure Literal where
  value : Text
  datatype : Option Text
  language : Option Text
deriving DecidableEq

inductive Term where
  | name (name : Text)
  | literal (literal : Literal)
  | list (items : List Text)
deriving DecidableEq

structure Statement where
  subject : Text
  predicate : Text
  object : Term
deriving DecidableEq

/-! The names that derived statements are written in. -/

namespace Vocabulary

def type : Text := "rdf:type"
def first : Text := "rdf:first"
def rest : Text := "rdf:rest"
def nil : Text := "rdf:nil"
def integer : Text := "xsd:integer"
def attributeType : Text := "upper:Attribute"
def relationshipType : Text := "upper:Relationship"
def domainModelType : Text := "upper:DomainModel"
def domain : Text := "upper:domain"
def targetClass : Text := "upper:class"
def datatype : Text := "upper:datatype"
def minCount : Text := "upper:minCount"
def maxCount : Text := "upper:maxCount"
def primaryKey : Text := "upper:primaryKey"
def property : Text := "upper:property"
def oneOf : Text := "upper:oneOf"

end Vocabulary

/-- A whole number as a literal. -/
def Literal.ofNat (n : Nat) : Literal := ⟨Text.ofNat n, some Vocabulary.integer, none⟩

/-- An optional text that counts only if it is not empty. -/
def nonempty (s : Option Text) : Option Text := s.filter (! ·.isEmpty)

namespace Term

/-- Names before literals, literals before lists. -/
def rank : Term → Nat
  | .name _ => 0
  | .literal _ => 1
  | .list _ => 2

/-- The texts by which objects of one rank are ordered. -/
def sortTexts : Term → Text × Text × Text
  | .name n => (n, "", "")
  | .literal l => (l.value, l.datatype.getD "", l.language.getD "")
  | .list items => (Text.intercalate " " items, "", "")

def compare (a b : Term) : Ordering :=
  let (a₁, a₂, a₃) := a.sortTexts
  let (b₁, b₂, b₃) := b.sortTexts
  (Ord.compare a.rank b.rank).then <|
    (Ord.compare a₁ b₁).then <| (Ord.compare a₂ b₂).then (Ord.compare a₃ b₃)

/-- The names that the object mentions. -/
def names : Term → List Text
  | .name n => [n]
  | .literal l => (nonempty l.datatype).toList
  | .list items => items

end Term

namespace Statement

/-- By subject, then by predicate, then by object, texts by their code points. -/
def compare (a b : Statement) : Ordering :=
  (Ord.compare a.subject b.subject).then <|
    (Ord.compare a.predicate b.predicate).then (a.object.compare b.object)

/-- The statements in their order; equal ones stay as they stand. -/
def sort (statements : List Statement) : List Statement :=
  statements.mergeSort fun a b => (a.compare b).isLE

def names (s : Statement) : List Text := s.subject :: s.predicate :: s.object.names

/-- Every name of the statement has a declared label. -/
def isDeclared (declared : PrefixMap) (s : Statement) : Bool :=
  s.names.all fun n => Assoc.has declared (Name.label n)

end Statement

end Ontogram

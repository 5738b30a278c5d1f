/-
Statements written beside a diagram.

Each line that is not blank and no comment has to hold one triple whose identifiers the declared
namespaces cover:

* `RawError` — a line that cannot be used, with the reason;
* `parseLine` — the statement of a line;
* `parseRaw` — the statements of a text, in the order of its lines.
-/
import Ontogram.NTriples.Line
import Ontogram.Statement
import Ontogram.Text.Line
namespace Ontogram.NTriples

/-- The three places of a triple. -/
inductive Role where
  | subject
  | predicate
  | object
deriving DecidableEq

def Role.name : Role → Text
  | .subject => "subject"
  | .predicate => "predicate"
  | .object => "object"

/-- Why a raw statement cannot be used. -/
inductive RawFault where
  | syntaxError
  | notOneStatement
  | blankNode (role : Role)
  | unresolved (role : Role) (error : NameError)
deriving DecidableEq

def RawFault.message : RawFault → Text
  | .syntaxError =>
    "Invalid N-Triples syntax - expected format: <subject> <predicate> <object> ."
  | .notOneStatement => "Expected exactly one statement per line"
  | .blankNode role => "Invalid " ++ role.name ++ " - blank nodes are not supported"
  | .unresolved role error => "Error parsing " ++ role.name ++ ": " ++ error.message

/-- A line that cannot be used, or a code in it that is no character. -/
inductive RawError where
  | line (source : Text) (fault : RawFault)
  | escape (error : EscapeError)
deriving DecidableEq

namespace RawError

def message : RawError → Text
  | .line source fault => fault.message ++ "\nSource: " ++ source
  | .escape .beyondUnicode => "code beyond U+10FFFF"
  | .escape .beyondWord => "code beyond 31 bits"

end RawError

/-- The name of an identifier, as a node in the given role. -/
def nameOf (declared : PrefixMap) (role : Role) (iri : Text) : Except RawFault Text :=
  match Name.shorten declared iri with
  | .ok name => .ok name
  | .error e => .error (.unresolved role e)

def termOf (declared : PrefixMap) (role : Role) : Node → Except RawFault Term
  | .iri iri => .name <$> nameOf declared role iri
  | .blank _ => .error (.blankNode role)
  | .literal l =>
    match nonempty l.datatype with
    | none => .ok (.literal ⟨l.value, none, l.language⟩)
    | some iri => do
      return .literal ⟨l.value, some (← nameOf declared role iri), l.language⟩

/-- The name of a node that is an identifier, which the grammar asks of subjects and predicates. -/
def nameOfNode (declared : PrefixMap) (role : Role) : Node → Except RawFault Text
  | .iri iri => nameOf declared role iri
  | .blank _ | .literal _ => .error (.blankNode role)

def statementOf (declared : PrefixMap) (t : Triple) : Except RawFault Statement := do
  let subject ← nameOfNode declared .subject t.subject
  let predicate ← nameOfNode declared .predicate t.predicate
  let object ← termOf declared .object t.object
  return ⟨subject, predicate, object⟩

def parseLine (declared : PrefixMap) (line : Text) : Except RawError Statement :=
  match triples line.toList with
  | .error .syntaxError => .error (.line line .syntaxError)
  | .error (.escape e) => .error (.escape e)
  | .ok [t] =>
    match statementOf declared t with
    | .ok s => .ok s
    | .error fault => .error (.line line fault)
  | .ok _ => .error (.line line .notOneStatement)

/-- A blank line or a comment. -/
def isComment (line : List CodePoint) : Bool :=
  match line.dropWhile Text.isBlank with
  | [] => true
  | c :: _ => c == '#'

def parseRaw (declared : PrefixMap) (text : Text) : Except RawError (List Statement) := do
  let lines := (Text.lines text.toList).filter fun line => !isComment line
  return (← lines.mapM fun line => parseLine declared (Text.ofList line)).eraseDups

end Ontogram.NTriples

/-
The flat view: one triple a line, without repetition, in code-point order.

* `writeStatement` — the lines of one statement; a list becomes a chain of blank nodes;
* `write` — the lines of all statements, whose lists are numbered in the order of the statements.
-/
import Ontogram.NTriples.Escape
import Ontogram.Statement
namespace Ontogram.NTriples

def writeName (declared : PrefixMap) (name : Text) : Except NameError Text := do
  return "<" ++ (← Name.expand declared name) ++ ">"

/-- A literal's language, if it has one, stands in the place of its datatype. -/
def writeLiteral (declared : PrefixMap) (l : Literal) : Except NameError Text :=
  let text := "\"" ++ escape l.value ++ "\""
  match nonempty l.language, nonempty l.datatype with
  | some language, _ => .ok (text ++ "@" ++ language)
  | none, some datatype => do return text ++ "^^" ++ (← writeName declared datatype)
  | none, none => .ok text

def line (subject predicate object : Text) : Text :=
  subject ++ " " ++ predicate ++ " " ++ object ++ " ."

/-- The `i`-th node of the chain with the given number. -/
def chainNode (chain i : Nat) : Text := "_:list" ++ Text.ofNat chain ++ "_" ++ Text.ofNat i

/-- The lines of a chain from its `i`-th node on. -/
def writeChain (declared : PrefixMap) (chain : Nat) : Nat → List Text → Except NameError (List Text)
  | _, [] => .ok []
  | i, item :: rest => do
    let node := chainNode chain i
    let next ← match rest with
      | [] => writeName declared Vocabulary.nil
      | _ => pure (chainNode chain (i + 1))
    let first := line node (← writeName declared Vocabulary.first) (← writeName declared item)
    let step := line node (← writeName declared Vocabulary.rest) next
    return first :: step :: (← writeChain declared chain (i + 1) rest)

/-- The lines of a statement, whose list, if it has one, takes the given number. -/
def writeStatement (declared : PrefixMap) (chain : Nat) (s : Statement) :
    Except NameError (List Text) := do
  let subject ← writeName declared s.subject
  let predicate ← writeName declared s.predicate
  match s.object with
  | .name n => return [line subject predicate (← writeName declared n)]
  | .literal l => return [line subject predicate (← writeLiteral declared l)]
  | .list [] => return [line subject predicate (← writeName declared Vocabulary.nil)]
  | .list items =>
    return line subject predicate (chainNode chain 0) :: (← writeChain declared chain 0 items)

/-- Does the object take a chain number? -/
def takesChain : Term → Bool
  | .list (_ :: _) => true
  | _ => false

/-- The lines of statements, numbering their chains from the given number on. -/
def writeFrom (declared : PrefixMap) : Nat → List Statement → Except NameError (List Text)
  | _, [] => .ok []
  | chain, s :: rest => do
    let here ← writeStatement declared chain s
    let next := if takesChain s.object then chain + 1 else chain
    return here ++ (← writeFrom declared next rest)

/-- Lines without repetition, in code-point order, each with its line feed. -/
def joinLines (lines : List Text) : Text :=
  Text.join ((lines.eraseDups.mergeSort fun a b => a ≤ b).map (· ++ "\n"))

def write (declared : PrefixMap) (statements : List Statement) : Except NameError Text := do
  return joinLines (← writeFrom declared 0 (Statement.sort statements))

end Ontogram.NTriples

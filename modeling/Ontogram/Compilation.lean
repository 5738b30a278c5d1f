/-
A document with everything that follows from it.

* `Compilation.ofDocument` — the statements of a checked document;
* `compile` — the compilation of a JSON value, from the canonical form of the value, so that the order of
  its keys leaves no trace;
* `Compilation.ntriples`, `Compilation.turtle` — the two views of all statements.
-/
import Ontogram.Document.Canonical
import Ontogram.Generation
import Ontogram.NTriples.Reader
import Ontogram.NTriples.Writer
import Ontogram.Turtle.Writer
namespace Ontogram

/-- Why a document is refused. -/
inductive CompileError where
  | document (failure : Document.Failure)
  | raw (error : NTriples.RawError)
deriving DecidableEq

def CompileError.message : CompileError → Text
  | .document failure => failure.message
  | .raw e => e.message

/-- A document with its canonical text, the statements it declares, those written beside it, and what
became of each element. -/
structure Compilation where
  canonical : Text
  document : Document
  generated : List Statement
  raw : List Statement
  classification : Assoc Classification

namespace Compilation

def ofDocument (canonical : Text) (d : Document) : Except CompileError Compilation :=
  let generation := generate ⟨d.elements, d.domain, some d.namespaces⟩
  match NTriples.parseRaw d.namespaces d.rawStatements with
  | .ok raw => .ok ⟨canonical, d, generation.statements, raw, generation.classification⟩
  | .error e => .error (.raw e)

/-- Derived and written statements together, each once. -/
def statements (c : Compilation) : List Statement := (c.generated ++ c.raw).eraseDups

def ntriples (c : Compilation) : Except NameError Text :=
  NTriples.write c.document.namespaces c.statements

def turtle (c : Compilation) : Except NameError Text :=
  Turtle.write c.document.namespaces c.statements

/-- The kinds of all elements by their ids, in code-point order. -/
def classificationJson (c : Compilation) : Json :=
  .obj (Json.sortFields (c.classification.map fun (id, k) => (id, .str k.name)))

end Compilation

/-- The compilation of a JSON value that is a document. -/
def compile (v : Json) : Except CompileError Compilation := do
  let canonical ← (Document.canonicalize v).mapError .document
  let d ← (Document.ofJson v.sortKeys).mapError fun violation => .document (.violation violation)
  Compilation.ofDocument canonical d

/-- The compilation of the document that a text holds. -/
def compileText (s : Text) : Except CompileError Compilation := do
  compile (← (Document.decode s).mapError .document)

end Ontogram

/-
The grammar of one N-Triples line.

A line holds at most one triple of nodes. Identifiers and literals are decoded as soon as they are read,
before the rest of the line is looked at, so a code that is no character is reported even on a line that
is no triple:

* `readIri`, `readNodeLabel`, `readLiteral` — the three kinds of node at the start of a text;
* `readTriple` — the triple of a line, `none` for an empty line or a comment;
* `triples` — the triples of a text of several lines.
-/
import Ontogram.NTriples.Escape
import Ontogram.Text.Blank
namespace Ontogram.NTriples

/-- A literal with the absolute identifier of its datatype. -/
structure LiteralNode where
  value : Text
  datatype : Option Text
  language : Option Text
deriving DecidableEq

inductive Node where
  | iri (iri : Text)
  | blank (label : Text)
  | literal (literal : LiteralNode)
deriving DecidableEq

structure Triple where
  subject : Node
  predicate : Node
  object : Node
deriving DecidableEq

/-- Why a line cannot be read. -/
inductive LineError where
  | syntaxError
  | escape (error : EscapeError)
deriving DecidableEq

/-- A part of the line, or why there is none. -/
abbrev Reading := Except LineError

def decode (cs : List CodePoint) : Reading Text :=
  match unescapeChars cs with
  | .ok cs => .ok (Text.ofList cs)
  | .error e => .error (.escape e)

def isGap (c : CodePoint) : Bool := c == ' ' || c == '\t'

/-- At least one blank or tab. -/
def gap (cs : List CodePoint) : Reading (List CodePoint) :=
  if (cs.head?.any isGap) then .ok (cs.dropWhile isGap) else .error .syntaxError

def endsIri (c : CodePoint) : Bool := Text.isBlank c || c == '"' || c == '<' || c == '>'

/-- The text of an identifier after its opening bracket: anything up to the first colon, but something,
and then what has no blanks, quotes or brackets. -/
def iriText (cs : List CodePoint) : Reading (List CodePoint × List CodePoint) :=
  match cs.span (· != .char ':') with
  | (start@(_ :: _), _ :: rest) =>
    match rest.span fun c => !endsIri c with
    | (tail, .char '>' :: rest) => .ok (start ++ .char ':' :: tail, rest)
    | _ => .error .syntaxError
  | _ => .error .syntaxError

def readIri (cs : List CodePoint) : Reading (Node × List CodePoint) := do
  let (written, rest) ← iriText cs
  return (.iri (← decode written), rest)

def isNodeLabelStart (c : CodePoint) : Bool := Text.isAsciiAlphanumeric c || c == '_' || c == ':'

def isNodeLabelChar (c : CodePoint) : Bool := isNodeLabelStart c || c == '-' || c == '.'

/-- The label of a blank node after its underscore; it does not end in a point. -/
def readNodeLabel (cs : List CodePoint) : Reading (Node × List CodePoint) :=
  match cs with
  | .char ':' :: c :: rest =>
    if isNodeLabelStart c then
      let run := rest.takeWhile isNodeLabelChar
      let label := (run.reverse.dropWhile (· == .char '.')).reverse
      .ok (.blank (Text.ofList (c :: label)), rest.drop label.length)
    else .error .syntaxError
  | _ => .error .syntaxError

/-- The text of a literal up to its closing quote. -/
def literalText : List CodePoint → Option (List CodePoint × List CodePoint)
  | [] => none
  | [c] => if c = '"' then some ([], []) else none
  | c :: d :: rest =>
    if c = '"' then some ([], d :: rest)
    else if c = '\\' then
      (literalText rest).map fun (text, after) => (c :: d :: text, after)
    else (literalText (d :: rest)).map fun (text, after) => (c :: text, after)

/-- Subtags, each a hyphen and at least one letter or digit, as far as they go. -/
def subtags : List CodePoint → List CodePoint × List CodePoint
  | [] => ([], [])
  | c :: rest =>
    if Text.isAsciiAlphanumeric c then
      let (tags, after) := subtags rest
      (c :: tags, after)
    else if c = '-' then
      match rest with
      | d :: _ =>
        if Text.isAsciiAlphanumeric d then
          let (tags, after) := subtags rest
          (c :: tags, after)
        else ([], c :: rest)
      | [] => ([], c :: rest)
    else ([], c :: rest)

/-- The language after an `@`: letters, and subtags behind hyphens. -/
def languageTag? (cs : List CodePoint) : Option (List CodePoint × List CodePoint) :=
  let (primary, rest) := cs.span Text.isAsciiLetter
  if primary.isEmpty then none
  else
    match rest with
    | .char '-' :: _ =>
      let (tags, after) := subtags rest
      some (primary ++ tags, after)
    | _ => some (primary, rest)

def stringSpace : Text := "http://www.w3.org/2001/XMLSchema#"

def replaceBreaks (cs : List CodePoint) : List CodePoint :=
  cs.map fun c => if c = .char '\t' ∨ c = .char '\n' ∨ c = .char '\r' then .char ' ' else c

/-- Of each run of blanks one. -/
def collapseBlanks : List CodePoint → List CodePoint
  | [] => []
  | [c] => [c]
  | c :: d :: rest =>
    if c = ' ' ∧ d = ' ' then collapseBlanks (d :: rest) else c :: collapseBlanks (d :: rest)

/-- Two datatypes of text keep no tabs and line breaks, and one of them no runs of blanks and none at
the ends; the values of all others stay as written. -/
def normalize (datatype : Option Text) (value : Text) : Text :=
  if datatype = some (stringSpace ++ "normalizedString") then
    Text.ofList (replaceBreaks value.toList)
  else if datatype = some (stringSpace ++ "token") then
    Text.ofList (collapseBlanks (Text.trim (replaceBreaks value.toList)))
  else value

/-- A literal after its opening quote. The datatype is decoded before the value. -/
def readLiteral (cs : List CodePoint) : Reading (Node × List CodePoint) :=
  match literalText cs with
  | none => .error .syntaxError
  | some (written, rest) =>
    let plain : Reading (Node × List CodePoint) := do
      return (.literal ⟨← decode written, none, none⟩, rest)
    match rest with
    | .char '@' :: tag =>
      match languageTag? tag with
      | some (language, after) => do
        return (.literal ⟨← decode written, none, some (Text.ofList language)⟩, after)
      | none => plain
    | .char '^' :: .char '^' :: .char '<' :: iri =>
      match iriText iri with
      | .ok (datatype, after) => do
        let datatype ← decode datatype
        return (.literal ⟨normalize (some datatype) (← decode written), some datatype, none⟩, after)
      | .error _ => plain
    | _ => plain

def readSubject : List CodePoint → Reading (Node × List CodePoint)
  | .char '<' :: rest => readIri rest
  | .char '_' :: rest => readNodeLabel rest
  | _ => .error .syntaxError

def readPredicate : List CodePoint → Reading (Node × List CodePoint)
  | .char '<' :: rest => readIri rest
  | _ => .error .syntaxError

def readObject : List CodePoint → Reading (Node × List CodePoint)
  | .char '<' :: rest => readIri rest
  | .char '_' :: rest => readNodeLabel rest
  | .char '"' :: rest => readLiteral rest
  | _ => .error .syntaxError

/-- A full stop among blanks, and perhaps a comment. -/
def endsLine (cs : List CodePoint) : Bool :=
  match cs.dropWhile isGap with
  | .char '.' :: rest =>
    match rest.dropWhile isGap with
    | [] => true
    | c :: _ => c == '#'
  | _ => false

def readTriple (line : List CodePoint) : Reading (Option Triple) :=
  match line.dropWhile isGap with
  | [] => .ok none
  | c :: rest =>
    if c = '#' then .ok none
    else do
      let (subject, rest) ← readSubject (c :: rest)
      let (predicate, rest) ← readPredicate (← gap rest)
      let (object, rest) ← readObject (← gap rest)
      if endsLine rest then return some ⟨subject, predicate, object⟩ else .error .syntaxError

/-- The parts of a text between carriage returns and line feeds. -/
def pieces : List CodePoint → List (List CodePoint)
  | [] => [[]]
  | c :: rest =>
    if c = '\n' ∨ c = '\r' then [] :: pieces rest
    else
      match pieces rest with
      | [] => [[c]]
      | piece :: more => (c :: piece) :: more

/-- The triples of all lines, or the first error. -/
def triples (cs : List CodePoint) : Reading (List Triple) := do
  return (← (pieces cs).mapM readTriple).filterMap id

end Ontogram.NTriples

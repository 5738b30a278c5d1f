/-
Objects in the grouped view.

A literal is written bare when its text already is a number or a truth value of its datatype. Otherwise
it is quoted: on one line, or set as a long text when it has line breaks or when it is typed and wide:

* `isBare` — the literals that are written without quotes;
* `wrap` — the lines of a wide text, broken at blanks;
* `quote`, `renderTerm` — the written form of a value and of an object.
-/
import Ontogram.Statement
import Ontogram.Text.DecimalDigit
namespace Ontogram.Turtle

/-- The width from which a typed literal is broken. -/
def lineWidth : Nat := 80

/-- A sign may stand before a number. -/
def dropSign (cs : List CodePoint) : List CodePoint :=
  match cs with
  | c :: rest => if c = '+' ∨ c = '-' then rest else cs
  | [] => []

def isInteger (cs : List CodePoint) : Bool :=
  let ds := dropSign cs
  !ds.isEmpty && ds.all Text.isDecimalDigit

/-- Digits, a point and at least one digit; the digits before the point may be missing. -/
def isDecimal (cs : List CodePoint) : Bool :=
  match (dropSign cs).dropWhile Text.isDecimalDigit with
  | .char '.' :: ds => !ds.isEmpty && ds.all Text.isDecimalDigit
  | _ => false

/-- Digits with a point before, among or behind them, or without one. -/
def isMantissa (cs : List CodePoint) : Bool :=
  let (whole, rest) := cs.span Text.isDecimalDigit
  match rest with
  | [] => !whole.isEmpty
  | .char '.' :: ds => ds.all Text.isDecimalDigit && !(whole.isEmpty && ds.isEmpty)
  | _ => false

/-- A mantissa and an exponent. -/
def isDouble (cs : List CodePoint) : Bool :=
  match (dropSign cs).span fun c => c != .char 'e' && c != .char 'E' with
  | (mantissa, _ :: exponent) => isMantissa mantissa && isInteger exponent
  | _ => false

def isBoolean (cs : List CodePoint) : Bool := cs == ("true" : Text).toList || cs == ("false" : Text).toList

/-- The datatypes with a bare form, and which texts have it. -/
def bareForms : Assoc (List CodePoint → Bool) :=
  [(Vocabulary.integer, isInteger), ("xsd:decimal", isDecimal), ("xsd:double", isDouble),
   ("xsd:boolean", isBoolean)]

/-- Does the literal's text stand for itself? One line feed at its end is not looked at. -/
def isBare (l : Literal) : Bool :=
  match bareForms.lookup (l.datatype.getD "") with
  | some form => form (Text.dropFinalBreak l.value.toList)
  | none => false

/-- Add words to a line as long as they fit, and begin a new one where the next word does not. An empty
line is given up by the word that follows it. -/
def wrapFrom (current : List CodePoint) : List (List CodePoint) → List (List CodePoint)
  | [] => if current.isEmpty then [] else [current]
  | word :: rest =>
    if current.isEmpty then wrapFrom word rest
    else if lineWidth < current.length + 1 + word.length then current :: wrapFrom word rest
    else wrapFrom (current ++ .char ' ' :: word) rest

/-- The lines of a wide text. -/
def wrap (cs : List CodePoint) : List (List CodePoint) := wrapFrom [] (cs.splitOn (.char ' '))

def longIndent : List CodePoint := List.replicate 8 (.char ' ')

/-- Lines between triple quotes, each indented. -/
def longQuote (lines : List (List CodePoint)) : List CodePoint :=
  ("\"\"\"\n" : Text).toList ++ List.intercalate [.char '\n'] (lines.map (longIndent ++ ·)) ++
    .char '\n' :: (longIndent ++ ("\"\"\"" : Text).toList)

/-- The characters that are written as two on one line. -/
def escapeChar (c : CodePoint) : List CodePoint :=
  if c = '\\' then [.char '\\', .char '\\']
  else if c = '"' then [.char '\\', .char '"']
  else if c = '\r' then [.char '\\', .char 'r']
  else if c = '\t' then [.char '\\', .char 't']
  else [c]

def quote (wrapped : Bool) (cs : List CodePoint) : List CodePoint :=
  if cs.contains (.char '\n') then longQuote (cs.splitOn (.char '\n'))
  else if wrapped && lineWidth < cs.length then longQuote (wrap cs)
  else .char '"' :: (cs.flatMap escapeChar ++ [.char '"'])

/-- A language stands in the place of a datatype. -/
def renderLiteral (l : Literal) : Text :=
  if isBare l then l.value
  else
    let text := Text.ofList (quote (nonempty l.datatype).isSome l.value.toList)
    match nonempty l.language, nonempty l.datatype with
    | some language, _ => text ++ "@" ++ language
    | none, some datatype => text ++ "^^" ++ datatype
    | none, none => text

def renderTerm : Term → Text
  | .name n => n
  | .literal l => renderLiteral l
  | .list [] => "()"
  | .list items => "( " ++ Text.intercalate " " items ++ " )"

/-- The names that the written form of an object shows. -/
def termNames : Term → List Text
  | .name n => [n]
  | .literal l =>
    match nonempty l.datatype with
    | some datatype => if (nonempty l.language).isNone && !isBare l then [datatype] else []
    | none => []
  | .list items => items

/-- The names that the written form of a statement shows. -/
def referencedNames (s : Statement) : List Text := s.subject :: s.predicate :: termNames s.object

end Ontogram.Turtle

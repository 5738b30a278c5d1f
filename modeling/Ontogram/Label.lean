/-
The labels of shapes and arrows.

A label is a name, followed perhaps by a marker in parentheses; what follows the marker is not read. A
marker is a class marker (`DC`) or a cardinality with an optional position in the primary key
(`1..1 PK2`):

* `Label.parse` — the label that a text holds, `none` if it holds no name;
* `Label.read` — the same by itself, where no numeral may be too long;
* `Marker.parse` — the marker inside the parentheses;
* `NoteLabel.parse` — the label of an arrow to a note, a predicate with an optional language.
-/
import Ontogram.Name
import Ontogram.Text.Blank
import Ontogram.Text.DecimalDigit
namespace Ontogram

/-- What a decorated diamond declares. -/
inductive ClassKind where
  | directClass
  | sealedClass
  | enumeration
  | enumValue
deriving DecidableEq

namespace ClassKind

def marker : ClassKind → Text
  | .directClass => "DC"
  | .sealedClass => "SC"
  | .enumeration => "E"
  | .enumValue => "V"

/-- The class of which a diamond of this kind is an instance. -/
def className : ClassKind → Text
  | .directClass => "upper:DirectClass"
  | .sealedClass => "upper:SealedClass"
  | .enumeration => "upper:Enumeration"
  | .enumValue => "upper:EnumValue"

def all : List ClassKind := [.directClass, .sealedClass, .enumeration, .enumValue]

def ofMarker? (cs : List CodePoint) : Option ClassKind := all.find? fun k => k.marker.toList == cs

theorem ofMarker?_marker (k : ClassKind) : ofMarker? k.marker.toList = some k := by
  cases k <;> decide

end ClassKind

/-- How often an attribute occurs, and its place in the primary key. An upper bound is kept only beside
a lower one. -/
structure Cardinality where
  min : Option Nat
  max : Option Nat
  key : Option Nat
deriving DecidableEq

/-- What stands in parentheses after a name. -/
inductive Marker where
  | kind (kind : ClassKind)
  | cardinality (cardinality : Cardinality)
  | malformed
deriving DecidableEq

structure Label where
  name : Text
  marker : Option Marker
deriving DecidableEq

/-- The runs of digits that the numbers of a cardinality are read from. -/
structure Numerals where
  min : Option (List CodePoint)
  max : Option (List CodePoint)
  key : Option (List CodePoint)
deriving DecidableEq

namespace Numerals

/-- A primary-key position at the end of a marker: nothing at all, or blanks, `PK` and a number whose
first digit is an ASCII one other than zero. -/
def parseKey (cs : List CodePoint) : Option (Option (List CodePoint)) :=
  match cs with
  | [] => some none
  | _ =>
    match cs.dropWhile Text.isBlank with
    | .char 'P' :: .char 'K' :: d :: rest =>
      if Text.isBlank (cs.headD (.char 'P')) && '1' ≤ d && d ≤ '9' && rest.all Text.isDecimalDigit then
        some (some (d :: rest))
      else none
    | _ => none

/-- An upper bound: a number, or `n` for none, and the text after it. -/
def parseMax (cs : List CodePoint) : Option (Option (List CodePoint) × List CodePoint) :=
  match cs with
  | .char 'n' :: rest => some (none, rest)
  | _ =>
    let (digits, rest) := cs.span Text.isDecimalDigit
    if digits.isEmpty then none else some (some digits, rest)

/-- `min..max`, where `min` may be absent, and an optional key position. -/
def parse (cs : List CodePoint) : Option Numerals :=
  let (digits, rest) := cs.span Text.isDecimalDigit
  match rest with
  | .char '.' :: .char '.' :: rest =>
    match parseMax rest with
    | none => none
    | some (max, rest) =>
      match parseKey rest with
      | none => none
      | some key => if digits.isEmpty then some ⟨none, none, key⟩ else some ⟨some digits, max, key⟩
  | _ => none

def value (n : Numerals) : Cardinality :=
  ⟨n.min.map Text.digitsValue, n.max.map Text.digitsValue, n.key.map Text.digitsValue⟩

/-- None of them has too many digits to be read as a number. -/
def areShort (n : Numerals) : Bool :=
  [n.min, n.max, n.key].all fun digits => digits.all fun ds => ds.length ≤ Text.digitLimit

end Numerals

def Cardinality.parse (cs : List CodePoint) : Option Cardinality := (Numerals.parse cs).map Numerals.value

namespace Marker

def parse (cs : List CodePoint) : Marker :=
  let cs := Text.trim cs
  match ClassKind.ofMarker? cs with
  | some k => .kind k
  | none =>
    match Cardinality.parse cs with
    | some c => .cardinality c
    | none => .malformed

/-- Can the marker be read? One with a numeral that is too long cannot. -/
def isReadable (cs : List CodePoint) : Bool :=
  let cs := Text.trim cs
  (ClassKind.ofMarker? cs).isSome || (Numerals.parse cs).all Numerals.areShort

end Marker

namespace Label

def isParenthesis (c : CodePoint) : Bool := c == '(' || c == ')'

/-- The text between parentheses at the start of a text, blanks before them apart. -/
def parenthesized? (cs : List CodePoint) : Option (List CodePoint) :=
  match cs.dropWhile Text.isBlank with
  | .char '(' :: rest =>
    match rest.span fun c => !isParenthesis c with
    | (inside, .char ')' :: _) => some inside
    | _ => none
  | _ => none

/-- The name at the start of a text and what stands in the parentheses behind it, if anything does. -/
def cut? (cs : List CodePoint) : Option (Text × Option (List CodePoint)) :=
  let (written, rest) :=
    (cs.dropWhile Text.isBlank).span fun c => !Text.isBlank c && !isParenthesis c
  let name := Text.ofList written
  match Name.split name with
  | some (_, localPart) => if localPart.isEmpty then none else some (name, parenthesized? rest)
  | none => none

/-- What a text says as a label, with numerals of any length. -/
def parse (s : Text) : Option Label :=
  (cut? s.toList).map fun (name, inside) => ⟨name, inside.map Marker.parse⟩

/-- A label with a numeral that is too long. -/
inductive ReadError where
  | tooManyDigits
deriving DecidableEq

/-- The label that a text holds, if its numerals can be read as numbers. -/
def read (s : Text) : Except ReadError (Option Label) :=
  match cut? s.toList with
  | none => .ok none
  | some (name, inside) =>
    if inside.all Marker.isReadable then .ok (some ⟨name, inside.map Marker.parse⟩)
    else .error .tooManyDigits

/-- A name without a marker. -/
def isBare (l : Label) : Bool := l.marker.isNone

def isMalformed (l : Label) : Bool := l.marker == some .malformed

def kind? (l : Label) : Option ClassKind :=
  match l.marker with
  | some (.kind k) => some k
  | _ => none

/-- The cardinality of a label; one without a marker says nothing about it. -/
def cardinality (l : Label) : Cardinality :=
  match l.marker with
  | some (.cardinality c) => c
  | _ => ⟨none, none, none⟩

end Label

/-- The label of an arrow from a diamond to a note. -/
structure NoteLabel where
  predicate : Text
  language : Text
deriving DecidableEq

/-- Two or three lower-case letters, and any number of subtags of letters and digits. -/
def isLanguageTag (cs : List CodePoint) : Bool :=
  let (primary, rest) := cs.span fun c => .char 'a' ≤ c && c ≤ .char 'z'
  let subtags := rest.splitOn (.char '-')
  (primary.length == 2 || primary.length == 3) &&
    (rest.isEmpty || (subtags.head?.all List.isEmpty &&
      subtags.tail.all fun t => !t.isEmpty && t.all Text.isAsciiAlphanumeric))

namespace NoteLabel

def predicates : List Text := ["upper:label", "upper:description"]

def defaultLanguage : Text := "en"

/-- A predicate and, behind blanks, an optional language after an `@`. -/
def parse (s : Text) : Option NoteLabel :=
  let (written, rest) := (s.toList.dropWhile Text.isBlank).span fun c => !Text.isBlank c
  let predicate := Text.ofList written
  let reading : Option NoteLabel :=
    match rest.dropWhile Text.isBlank with
    | [] => some ⟨predicate, defaultLanguage⟩
    | .char '@' :: rest =>
      let tag := Text.trimEnd rest
      if isLanguageTag tag then some ⟨predicate, Text.ofList tag⟩ else none
    | _ => none
  reading.filter fun a => predicates.contains a.predicate

end NoteLabel

end Ontogram

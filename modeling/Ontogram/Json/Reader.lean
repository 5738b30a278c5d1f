/-
Reading JSON text.

The reader takes the longest number it finds, keeps the first place and the last value of a repeated
key, and knows the three numbers without digits. A text it refuses has one `Fault`, the first one met
from the left:

* `readString` — the body of a string after its opening quote;
* `readNumber?` — the number at the start of a text;
* `readValue` — the value at the start of a text, with the rest;
* `Json.parse` — the value that is the whole of a text.
-/
import Ontogram.Json.Value
import Ontogram.Text.Ascii
namespace Ontogram.Json

/-- Why a text is not read. -/
inductive Fault where
  | noValue
  | noPropertyName
  | noColon
  | noComma
  | extraData
  | unterminatedString
  | controlCharacter
  | badEscape
  | badUnicodeEscape
  | byteOrderMark
  /-- A whole number that is too long; the text may be JSON all the same. -/
  | tooManyDigits
deriving DecidableEq

def Fault.message : Fault → Text
  | .noValue => "Expecting value"
  | .noPropertyName => "Expecting property name enclosed in double quotes"
  | .noColon => "Expecting ':' delimiter"
  | .noComma => "Expecting ',' delimiter"
  | .extraData => "Extra data"
  | .unterminatedString => "Unterminated string starting at"
  | .controlCharacter => "Invalid control character at"
  | .badEscape => "Invalid \\escape"
  | .badUnicodeEscape => "Invalid \\uXXXX escape"
  | .byteOrderMark => "Unexpected UTF-8 BOM (decode using utf-8-sig)"
  | .tooManyDigits =>
    "Exceeds the limit (" ++ Text.ofNat Text.digitLimit ++ " digits) for integer string conversion"

/-- Between tokens only these four are skipped. -/
def isSpace (c : CodePoint) : Bool := c == ' ' || c == '\t' || c == '\n' || c == '\r'

def skipSpace (cs : List CodePoint) : List CodePoint := cs.dropWhile isSpace

/-- The character that a letter after a backslash stands for. -/
def unescapeLetter? (c : CodePoint) : Option CodePoint :=
  if c = '"' then some (.char '"')
  else if c = '\\' then some (.char '\\')
  else if c = '/' then some (.char '/')
  else if c = 'n' then some (.char '\n')
  else if c = 'r' then some (.char '\r')
  else if c = 't' then some (.char '\t')
  else if c = 'b' then some (.char '\x08')
  else if c = 'f' then some (.char '\x0c')
  else none

def isHighUnit (n : Nat) : Bool := 0xD800 ≤ n && n < 0xDC00

def isLowUnit (n : Nat) : Bool := 0xDC00 ≤ n && n < 0xE000

/-- The character of a pair. -/
def ofUnits (high low : Nat) : CodePoint := CodePoint.ofNat (0x10000 + (high - 0xD800) * 0x400 + (low - 0xDC00))

/-- The low unit of a pair written directly at the start of a text, and the text after it; some
character has to follow it. -/
def lowUnit? : List CodePoint → Option (Nat × List CodePoint)
  | .char '\\' :: .char 'u' :: a :: b :: c :: d :: e :: rest =>
    match Text.hexValues? [a, b, c, d] with
    | some n => if isLowUnit n then some (n, e :: rest) else none
    | none => none
  | _ => none

/-- What the text after a backslash stands for, and the rest of the text. Four hexadecimal digits are
an escape only with a character after them, and half of a pair that stands alone is kept. -/
def readEscape : List CodePoint → Except Fault (CodePoint × List CodePoint)
  | [] => .error .unterminatedString
  | .char 'u' :: a :: b :: c :: d :: e :: rest =>
    match Text.hexValues? [a, b, c, d] with
    | none => .error .badUnicodeEscape
    | some unit =>
      match (if isHighUnit unit then lowUnit? (e :: rest) else none) with
      | some (low, rest') => .ok (ofUnits unit low, rest')
      | none => .ok (.ofNat unit, e :: rest)
  | c :: rest =>
    if c = 'u' then .error .badUnicodeEscape
    else
      match unescapeLetter? c with
      | some x => .ok (x, rest)
      | none => .error .badEscape

/-- The body of a string up to its closing quote, read onto `seen` (latest first), and the rest. Each
step takes a character, so `fuel` of the text's length is enough. -/
def readStringFrom : Nat → List CodePoint → List CodePoint → Except Fault (List CodePoint × List CodePoint)
  | 0, _, _ => .error .unterminatedString
  | _ + 1, _, [] => .error .unterminatedString
  | fuel + 1, seen, c :: rest =>
    if c = '"' then .ok (seen.reverse, rest)
    else if c = '\\' then
      match readEscape rest with
      | .ok (x, rest') => readStringFrom fuel (x :: seen) rest'
      | .error fault => .error fault
    else if c.toNat < 0x20 then .error .controlCharacter
    else readStringFrom fuel (c :: seen) rest

def readString (fuel : Nat) (cs : List CodePoint) : Except Fault (Text × List CodePoint) :=
  (readStringFrom fuel [] cs).map fun (body, rest) => (Text.ofList body, rest)

/-- The digits at the start of a text, and the rest. -/
def digits (cs : List CodePoint) : List CodePoint × List CodePoint := cs.span Text.isAsciiDigit

/-- A whole part has no leading zero. -/
def wholePart? : List CodePoint → Option (List CodePoint × List CodePoint)
  | [] => none
  | c :: rest =>
    if c = '0' then some ([.char '0'], rest)
    else if Text.isAsciiDigit c then
      let (ds, rest') := digits rest
      some (c :: ds, rest')
    else none

/-- A point counts only with a digit after it. -/
def fractionPart? : List CodePoint → Option (List CodePoint × List CodePoint)
  | .char '.' :: rest =>
    let (ds, rest') := digits rest
    if ds.isEmpty then none else some (ds, rest')
  | _ => none

def asciiValue (ds : List CodePoint) : Nat := ds.foldl (fun n c => 10 * n + (c.toNat - 48)) 0

/-- An exponent mark counts only with a digit after it and its sign. -/
def exponentPart? : List CodePoint → Option (Int × List CodePoint)
  | [] => none
  | c :: rest =>
    if c = 'e' ∨ c = 'E' then
      let (negative, rest) := match rest with
        | .char '-' :: r => (true, r)
        | .char '+' :: r => (false, r)
        | r => (false, r)
      let (ds, rest') := digits rest
      if ds.isEmpty then none
      else
        let n : Int := asciiValue ds
        some (if negative then -n else n, rest')
    else none

/-- The number at the start of a text: floating-point with a fraction or an exponent, else whole. -/
def readNumber? (cs : List CodePoint) : Option (Json × List CodePoint) :=
  let (negative, cs) := match cs with
    | .char '-' :: r => (true, r)
    | r => (false, r)
  match wholePart? cs with
  | none => none
  | some (whole, rest) =>
    let (fraction, rest) := (fractionPart? rest).getD ([], rest)
    let (exponent, rest, scaled) := match exponentPart? rest with
      | some (e, r) => (e, r, true)
      | none => (0, rest, false)
    if fraction.isEmpty && !scaled then
      let n : Int := asciiValue whole
      some (.int (if negative then -n else n), rest)
    else
      let d : Decimal := ⟨asciiValue (whole ++ fraction), exponent - fraction.length⟩
      some (.double (.ofDecimal negative d), rest)

/-- The words that are values. -/
def words : List (List CodePoint × Json) :=
  [(("null" : Text).toList, .null), (("true" : Text).toList, .bool true), (("false" : Text).toList, .bool false),
   (("NaN" : Text).toList, .double .notANumber), (("Infinity" : Text).toList, .double (.infinite false)),
   (("-Infinity" : Text).toList, .double (.infinite true))]

def readWord? (cs : List CodePoint) : Option (Json × List CodePoint) :=
  words.findSome? fun (word, v) => if word.isPrefixOf cs then some (v, cs.drop word.length) else none

mutual

/-- The value at the start of a text, and the rest. Two units of `fuel` for each character of the text
and one more are enough. -/
def readValue : Nat → List CodePoint → Except Fault (Json × List CodePoint)
  | 0, _ => .error .noValue
  | _ + 1, [] => .error .noValue
  | fuel + 1, c :: rest =>
    if c = '"' then (readString fuel rest).map fun (s, r) => (.str s, r)
    else if c = '[' then
      match skipSpace rest with
      | .char ']' :: r => .ok (.arr [], r)
      | r => (readItems fuel r).map fun (items, r) => (.arr items, r)
    else if c = '{' then
      match skipSpace rest with
      | .char '}' :: r => .ok (.obj [], r)
      | r => (readFields fuel r []).map fun (fields, r) => (.obj fields, r)
    else
      match readWord? (c :: rest) with
      | some r => .ok r
      | none =>
        match readNumber? (c :: rest) with
        | some r => if r.1.isShort then .ok r else .error .tooManyDigits
        | none => .error .noValue

/-- The items of an array from one that has to follow, up to the closing bracket. -/
def readItems : Nat → List CodePoint → Except Fault (List Json × List CodePoint)
  | 0, _ => .error .noValue
  | fuel + 1, cs =>
    match readValue fuel cs with
    | .error fault => .error fault
    | .ok (v, rest) =>
      match skipSpace rest with
      | .char ']' :: r => .ok ([v], r)
      | .char ',' :: r => (readItems fuel (skipSpace r)).map fun (items, r) => (v :: items, r)
      | _ => .error .noComma

/-- The fields of an object from one that has to follow, put behind `before`, up to the closing
brace. -/
def readFields : Nat → List CodePoint → Assoc Json → Except Fault (Assoc Json × List CodePoint)
  | 0, _, _ => .error .noPropertyName
  | fuel + 1, cs, before =>
    match cs with
    | .char '"' :: rest =>
      match readString fuel rest with
      | .error fault => .error fault
      | .ok (key, rest) =>
        match skipSpace rest with
        | .char ':' :: r =>
          match readValue fuel (skipSpace r) with
          | .error fault => .error fault
          | .ok (v, rest) =>
            let fields := Assoc.insert key v before
            match skipSpace rest with
            | .char '}' :: r => .ok (fields, r)
            | .char ',' :: r => readFields fuel (skipSpace r) fields
            | _ => .error .noComma
        | _ => .error .noColon
    | _ => .error .noPropertyName

end

/-- The value that a text holds between blanks, and nothing after it. -/
def parseChars (cs : List CodePoint) : Except Fault Json :=
  match cs with
  | .char '\uFEFF' :: _ => .error .byteOrderMark
  | _ =>
    match readValue (2 * cs.length + 1) (skipSpace cs) with
    | .error fault => .error fault
    | .ok (v, rest) => if (skipSpace rest).isEmpty then .ok v else .error .extraData

def parse (s : Text) : Except Fault Json := parseChars s.toList

end Ontogram.Json

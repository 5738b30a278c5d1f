/-
JSON text.

One printer serves every place that shows JSON; a `Style` says how each of them separates, indents and
escapes:

* `Json.write` — the text of a value in a style;
* `Json.canonical`, `Json.canonical?` — the one text of a value that does not depend on the order of its keys;
* `Json.escape` — what stands between the quotes of a string;
* `Json.dump` — a value written to a file piece by piece, up to the first that cannot be written.
-/
import Ontogram.Json.Value
import Ontogram.Text.Ascii
namespace Ontogram.Json

/-- The spellings of the numbers without digits. -/
def specialNames : Double.SpecialNames := ⟨("NaN" : Text).toList, ("Infinity" : Text).toList⟩

/-- The letter after the backslash for the characters that have one. -/
def escapeLetter? (c : CodePoint) : Option CodePoint :=
  if c = '"' then some (.char '"')
  else if c = '\\' then some (.char '\\')
  else if c = '\n' then some (.char 'n')
  else if c = '\r' then some (.char 'r')
  else if c = '\t' then some (.char 't')
  else if c = '\x08' then some (.char 'b')
  else if c = '\x0c' then some (.char 'f')
  else none

/-- A character by its code, as two units above `U+FFFF`. -/
def unicodeEscape (c : CodePoint) : List CodePoint :=
  let n := c.toNat
  if n < 0x10000 then .char '\\' :: .char 'u' :: Text.hex4 n
  else
    let rest := n - 0x10000
    .char '\\' :: .char 'u' :: (Text.hex4 (0xD800 + rest / 0x400) ++
      .char '\\' :: .char 'u' :: Text.hex4 (0xDC00 + rest % 0x400))

/-- Quotes, backslashes and control characters are escaped; with `ascii` also all else that is no
printable ASCII character. -/
def escapeChar (ascii : Bool) (c : CodePoint) : List CodePoint :=
  match escapeLetter? c with
  | some letter => [.char '\\', letter]
  | none =>
    if c.toNat < 0x20 || (ascii && 0x7E < c.toNat) then unicodeEscape c else [c]

def escape (ascii : Bool) (cs : List CodePoint) : List CodePoint := cs.flatMap (escapeChar ascii)

def quoted (ascii : Bool) (s : Text) : List CodePoint :=
  .char '"' :: (escape ascii s.toList ++ [.char '"'])

/-- How values are set: what stands between items and after keys, how many blanks a level is indented
by if lines are broken at all, and whether only ASCII is written. -/
structure Style where
  comma : List CodePoint
  colon : List CodePoint
  indent : Option Nat
  ascii : Bool

/-- No blanks at all, every character as itself. -/
def Style.compact : Style := ⟨[.char ','], [.char ':'], none, false⟩

/-- A blank after each comma and colon, ASCII only. -/
def Style.spaced : Style := ⟨[.char ',', .char ' '], [.char ':', .char ' '], none, true⟩

/-- One item a line, two blanks a level. -/
def Style.indented (ascii : Bool) : Style := ⟨[.char ','], [.char ':', .char ' '], some 2, ascii⟩

def Style.lineBreak (style : Style) (depth : Nat) : List CodePoint :=
  match style.indent with
  | none => []
  | some width => .char '\n' :: List.replicate (width * depth) ' '

def intText (n : Int) : List CodePoint :=
  match n with
  | .ofNat k => Text.decimalDigits k
  | .negSucc k => .char '-' :: Text.decimalDigits (k + 1)

mutual

def write (style : Style) (depth : Nat) : Json → List CodePoint
  | .null => ("null" : Text).toList
  | .bool true => ("true" : Text).toList
  | .bool false => ("false" : Text).toList
  | .int n => intText n
  | .double x => x.text specialNames
  | .str s => quoted style.ascii s
  | .arr [] => ("[]" : Text).toList
  | .arr (v :: rest) =>
    .char '[' :: (style.lineBreak (depth + 1) ++ (write style (depth + 1) v ++
      (writeItems style (depth + 1) rest ++ (style.lineBreak depth ++ [.char ']']))))
  | .obj [] => [.char '{', .char '}']
  | .obj ((k, v) :: rest) =>
    .char '{' :: (style.lineBreak (depth + 1) ++ (quoted style.ascii k ++ (style.colon ++
      (write style (depth + 1) v ++
        (writeFields style (depth + 1) rest ++ (style.lineBreak depth ++ [.char '}']))))))

/-- The items after the first. -/
def writeItems (style : Style) (depth : Nat) : List Json → List CodePoint
  | [] => []
  | v :: rest =>
    style.comma ++ (style.lineBreak depth ++ (write style depth v ++ writeItems style depth rest))

/-- The fields after the first. -/
def writeFields (style : Style) (depth : Nat) : List (Text × Json) → List CodePoint
  | [] => []
  | (k, v) :: rest =>
    style.comma ++ (style.lineBreak depth ++ (quoted style.ascii k ++ (style.colon ++
      (write style depth v ++ writeFields style depth rest))))

end

def text (style : Style) (v : Json) : Text := Text.ofList (write style 0 v)

/-- Compact text with sorted keys. -/
def canonical (v : Json) : Text := v.sortKeys.text .compact

/-- The same, unless a whole number is too long to be written. -/
def canonical? (v : Json) : Option Text := if v.hasShortNumbers then some v.canonical else none

/-! ### Writing to a file -/

/-- Why a text does not get into a file in full. -/
inductive WriteFault where
  /-- A whole number that is too long. -/
  | tooManyDigits
  /-- Half of a surrogate pair, which UTF-8 cannot hold. -/
  | notEncodable
deriving DecidableEq

/-- What is written in one go, unless it cannot be spelled. -/
abbrev Piece := Except WriteFault (List CodePoint)

/-- The one piece of a value without parts. -/
def scalarPiece (style : Style) (v : Json) : Piece :=
  if v.isShort then .ok (write style 0 v) else .error .tooManyDigits

/-- An item of an array with what stands before it, which makes one piece with a value without parts. -/
def ledPieces (lead : List CodePoint) : Json → List Piece → List Piece
  | .arr _, pieces | .obj _, pieces => .ok lead :: pieces
  | _, pieces => pieces.map fun piece => piece.map (lead ++ ·)

mutual

/-- The pieces in which the text of a value gets into a file. -/
def pieces (style : Style) (depth : Nat) : Json → List Piece
  | .arr [] => [.ok ("[]" : Text).toList]
  | .arr (v :: rest) =>
    ledPieces (.char '[' :: style.lineBreak (depth + 1)) v (pieces style (depth + 1) v) ++
      (itemPieces style (depth + 1) rest ++ [.ok (style.lineBreak depth), .ok [.char ']']])
  | .obj [] => [.ok [.char '{', .char '}']]
  | .obj ((k, v) :: rest) =>
    [.ok [.char '{'], .ok (style.lineBreak (depth + 1)), .ok (quoted style.ascii k), .ok style.colon] ++
      (pieces style (depth + 1) v ++
        (fieldPieces style (depth + 1) rest ++ [.ok (style.lineBreak depth), .ok [.char '}']]))
  | v => [scalarPiece style v]

/-- Those of the items after the first. -/
def itemPieces (style : Style) (depth : Nat) : List Json → List Piece
  | [] => []
  | v :: rest =>
    ledPieces (style.comma ++ style.lineBreak depth) v (pieces style depth v) ++ itemPieces style depth rest

/-- Those of the fields after the first. -/
def fieldPieces (style : Style) (depth : Nat) : List (Text × Json) → List Piece
  | [] => []
  | (k, v) :: rest =>
    [.ok (style.comma ++ style.lineBreak depth), .ok (quoted style.ascii k), .ok style.colon] ++
      (pieces style depth v ++ fieldPieces style depth rest)

end

/-- What has got into a file when all pieces are written, or when one of them cannot be. -/
def writePieces : List Piece → Except WriteFault Unit × String
  | [] => (.ok (), "")
  | .error fault :: _ => (.error fault, "")
  | .ok cs :: rest =>
    match (Text.ofList cs).toString? with
    | none => (.error .notEncodable, "")
    | some s =>
      let (outcome, t) := writePieces rest
      (outcome, s ++ t)

/-- What has got into a file that a value is written to. -/
def dump (style : Style) (v : Json) : Except WriteFault Unit × String := writePieces (v.pieces style 0)

end Ontogram.Json

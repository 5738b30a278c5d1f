/-
Bytes as text.

* `decodeLossy` — UTF-8 in which what belongs to no character reads as a replacement character;
* `decodeAny` — text in any of the Unicode encodings, told apart by a byte order mark or by where the
  zero bytes of the first characters stand; here halves of surrogate pairs may stand alone.
-/
import Ontogram.Text.Basic
namespace Ontogram.Text

/-- How many bytes have to follow the first byte of a character above ASCII, and the range of the next
one; the bytes after that are continuation bytes of any value. -/
def following? (b : UInt8) : Option (Nat × UInt8 × UInt8) :=
  if b < 0xC2 then none
  else if b < 0xE0 then some (1, 0x80, 0xBF)
  else if b = 0xE0 then some (2, 0xA0, 0xBF)
  else if b = 0xED then some (2, 0x80, 0x9F)
  else if b < 0xF0 then some (2, 0x80, 0xBF)
  else if b = 0xF0 then some (3, 0x90, 0xBF)
  else if b < 0xF4 then some (3, 0x80, 0xBF)
  else if b = 0xF4 then some (3, 0x80, 0x8F)
  else none

/-- At most `n` bytes, the first of them in the given range and the others continuation bytes. -/
def continuation : Nat → UInt8 → UInt8 → List UInt8 → List UInt8
  | n + 1, low, high, b :: rest =>
    if low ≤ b ∧ b ≤ high then b :: continuation n 0x80 0xBF rest else []
  | _, _, _, _ => []

/-- The number of the code point of a first byte above ASCII and the bytes that follow it. -/
def codeOfBytes (b : UInt8) (following : List UInt8) : Nat :=
  following.foldl (fun n c => n * 64 + c.toNat % 64) (b.toNat % Nat.pow 2 (6 - following.length))

/-- Every beginning of a character that breaks off, as far as it goes, is replaced by one character. -/
def decodeLossyChars : List UInt8 → List Char
  | [] => []
  | b :: rest =>
    if b < 0x80 then Char.ofNat b.toNat :: decodeLossyChars rest
    else
      match following? b with
      | none => '\uFFFD' :: decodeLossyChars rest
      | some (n, low, high) =>
        let found := continuation n low high rest
        (if found.length = n then Char.ofNat (codeOfBytes b found) else '\uFFFD') ::
          decodeLossyChars (rest.drop found.length)
termination_by bytes => bytes.length
decreasing_by
  · simp
  · simp
  · simp only [List.length_drop, List.length_cons]; omega

def decodeLossy (bytes : List UInt8) : String := String.ofList (decodeLossyChars bytes)

/-- Half of a surrogate pair, written in UTF-8 as if it were a character. -/
def isHalf (a b c : UInt8) : Bool := a == 0xED && 0xA0 ≤ b && b ≤ 0xBF && 0x80 ≤ c && c ≤ 0xBF

/-- UTF-8 with such halves between stretches of characters; `seen` are the bytes of the stretch so far, latest
first. -/
def decode8From (seen : List UInt8) : List UInt8 → Option Text
  | a :: b :: c :: rest =>
    if isHalf a b c then do
      let before ← ofUtf8? ⟨seen.reverse.toArray⟩
      let after ← decode8From [] rest
      return before ++ (singleton (.ofNat (codeOfBytes a [b, c])) ++ after)
    else decode8From (a :: seen) (b :: c :: rest)
  | bytes => ofUtf8? ⟨(seen.reverse ++ bytes).toArray⟩

def decode8 (bytes : List UInt8) : Option Text := decode8From [] bytes

/-- The numbers of two bytes each; `none` if a byte is left over. -/
def units16 (bigEndian : Bool) : List UInt8 → Option (List Nat)
  | [] => some []
  | [_] => none
  | a :: b :: rest =>
    (units16 bigEndian rest).map fun units =>
      (if bigEndian then a.toNat * 256 + b.toNat else b.toNat * 256 + a.toNat) :: units

/-- Pairs of units become one character. -/
def ofUnits16 : List Nat → List CodePoint
  | [] => []
  | [u] => [.ofNat u]
  | u :: v :: rest =>
    if 0xD800 ≤ u ∧ u < 0xDC00 ∧ 0xDC00 ≤ v ∧ v < 0xE000 then
      .ofNat (0x10000 + (u - 0xD800) * 0x400 + (v - 0xDC00)) :: ofUnits16 rest
    else .ofNat u :: ofUnits16 (v :: rest)

def decode16 (bigEndian : Bool) (bytes : List UInt8) : Option Text :=
  (units16 bigEndian bytes).map fun units => Text.ofList (ofUnits16 units)

/-- The code points of four bytes each; `none` if bytes are left over or a number is beyond Unicode. -/
def codePoints32 (bigEndian : Bool) : List UInt8 → Option (List CodePoint)
  | [] => some []
  | a :: b :: c :: d :: rest =>
    let n := if bigEndian then ((a.toNat * 256 + b.toNat) * 256 + c.toNat) * 256 + d.toNat
      else ((d.toNat * 256 + c.toNat) * 256 + b.toNat) * 256 + a.toNat
    if 0x10FFFF < n then none else (codePoints32 bigEndian rest).map (.ofNat n :: ·)
  | _ => none

def decode32 (bigEndian : Bool) (bytes : List UInt8) : Option Text :=
  (codePoints32 bigEndian bytes).map Text.ofList

/-- The text of bytes in the encoding that they show; `none` if they are not in it. -/
def decodeAny (bytes : List UInt8) : Option Text :=
  match bytes with
  | 0 :: 0 :: 0xFE :: 0xFF :: rest => decode32 true rest
  | 0xFF :: 0xFE :: 0 :: 0 :: rest => decode32 false rest
  | 0xFE :: 0xFF :: rest => decode16 true rest
  | 0xFF :: 0xFE :: rest => decode16 false rest
  | 0xEF :: 0xBB :: 0xBF :: rest => decode8 rest
  | a :: b :: c :: d :: _ =>
    if a = 0 then (if b = 0 then decode32 true bytes else decode16 true bytes)
    else if b = 0 then (if c = 0 ∧ d = 0 then decode32 false bytes else decode16 false bytes)
    else decode8 bytes
  | [a, b] =>
    if a = 0 then decode16 true bytes else if b = 0 then decode16 false bytes else decode8 bytes
  | _ => decode8 bytes

end Ontogram.Text

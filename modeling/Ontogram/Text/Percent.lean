/-
Percent-encoded text.

* `percentDecode` — the text that an encoded one stands for: a percent sign with two hexadecimal digits is
  the byte they denote, and a percent sign without them is itself.
-/
import Ontogram.Text.Ascii
import Ontogram.Text.Encoding
namespace Ontogram.Text

/-- The byte of two hexadecimal digits. -/
def hexByte? (a b : UInt8) : Option UInt8 :=
  (hexValues? [.ofNat a.toNat, .ofNat b.toNat]).map UInt8.ofNat

def percentDecodeBytes : List UInt8 → List UInt8
  | p :: a :: b :: rest =>
    if p = 0x25 then
      match hexByte? a b with
      | some byte => byte :: percentDecodeBytes rest
      | none => p :: percentDecodeBytes (a :: b :: rest)
    else p :: percentDecodeBytes (a :: b :: rest)
  | bytes => bytes

def percentDecode (s : String) : String := decodeLossy (percentDecodeBytes s.toUTF8.data.toList)

end Ontogram.Text

/-
The text of a file.

* `ofFile?` — a file's bytes as text: UTF-8, with line feeds for line ends of any kind.
-/
import Ontogram.Text.Line
namespace Ontogram.Text

def ofFile? (bytes : ByteArray) : Option Text :=
  (ofUtf8? bytes).map fun s => ofList (joined s.toList)

end Ontogram.Text

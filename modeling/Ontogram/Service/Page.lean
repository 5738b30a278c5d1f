/-
The page that lists the documents.

The page shows the scene and one row for each document; whatever comes from outside is escaped:

* `escapeText` — the five characters that mean something to HTML, as entities;
* `display` — how a value of the scene is shown;
* `page` — the whole page.
-/
import Ontogram.Store.Basic
import Ontogram.Text.Printable
namespace Ontogram.Service.Page

def escapeChar (c : CodePoint) : List CodePoint :=
  if c = '&' then ("&amp;" : Text).toList
  else if c = '<' then ("&lt;" : Text).toList
  else if c = '>' then ("&gt;" : Text).toList
  else if c = '\'' then ("&#39;" : Text).toList
  else if c = '"' then ("&#34;" : Text).toList
  else [c]

def escapeText (s : Text) : Text := Text.ofList (s.toList.flatMap escapeChar)

/-- The spellings of the numbers without digits. -/
def specialNames : Double.SpecialNames := ⟨("nan" : Text).toList, ("inf" : Text).toList⟩

/-- The code of a character in as few of two, four or eight hexadecimal digits as hold it. -/
def codeEscape (n : Nat) : List CodePoint :=
  if n < 0x100 then [.char '\\', .char 'x', Text.hexDigit (n / 16), Text.hexDigit (n % 16)]
  else if n < 0x10000 then .char '\\' :: .char 'u' :: Text.hex4 n
  else .char '\\' :: .char 'U' :: (Text.hex4 (n / 0x10000) ++ Text.hex4 (n % 0x10000))

/-- A text inside another value stands in quotes, double ones if that saves escaping; backslashes, the
quote and what is not printable are escaped. -/
def quoted (s : Text) : List CodePoint :=
  let cs := s.toList
  let quote := if cs.contains (.char '\'') && !cs.contains (.char '"') then '"' else '\''
  let escaped (c : CodePoint) : List CodePoint :=
    if c = quote ∨ c = '\\' then [.char '\\', c]
    else if c = '\n' then [.char '\\', .char 'n']
    else if c = '\r' then [.char '\\', .char 'r']
    else if c = '\t' then [.char '\\', .char 't']
    else if Text.isPrintable c then [c]
    else codeEscape c.toNat
  .char quote :: (cs.flatMap escaped ++ [.char quote])

mutual

/-- A value inside another one. -/
def displayInner : Json → List CodePoint
  | .null => ("None" : Text).toList
  | .bool true => ("True" : Text).toList
  | .bool false => ("False" : Text).toList
  | .int n => Json.intText n
  | .double x => x.text specialNames
  | .str s => quoted s
  | .arr items => .char '[' :: (displayItems items ++ [.char ']'])
  | .obj fields => .char '{' :: (displayFields fields ++ [.char '}'])

def displayItems : List Json → List CodePoint
  | [] => []
  | [v] => displayInner v
  | v :: rest => displayInner v ++ (", " : Text).toList ++ displayItems rest

def displayFields : List (Text × Json) → List CodePoint
  | [] => []
  | [(k, v)] => quoted k ++ (": " : Text).toList ++ displayInner v
  | (k, v) :: rest => quoted k ++ (": " : Text).toList ++ displayInner v ++ (", " : Text).toList ++ displayFields rest

end

/-- How a value is shown; one that is missing is not shown at all, and a text by itself has no quotes. -/
def display : Option Json → Text
  | none => ""
  | some (.str s) => s
  | some v => Text.ofList (displayInner v)

/-- The lines above the scene. -/
def opening : List Text :=
  ["<!DOCTYPE html>",
   "<html lang=\"en\">",
   "<head>",
   "  <meta charset=\"utf-8\">",
   "  <title>ontosketch</title>",
   "  <style>",
   "    body \x7b font-family: system-ui, sans-serif; margin: 2rem; color: #222; \x7d",
   "    table \x7b border-collapse: collapse; \x7d",
   "    th, td \x7b padding: .3rem .8rem; border-bottom: 1px solid #ddd; text-align: left; \x7d",
   "    pre \x7b background: #f6f6f6; padding: 1rem; overflow: auto; \x7d",
   "    .muted \x7b color: #888; \x7d",
   "  </style>",
   "</head>",
   "<body>",
   "  <h1>ontosketch</h1>"]

/-- The lines between the scene and the rows of the table. -/
def tableOpening : List Text :=
  ["",
   "  <table>",
   "    <thead>",
   "      <tr><th>Document</th><th>Elements</th><th>Views</th></tr>",
   "    </thead>",
   "    <tbody id=\"documents\">"]

/-- The lines below the rows of the table. -/
def closing : List Text :=
  ["    </tbody>",
   "  </table>",
   "",
   "  <pre id=\"view\" class=\"muted\">Select a view.</pre>",
   "",
   "  <script>",
   "    const view = document.getElementById(\"view\");",
   "",
   "    document.addEventListener(\"click\", async (ev) => \x7b",
   "      const link = ev.target.closest(\"a[data-view]\");",
   "      if (!link) return;",
   "      ev.preventDefault();",
   "      const res = await fetch(`/api/documents/$\x7bencodeURIComponent(link.dataset.id)\x7d/$\x7blink.dataset.view\x7d`);",
   "      view.textContent = res.ok ? await res.text() : (await res.json()).detail;",
   "      view.className = res.ok ? \"\" : \"muted\";",
   "    \x7d);",
   "",
   "    const events = new EventSource(\"/api/events\");",
   "    events.onmessage = (ev) => \x7b",
   "      const \x7b documents \x7d = JSON.parse(ev.data);",
   "      const rows = Object.values(documents).map((d) =>",
   "        `<tr><td>$\x7bd.id\x7d</td><td>$\x7bd.elements\x7d</td><td>` +",
   "        `<a href=\"#\" data-view=\"turtle\" data-id=\"$\x7bd.id\x7d\">turtle</a> ` +",
   "        `<a href=\"#\" data-view=\"ntriples\" data-id=\"$\x7bd.id\x7d\">ntriples</a></td></tr>`);",
   "      if (rows.length) document.getElementById(\"documents\").innerHTML = rows.join(\"\");",
   "    \x7d;",
   "  </script>",
   "</body>",
   "</html>"]

/-- No whole number on the page is too long. Only these parts of the scene are shown. -/
def isShowable (scene : Entries) : Bool :=
  (["x", "y", "k"] : List Text).all fun key => (scene.lookup (.text key)).all Json.hasShortNumbers

def sceneLine (scene : Entries) : Text :=
  let shown (key : Text) := escapeText (display (scene.lookup (.text key)))
  "  <p class=\"muted\">Scene: x=" ++ shown "x" ++ " y=" ++ shown "y" ++ " k=" ++ shown "k" ++ "</p>"

/-- The row of one document. -/
def row (key : Key) (l : Listing) : List Text :=
  let id := escapeText (display (some key.toJson))
  ["      ", "      <tr>", "        <td>" ++ id ++ "</td>",
   "        <td>" ++ Text.ofNat l.elements ++ "</td>", "        <td>",
   "          <a href=\"#\" data-view=\"turtle\" data-id=\"" ++ id ++ "\">turtle</a>",
   "          <a href=\"#\" data-view=\"ntriples\" data-id=\"" ++ id ++ "\">ntriples</a>",
   "        </td>", "      </tr>"]

/-- The row that stands alone in the table of a store without documents. -/
def emptyRow : List Text :=
  ["      ",
   "      <tr><td colspan=\"3\" class=\"muted\">No documents yet. PUT one to /api/documents/&lt;id&gt;.</td></tr>"]

def page (documents : List (Key × Listing)) (scene : Entries) : Text :=
  let rows := if documents.isEmpty then emptyRow else documents.flatMap fun (key, l) => row key l
  Text.intercalate "\n" (opening ++ [sceneLine scene] ++ tableOpening ++ rows ++
    [("      " : Text)] ++ closing)

end Ontogram.Service.Page

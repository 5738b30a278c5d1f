/-
Literals as notes spell them.

A note may hold a quoted text, with one or three quotes of either kind, followed by `@` and a language or
by `^^` and a datatype:

* `LiteralText.parse` — the literal that a note's text spells, blanks around it apart;
* `body?`, `longBody?` — what stands in front of the closing quotes, and what follows them;
* `unescape` — what a text between single quotes of either kind means.
-/
import Ontogram.Label
namespace Ontogram

/-- A spelled literal; the datatype is still as it was written. -/
structure LiteralText where
  value : Text
  language : Option Text
  datatype : Option Text
deriving DecidableEq

namespace LiteralText

/-- What may follow the closing quotes: nothing, a language or a datatype. -/
def parseSuffix (cs : List CodePoint) : Option (Option Text × Option Text) :=
  match cs with
  | [] => some (none, none)
  | .char '@' :: tag => if isLanguageTag tag then some (some (Text.ofList tag), none) else none
  | .char '^' :: .char '^' :: datatype =>
    if !datatype.isEmpty && datatype.all (fun c => !Text.isBlank c) then
      some (none, some (Text.ofList datatype))
    else none
  | _ => none

/-- A backslash takes the next character for itself, `n`, `r` and `t` for the control characters. -/
def unescape : List CodePoint → List CodePoint
  | [] => []
  | [c] => [c]
  | c :: d :: rest =>
    if c = '\\' then
      (if d = 'n' then '\n' else if d = 'r' then '\r' else if d = 't' then '\t' else d) :: unescape rest
    else c :: unescape (d :: rest)

/-- The text up to the first quote that no backslash stands before, and the rest. A backslash cannot
stand before a line feed. -/
def body? (quote : CodePoint) : List CodePoint → Option (List CodePoint × List CodePoint)
  | [] => none
  | [c] => if c = quote then some ([], []) else none
  | c :: d :: rest =>
    if c = quote then some ([], d :: rest)
    else if c = '\\' then
      if d = '\n' then none
      else (body? quote rest).map fun (body, after) => (c :: d :: body, after)
    else (body? quote (d :: rest)).map fun (body, after) => (c :: body, after)

/-- The text up to the first three quotes that are followed by a suffix, and that suffix. -/
def longBody? (quote : CodePoint) : List CodePoint → Option (List CodePoint × (Option Text × Option Text))
  | [] => none
  | c :: rest =>
    let here := match c :: rest with
      | a :: b :: d :: after => if a = quote ∧ b = quote ∧ d = quote then parseSuffix after else none
      | _ => none
    match here with
    | some suffix => some ([], suffix)
    | none => (longBody? quote rest).map fun (body, suffix) => (c :: body, suffix)

def parseQuoted (quote : CodePoint) (cs : List CodePoint) : Option LiteralText :=
  match cs with
  | a :: b :: rest =>
    if a = quote ∧ b = quote then
      (longBody? quote rest).map fun (body, language, datatype) =>
        ⟨Text.ofList body, language, datatype⟩
    else short cs
  | _ => short cs
where
  short (cs : List CodePoint) : Option LiteralText :=
    match body? quote cs with
    | none => none
    | some (body, after) =>
      (parseSuffix after).map fun (language, datatype) =>
        ⟨Text.ofList (unescape body), language, datatype⟩

def parseChars (cs : List CodePoint) : Option LiteralText :=
  match cs with
  | c :: rest => if c = '"' ∨ c = '\'' then parseQuoted c rest else none
  | [] => none

def parse (s : Text) : Option LiteralText := parseChars (Text.trim s.toList)

end LiteralText

end Ontogram

/-
Escaped text in N-Triples.

* `escape` — what stands between the quotes of a literal;
* `unescape` — what an escaped text means; a backslash that starts no escape stands for itself;
* `EscapeError` — a code that is no character.
-/
import Ontogram.Text.Ascii
namespace Ontogram.NTriples

/-- A backslash, a line feed, a carriage return, a tab and a quote are written as two characters. -/
def escapeChar (c : CodePoint) : List CodePoint :=
  if c = '\\' then [.char '\\', .char '\\']
  else if c = '\n' then [.char '\\', .char 'n']
  else if c = '\r' then [.char '\\', .char 'r']
  else if c = '\t' then [.char '\\', .char 't']
  else if c = '"' then [.char '\\', .char '"']
  else [c]

def escapeChars (cs : List CodePoint) : List CodePoint := cs.flatMap escapeChar

def escape (s : Text) : Text := Text.ofList (escapeChars s.toList)

/-- A code that no character has: beyond the last plane, or beyond 31 bits. -/
inductive EscapeError where
  | beyondUnicode
  | beyondWord
deriving DecidableEq

/-- The character that a letter after a backslash stands for. -/
def letter? (c : CodePoint) : Option CodePoint :=
  if c = 't' then some (.char '\t')
  else if c = 'b' then some (.char '\x08')
  else if c = 'n' then some (.char '\n')
  else if c = 'r' then some (.char '\r')
  else if c = 'f' then some (.char '\x0c')
  else if c = '"' then some (.char '"')
  else if c = '\'' then some (.char '\'')
  else if c = '\\' then some (.char '\\')
  else none

/-- The number that the first `width` characters of a text denote, and the rest. -/
def codeOf? (width : Nat) (cs : List CodePoint) : Option (Nat × List CodePoint) :=
  if cs.length < width then none
  else (Text.hexValues? (cs.take width)).map fun n => (n, cs.drop width)

/-- The code at the start of a text after its mark: four digits behind `u`, eight behind `U`. -/
def code? (mark : CodePoint) (cs : List CodePoint) : Option (Nat × List CodePoint) :=
  if mark = 'u' then codeOf? 4 cs else if mark = 'U' then codeOf? 8 cs else none

def ofCode (n : Nat) : Except EscapeError CodePoint :=
  if n ≤ 0x10FFFF then .ok (CodePoint.ofNat n)
  else if n ≤ 0x7FFFFFFF then .error .beyondUnicode
  else .error .beyondWord

theorem length_of_codeOf? {width : Nat} {cs rest : List CodePoint} {n : Nat}
    (h : codeOf? width cs = some (n, rest)) : rest.length ≤ cs.length := by
  unfold codeOf? at h
  split at h
  · cases h
  · obtain ⟨m, _, hm⟩ := Option.map_eq_some_iff.mp h
    cases hm
    simp

theorem length_of_code? {mark : CodePoint} {cs rest : List CodePoint} {n : Nat}
    (h : code? mark cs = some (n, rest)) : rest.length ≤ cs.length := by
  unfold code? at h
  split at h
  · exact length_of_codeOf? h
  · split at h
    · exact length_of_codeOf? h
    · cases h

def unescapeChars : List CodePoint → Except EscapeError (List CodePoint)
  | [] => .ok []
  | [c] => .ok [c]
  | c :: d :: rest =>
    if c = '\\' then
      match letter? d with
      | some x => (unescapeChars rest).map (x :: ·)
      | none =>
        match _h : code? d rest with
        | some (n, rest') =>
          match ofCode n with
          | .ok x => (unescapeChars rest').map (x :: ·)
          | .error e => .error e
        | none => (unescapeChars (d :: rest)).map (c :: ·)
    else (unescapeChars (d :: rest)).map (c :: ·)
termination_by cs => cs.length
decreasing_by
  · simp only [List.length_cons]; omega
  · have := length_of_code? _h
    simp only [List.length_cons]; omega
  · simp
  · simp

end Ontogram.NTriples

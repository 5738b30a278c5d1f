/-
The words of a command line.

A line is a command, the file it works on, and options in any place after the command. A long option may
be shortened as long as only one is meant and may carry its value behind `=`; a short one may carry it
directly behind its letter too, or other letters, if it has no value:

* `Token` — what a single word is, seen with the options in force;
* `Arguments.read` — the job that a line describes, or why it describes none.
-/
import Ontogram.Text.DecimalDigit
import Ontogram.Text.Line
namespace Ontogram

/-- What can be asked of a document's file. -/
inductive Command where
  | validate
  | canonical
  | ntriples
  | turtle
  | classify
deriving DecidableEq

namespace Command

def name : Command → String
  | .validate => "validate"
  | .canonical => "canonical"
  | .ntriples => "ntriples"
  | .turtle => "turtle"
  | .classify => "classify"

def all : List Command := [.validate, .canonical, .ntriples, .turtle, .classify]

def ofName? (s : String) : Option Command := all.find? fun c => c.name == s

/-- A check writes nothing, so it has no output option. -/
def hasOutput : Command → Bool
  | .validate => false
  | _ => true

end Command

namespace Arguments

inductive Flag where
  | help
  | output
deriving DecidableEq

/-- The spellings of the options in force. -/
def spellings (withOutput : Bool) : List (List Char × Flag) :=
  [("-h".toList, .help), ("--help".toList, .help)] ++
    if withOutput then [("--output".toList, .output), ("-o".toList, .output)] else []

/-- What is written in one word with an option. -/
inductive Attached where
  | nothing
  /-- A text behind a long option and `=`. -/
  | value (text : List Char)
  /-- A text behind the letter of a short option, with or without `=`. -/
  | letters (text : List Char)
deriving DecidableEq

/-- What a word is; `separator` makes everything after it positional. -/
inductive Token where
  | positional (word : String)
  | flag (flag : Flag) (attached : Attached)
  | unknown
  | ambiguous
  | separator
deriving DecidableEq

def isLong (spelling : List Char) : Bool := (spelling.drop 1).head? = some '-'

/-- The part before the first `=` and what is attached to it. -/
def cutValue (cs : List Char) : List Char × Attached :=
  match cs.span (· != '=') with
  | (before, _ :: after) => (before, if isLong before then .value after else .letters after)
  | (all, []) => (all, .nothing)

/-- The options that a word not spelled out in full may mean. -/
def candidates (options : List (List Char × Flag)) (cs : List Char) : List Token :=
  if isLong cs then
    let (start, attached) := cutValue cs
    options.filterMap fun (spelling, flag) =>
      if start.isPrefixOf spelling then some (.flag flag attached) else none
  else
    options.filterMap fun (spelling, flag) =>
      if spelling == cs.take 2 then some (.flag flag (.letters (cs.drop 2))) else none

/-- A minus sign and a number in digits; one line feed at its end is not looked at. -/
def isNegativeNumber (cs : List Char) : Bool :=
  match Text.dropFinalBreak (cs.map .char) with
  | .char '-' :: rest =>
    let (whole, tail) := rest.span Text.isDecimalDigit
    match tail with
    | [] => !whole.isEmpty
    | .char '.' :: fraction => !fraction.isEmpty && fraction.all Text.isDecimalDigit
    | _ => false
  | _ => false

def token (options : List (List Char × Flag)) (word : String) : Token :=
  let cs := word.toList
  if cs.length < 2 || cs.head? != some '-' then .positional word
  else if cs == ['-', '-'] then .separator
  else
    match options.lookup cs with
    | some flag => .flag flag .nothing
    | none =>
      let (start, attached) := cutValue cs
      match (if attached = .nothing then none else options.lookup start) with
      | some flag => .flag flag attached
      | none =>
        match candidates options cs with
        | [t] => t
        | _ :: _ :: _ => .ambiguous
        | [] =>
          if isNegativeNumber cs || cs.contains ' ' then .positional word else .unknown

/-- The words as tokens, all positional behind a separator. -/
def tokens (options : List (List Char × Flag)) : List String → List Token
  | [] => []
  | word :: rest =>
    match token options word with
    | .separator => .separator :: rest.map .positional
    | t => t :: tokens options rest

/-- A command with its file and where its output goes. -/
structure Job where
  command : Command
  file : String
  output : Option String
deriving DecidableEq

/-- What a command line asks for. -/
inductive Request where
  | job (job : Job)
  | help
  | misuse
  /-- An empty line. -/
  | nothing
deriving DecidableEq

/-- What the words read so far gave: the file, the output, whether a word was left over, and whether the
last word was the file. -/
structure Progress where
  file : Option String := none
  output : Option String := none
  leftOver : Bool := false
  justFile : Bool := false

/-- Does a call for help stand with the text behind its letter? The text is letters of further options,
the last of which may need the next word. -/
def helpStands (options : List (List Char × Flag)) (next : List Token) : List Char → Bool
  | [] => false
  | c :: rest =>
    match options.lookup ['-', c] with
    | none => false
    | some .help => rest.isEmpty || helpStands options next rest
    | some .output =>
      match rest, next with
      | [], .positional _ :: _ => true
      | [], _ => false
      | _ :: _, _ => true

/-- The value that an attached text is; two dashes stand for none. -/
def attachedValue? (text : List Char) : Option String :=
  if text = ['-', '-'] then none else some (String.ofList text)

/-- Work through the tokens behind a command. -/
def finish (command : Command) (options : List (List Char × Flag)) :
    Progress → List Token → Request
  | p, [] =>
    match p.file with
    | some file => if p.leftOver then .misuse else .job ⟨command, file, p.output⟩
    | none => .misuse
  | p, .positional word :: rest =>
    if p.file.isNone then
      finish command options { p with file := some word, justFile := true } rest
    else finish command options { p with leftOver := true, justFile := false } rest
  | p, .separator :: rest =>
    let absorbed := if p.file.isNone then !rest.isEmpty else p.justFile
    finish command options { p with leftOver := p.leftOver || !absorbed, justFile := false } rest
  | p, .unknown :: rest => finish command options { p with leftOver := true, justFile := false } rest
  | _, .ambiguous :: _ => .misuse
  | _, .flag .help .nothing :: _ => .help
  | _, .flag .help (.value _) :: _ => .misuse
  | _, .flag .help (.letters letters) :: rest =>
    if helpStands options rest letters then .help else .misuse
  | p, .flag .output (.value text) :: rest | p, .flag .output (.letters text) :: rest =>
    finish command options { p with output := attachedValue? text, justFile := false } rest
  | p, .flag .output .nothing :: .positional value :: rest =>
    finish command options { p with output := some value, justFile := false } rest
  | _, .flag .output .nothing :: _ => .misuse

/-- Read the words before the command; `leftOver` says that one of them meant nothing. -/
def readFrom (leftOver : Bool) : List String → Request
  | [] => if leftOver then .misuse else .nothing
  | word :: rest =>
    match token (spellings false) word with
    | .positional name =>
      match Command.ofName? name with
      | none => .misuse
      | some command =>
        let options := spellings command.hasOutput
        let words := tokens options rest
        if words.contains .ambiguous then .misuse
        else finish command options { leftOver } words
    | .flag .help .nothing => .help
    | .flag .help (.letters letters) =>
      if helpStands (spellings false) [] letters then .help else .misuse
    | .unknown => readFrom true rest
    | _ => .misuse

def read (words : List String) : Request := readFrom false words

end Arguments

end Ontogram

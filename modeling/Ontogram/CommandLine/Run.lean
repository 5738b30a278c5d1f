/-
Carrying out a job on a document's file.

* `Outcome` — what a job prints, what it writes, and its exit code;
* `runJob` — the outcome, given the bytes of the file, if there is one;
* `runIn` — the outcome among the files of a directory, and the files afterwards.
-/
import Ontogram.CommandLine.Arguments
import Ontogram.CommandLine.FileTree
import Ontogram.Compilation
import Ontogram.Text.File
namespace Ontogram

/-- The outcome of a job. -/
structure Outcome where
  code : Nat
  stdout : Text
  stderr : Text
  /-- The file that was written, and its text. -/
  written : Option (String × Text)
deriving DecidableEq

/-- What a job does not answer for. -/
inductive JobFailure where
  | notUtf8
  | escape (error : NTriples.EscapeError)
  /-- A whole number in the document is too long. -/
  | tooManyDigits
  /-- What is to be written cannot be in UTF-8. -/
  | notEncodable
  | path (error : PathError)
deriving DecidableEq

namespace CommandLine

/-- How many elements there are of each kind, by the names of the kinds. -/
def summary (c : Assoc Classification) : Text :=
  let counts := Classification.all.filterMap fun k =>
    let n := (c.filter fun e => e.2 == k).length
    if n = 0 then none else some (k.name, n)
  match counts.mergeSort fun a b => a.1 ≤ b.1 with
  | [] => "no elements"
  | counts => Text.intercalate ", " (counts.map fun (name, n) => .ofNat n ++ " " ++ name)

/-- What a command writes about a compiled document. -/
def render (command : Command) (c : Compilation) : Except NameError Text :=
  match command with
  | .validate => .ok ""
  | .canonical => .ok (c.canonical ++ "\n")
  | .ntriples => c.ntriples
  | .turtle => c.turtle
  | .classify => .ok (c.classificationJson.text (.indented true) ++ "\n")

/-- The name that opens every line of messages. -/
def banner (file : String) : Text := "[ontosketch] " ++ file

def refused (file : String) (message : Text) : Outcome :=
  ⟨1, "", banner file ++ ": " ++ message ++ "\n", none⟩

/-- The outcome for a document that compiles. -/
def report (job : Arguments.Job) (c : Compilation) (output : Text) : Outcome :=
  match job.command, job.output.filter (! ·.isEmpty) with
  | .validate, _ =>
    ⟨0, "", banner job.file ++ ": valid (" ++ summary c.classification ++ ")\n", none⟩
  | command, some path =>
    let path := FilePath.plain path
    ⟨0, "", banner command.name ++ " written to " ++ path ++ "\n", some (path, output)⟩
  | _, none => ⟨0, output, "", none⟩

def runJob (job : Arguments.Job) (bytes : Option ByteArray) : Except JobFailure Outcome :=
  match bytes with
  | none => .ok ⟨1, "", "Error: Input file not found: " ++ job.file ++ "\n", none⟩
  | some bytes =>
    match Text.ofFile? bytes with
    | none => .error .notUtf8
    | some text =>
      match compileText text with
      | .error (.raw (.escape e)) => .error (.escape e)
      | .error (.document .tooManyDigits) => .error .tooManyDigits
      | .error e => .ok (refused job.file e.message)
      | .ok c =>
        match render job.command c with
        | .error e => .ok (refused job.file e.message)
        | .ok output => .ok (report job c output)

def runIn (t : FileTree) (job : Arguments.Job) : Except JobFailure (Outcome × FileTree) := do
  let bytes ← (t.file? (.ofString job.file)).mapError .path
  let outcome ← runJob job bytes
  match outcome.written with
  | none => return (outcome, t)
  | some (path, text) =>
    -- the file is there before its text is encoded
    let after ← (t.write (.ofString path) (text.toUtf8?.getD .empty)).mapError .path
    if text.isEncodable then return (outcome, after) else .error .notEncodable

end CommandLine

end Ontogram

/-
The program: one job on one file.
-/
import Ontogram.CommandLine.Run

open Ontogram in
def usage : String :=
  "usage: " ++ "|".intercalate (Command.all.map Command.name) ++ " FILE [--output PATH]\n"

/-- The bytes of a file, if it can be read. -/
def bytesOf? (path : String) : IO (Option ByteArray) := do
  try
    return some (← IO.FS.readBinFile path)
  catch _ => return none

/-- What stands for a job that was not done. -/
def giveUp (message : String) : IO UInt32 := do
  IO.eprintln message
  return 1

open Ontogram in
/-- Half of a surrogate pair is printed as a replacement character. -/
def printable (text : Text) : String :=
  String.ofList (text.toList.map fun c => c.char?.getD '\uFFFD')

open Ontogram in
def main (words : List String) : IO UInt32 := do
  match Arguments.read words with
  | .nothing | .help =>
    IO.print usage
    return 0
  | .misuse =>
    IO.eprint usage
    return 2
  | .job job =>
    match CommandLine.runJob job (← bytesOf? job.file) with
    | .error .notUtf8 => giveUp "the file is not UTF-8"
    | .error (.escape e) => giveUp (printable (NTriples.RawError.message (.escape e)))
    | .error .tooManyDigits => giveUp (printable Json.Fault.tooManyDigits.message)
    | .error .notEncodable => giveUp "what is to be written cannot be in UTF-8"
    | .error (.path _) => return 1
    | .ok outcome =>
      IO.print (printable outcome.stdout)
      match outcome.written with
      | some (path, text) =>
        -- the directories above the file are made as needed
        IO.FS.createDirAll (FilePath.ofString path).parent.toString
        match text.toUtf8? with
        | some bytes => IO.FS.writeBinFile path bytes
        | none => return (← giveUp "what is to be written cannot be in UTF-8")
      | none => pure ()
      IO.eprint (printable outcome.stderr)
      return outcome.code.toUInt32

/-
Files and directories as jobs find and leave them.

A path leads from the working directory, or from the root if it starts with a slash, through directories
to a place, where there may be a file, a directory or nothing yet:

* `FilePath.plain` — a path without empty parts and parts that name the directory itself;
* `FileTree.locate` — the place that a path leads to;
* `FileTree.file?` — the bytes of the file at a path, if there is one;
* `FileTree.makeDirectories` — directories made as needed, so that a path leads to one;
* `FileTree.write` — a file written, with the directories above it;
* `FileTree.ofFiles` — the tree of a working directory with some files.
-/
import Ontogram.Assoc
namespace Ontogram

/-- Why nothing can be done at a path. -/
inductive PathError where
  /-- A directory on the way is missing. -/
  | missing
  /-- Something on the way is no directory. -/
  | notDirectory
  /-- There is a directory where a file is wanted. -/
  | isDirectory
  /-- There is a file where a directory is wanted. -/
  | isFile
  /-- The path holds a NUL character. -/
  | hasNul
  /-- A name has more than 255 bytes, or the path more than 4095. -/
  | tooLong
deriving DecidableEq

/-- A path in parts. -/
structure FilePath where
  /-- The slashes in front: none for a path from the working directory. -/
  root : String
  parts : List String
deriving DecidableEq

namespace FilePath

/-- A path without empty parts and parts that name the directory itself. Exactly two slashes in front
stay two. -/
def ofString (path : String) : FilePath :=
  let cs := path.toList
  let root := match cs.takeWhile (· == '/') with
    | [] => ""
    | ['/', '/'] => "//"
    | _ => "/"
  let parts := (cs.splitOn '/').filter fun part => !part.isEmpty && part != ['.']
  ⟨root, parts.map String.ofList⟩

def toString (p : FilePath) : String :=
  let s := p.root ++ "/".intercalate p.parts
  if s.isEmpty then "." else s

def plain (path : String) : String := (ofString path).toString

/-- The path of the directory that a path's last part is in. -/
def parent (p : FilePath) : FilePath := { p with parts := p.parts.dropLast }

end FilePath

/-- Names from the working directory on; a place outside starts with the root or with steps upwards. -/
abbrev Place := List String

namespace Place

def rootName : String := "/"

def stepUp : String := ".."

/-- The working directory and all above it are there without being listed. -/
def isGiven (p : Place) : Bool := p = [rootName] || p.all (· == stepUp)

/-- One step from the directory at a place. -/
def step (p : Place) (name : String) : Place :=
  if name ≠ stepUp then p ++ [name]
  else if p = [rootName] then p
  else if p.all (· == stepUp) then p ++ [stepUp]
  else p.dropLast

end Place

/-- What can be at a place. -/
inductive FileNode where
  | file (bytes : ByteArray)
  | directory

/-- Everything below the working directory, and what is known outside. -/
abbrev FileTree := List (Place × FileNode)

namespace FileTree

def node? (t : FileTree) (p : Place) : Option FileNode :=
  if p.isGiven then some .directory else t.lookup p

/-- Follow names from a place; the last one need not be there. -/
def follow (t : FileTree) : Place → List String → Except PathError Place
  | p, [] => .ok p
  | p, name :: rest =>
    match t.node? p with
    | none => .error .missing
    | some (.file _) => .error .notDirectory
    | some .directory => if 255 < name.utf8ByteSize then .error .tooLong else follow t (p.step name) rest

/-- The place that a path leads to. -/
def locate (t : FileTree) (path : FilePath) : Except PathError Place :=
  let text := path.toString
  if text.toList.contains '\x00' then .error .hasNul
  else if 4095 < text.utf8ByteSize then .error .tooLong
  else t.follow (if path.root.isEmpty then [] else [Place.rootName]) path.parts

/-- The bytes of the file at a path; where the path leads nowhere, there is none. -/
def file? (t : FileTree) (path : FilePath) : Except PathError (Option ByteArray) :=
  match t.locate path with
  | .ok p =>
    match t.node? p with
    | some (.file bytes) => .ok (some bytes)
    | _ => .ok none
  | .error .tooLong => .error .tooLong
  | .error _ => .ok none

/-- A directory at a path whose last part alone may be missing. -/
def makeDirectory (t : FileTree) (path : FilePath) : Except PathError FileTree := do
  let p ← t.locate path
  match t.node? p with
  | none => return Assoc.insert p .directory t
  | some .directory => return t
  | some (.file _) => .error .isFile

/-- A directory at a path, and the missing ones above it. The parts of the path come last first. -/
def makeDirectoriesFrom (root : String) : List String → FileTree → Except PathError FileTree
  | [], t => t.makeDirectory ⟨root, []⟩
  | name :: above, t =>
    let path : FilePath := ⟨root, (name :: above).reverse⟩
    match t.makeDirectory path with
    | .error .missing => do (← makeDirectoriesFrom root above t).makeDirectory path
    | made => made

def makeDirectories (t : FileTree) (path : FilePath) : Except PathError FileTree :=
  makeDirectoriesFrom path.root path.parts.reverse t

/-- A file with these bytes at a path, in place of the one that may be there. -/
def write (t : FileTree) (path : FilePath) (bytes : ByteArray) : Except PathError FileTree := do
  let t ← t.makeDirectories path.parent
  let p ← t.locate path
  match t.node? p with
  | some .directory => .error .isDirectory
  | _ => return Assoc.insert p (.file bytes) t

/-- The directories that a system has below its root. -/
def bare : FileTree :=
  ["bin", "dev", "etc", "home", "lib", "proc", "root", "sys", "tmp", "usr", "var"].map fun name =>
    ([Place.rootName, name], .directory)

/-- The tree that has these files, later ones in place of earlier ones. -/
def ofFiles (files : List (String × ByteArray)) : FileTree :=
  files.foldl (fun t (path, bytes) => (t.write (.ofString path) bytes).toOption.getD t) bare

end FileTree

end Ontogram

/-
What the paths of the service lead to.

* `Resource` — the things that a client can name, each with the methods it answers to;
* `Resource.ofPath?` — the resource of a decoded path;
* `target` — what a path as it was sent leads to; where only slashes at its end stand in the way of a
  resource, that is the path without them.
-/
import Ontogram.Service.Exchange
import Ontogram.Text.Percent
namespace Ontogram.Service

/-- What is derived from a document. -/
inductive View where
  | ntriples
  | turtle
  | classification
deriving DecidableEq

/-- A step along a document's history. -/
inductive Move where
  | undo
  | redo
deriving DecidableEq

/-- What the service says about itself: a description for programs, and pages for those who write them.
Their contents are not kept here. -/
inductive Manual where
  | description
  | guide
  | guideLogin
  | handbook
deriving DecidableEq

inductive Resource where
  | page
  | manual (part : Manual)
  | events
  | documents
  | document (id : Text)
  | view (id : Text) (view : View)
  | move (id : Text) (move : Move)
  | scene
deriving DecidableEq

namespace Resource

/-- A name without the one line feed that may follow it. -/
def bareName (s : String) : String :=
  if s.toList.getLast? = some '\n' then String.ofList s.toList.dropLast else s

/-- The parts of a path between its slashes. -/
def parts (path : String) : List String := (path.toList.splitOn '/').map String.ofList

/-- The resource of a name at the top. -/
def ofTopName? (name : String) : Option Resource :=
  if name = "" then some .page
  else if name = "openapi.json" then some (.manual .description)
  else if name = "docs" then some (.manual .guide)
  else if name = "redoc" then some (.manual .handbook)
  else none

/-- The resource of a document's id and a name behind it. -/
def ofName? (id : Text) (name : String) : Option Resource :=
  if name = "ntriples" then some (.view id .ntriples)
  else if name = "turtle" then some (.view id .turtle)
  else if name = "classification" then some (.view id .classification)
  else if name = "undo" then some (.move id .undo)
  else if name = "redo" then some (.move id .redo)
  else none

def ofPath? (path : String) : Option Resource :=
  match parts path with
  | ["", last] => ofTopName? (bareName last)
  | ["", "docs", last] =>
    if bareName last = "oauth2-redirect" then some (.manual .guideLogin) else none
  | ["", "api", last] =>
    let name := bareName last
    if name = "events" then some .events
    else if name = "documents" then some .documents
    else if name = "scene" then some .scene
    else none
  | ["", "api", "documents", id] => if id = "" then none else some (.document id)
  | ["", "api", "documents", id, last] => if id = "" then none else ofName? id (bareName last)
  | _ => none

end Resource

/-- A path without its query and fragment. -/
def withoutQuery (path : List Char) : List Char := path.takeWhile fun c => c != '?' && c != '#'

/-- A path without the name of a host in front. -/
def withoutHost : List Char → List Char
  | '/' :: '/' :: rest => rest.dropWhile (· != '/')
  | path => path

/-- The parts of a path with `.` dropped and each `..` dropping the part before it; the start of the path
stays. -/
def withoutDots (parts : List (List Char)) : List (List Char) :=
  parts.foldl
    (fun before part =>
      if part = ['.'] then before
      else if part = ['.', '.'] then (if before = [[]] then before else before.dropLast)
      else before ++ [part])
    []

/-- A path as it is found from the root of the service: it starts with one slash and has no dots. -/
def rooted (path : List Char) : List Char :=
  let path := '/' :: (withoutHost path).dropWhile (· == '/')
  match ['/'].intercalate (withoutDots (path.splitOn '/')) with
  | [] => ['/']
  | path => path

def decodePath (path : String) : String :=
  Text.percentDecode (String.ofList (rooted (withoutQuery path.toList)))

/-- The path without the slashes at its end, if it has any. -/
def withoutSlashes? (path : String) : Option String :=
  if path.toList.getLast? = some '/' then
    some (String.ofList (path.toList.reverse.dropWhile (· == '/')).reverse)
  else none

/-- What a path leads to. -/
inductive Target where
  | resource (resource : Resource)
  /-- To a resource, but by another path. -/
  | elsewhere
  | nothing
deriving DecidableEq

def target (path : String) : Target :=
  let decoded := decodePath path
  match Resource.ofPath? decoded with
  | some resource => .resource resource
  | none => if ((withoutSlashes? decoded).bind Resource.ofPath?).isSome then .elsewhere else .nothing

end Ontogram.Service

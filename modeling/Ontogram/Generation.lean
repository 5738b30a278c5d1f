/-
The statements that a diagram declares.

Every element contributes on its own: a diamond its class, a tree the values of an enumeration, an arrow
an attribute, a relationship, an annotation or a statement spelled out between two notes. A
`Contribution` lists the statements and the ids that they use or that could not be read; a generation is
the sum of all of them. Numerals in labels count at any length here:

* `Diagram.diamondPart`, `Diagram.treePart`, `Diagram.arrowPart` — what one element contributes;
* `Diagram.keyStatements` — one ordered list of key attributes for each class that has any;
* `Diagram.classify` — whether an element is used, keyed, raw, ignored or invalid;
* `generate` — the statements and the classification of a whole diagram.
-/
import Ontogram.LiteralText
import Ontogram.Statement
namespace Ontogram

inductive Classification where
  | used
  | keyed
  | raw
  | ignored
  | invalid
deriving DecidableEq

namespace Classification

def name : Classification → Text
  | .used => "used"
  | .keyed => "keyed"
  | .raw => "raw"
  | .ignored => "ignored"
  | .invalid => "invalid"

def all : List Classification := [.used, .keyed, .raw, .ignored, .invalid]

/-- Invalid elements contribute nothing either. -/
def isIgnored (c : Classification) : Bool := c == .ignored || c == .invalid

end Classification

/-- An attribute's place in the primary key of a class, and the arrow that gives it. -/
structure KeyPart where
  subject : Text
  position : Nat
  attributeName : Text
  arrow : Text
deriving DecidableEq

/-- What one element adds to a generation. -/
structure Contribution where
  statements : List Statement := []
  used : List Text := []
  raw : List Text := []
  invalid : List Text := []
  keys : List KeyPart := []
  /-- A rectangle that was read as a datatype and names none. -/
  untyped : Option Text := none

/-- A diagram with the names that it is read against. -/
structure Diagram where
  elements : Elements
  domain : Text
  declared : Option PrefixMap

/-- A diamond that declares a class: its name and its kind. -/
structure ClassName where
  name : Text
  kind : ClassKind
deriving DecidableEq

/-- The two statements about the domain itself, if it is declared. -/
def domainStatements (domain : Text) (declared : Option PrefixMap) : List Statement :=
  if domain.isEmpty || !declared.all (Assoc.has · domain) then []
  else
    let subject := domain ++ ":"
    [⟨subject, Vocabulary.type, .name Vocabulary.domainModelType⟩,
     ⟨subject, Vocabulary.domain, .literal ⟨domain, none, none⟩⟩]

namespace Diagram

variable (d : Diagram)

def resolve (written : Text) : Option Text := Name.resolve written d.domain d.declared

/-- How a diamond's label reads. -/
inductive DiamondReading where
  | declares (name : ClassName)
  | bare
  | unreadable

def readDiamond (text : Text) : DiamondReading :=
  match Label.parse text with
  | none => .unreadable
  | some label =>
    if label.isMalformed then .unreadable
    else
      match d.resolve label.name with
      | none => .unreadable
      | some name =>
        match label.kind? with
        | some kind => .declares ⟨name, kind⟩
        | none => if label.isBare then .bare else .unreadable

/-- The classes of the diamonds by the diamonds' ids. -/
def classNames : Assoc ClassName :=
  Assoc.ofPairs <| d.elements.filterMap fun (_, e) =>
    match e with
    | .diamond s =>
      match d.readDiamond s.text with
      | .declares name => some (s.id, name)
      | _ => none
    | _ => none

def diamondPart (s : Shape) : Contribution :=
  match d.readDiamond s.text with
  | .declares c =>
    { statements := [⟨c.name, Vocabulary.type, .name c.kind.className⟩], used := [s.id] }
  | .bare => {}
  | .unreadable => { invalid := [s.id] }

/-- The names of a tree's elements, if all of them are values directly below the root. -/
def enumValues (classes : Assoc ClassName) (t : Tree) : Option (List Text) :=
  t.items.mapM fun item =>
    match classes.lookup item.element with
    | some c => if item.parent = t.root ∧ c.kind = .enumValue then some c.name else none
    | none => none

/-- A tree below an enumeration lists its values; one below a sealed class says nothing yet. -/
def treePart (classes : Assoc ClassName) (t : Tree) : Contribution :=
  match classes.lookup t.root with
  | none => { invalid := [t.id] }
  | some root =>
    match root.kind with
    | .sealedClass => {}
    | .enumeration =>
      match enumValues classes t with
      | none => { invalid := [t.id] }
      | some [] => {}
      | some values =>
        { statements := [⟨root.name, Vocabulary.oneOf, .list values⟩], used := [t.id] }
    | _ => { invalid := [t.id] }

/-- The name of a property, and its cardinality; class markers and what cannot be read give none. -/
def property (text : Text) : Option (Text × Cardinality) :=
  match Label.parse text with
  | some label =>
    if label.isMalformed || label.kind?.isSome then none
    else (d.resolve label.name).map fun name => (name, label.cardinality)
  | none => none

/-- The datatype that a rectangle names. -/
def datatype (text : Text) : Option Text :=
  match Label.parse text with
  | some label => if label.isBare then d.resolve label.name else none
  | none => none

/-- Bounds are stated from a lower one on. -/
def cardinalityStatements (subject : Text) (c : Cardinality) : List Statement :=
  match c.min with
  | none => []
  | some min =>
    ⟨subject, Vocabulary.minCount, .literal (.ofNat min)⟩ ::
      (c.max.toList.map fun max => ⟨subject, Vocabulary.maxCount, .literal (.ofNat max)⟩)

/-- The three elements that an arrow makes use of. -/
def ends (a : Arrow) (sourceId targetId : Text) : List Text := [a.id, sourceId, targetId]

def attributePart (a : Arrow) (sourceId subject : Text) (target : Shape) : Contribution :=
  match d.property a.text, d.datatype target.text with
  | some (name, c), some datatype =>
    { statements :=
        ⟨name, Vocabulary.type, .name Vocabulary.attributeType⟩ ::
        ⟨name, Vocabulary.datatype, .name datatype⟩ ::
        (cardinalityStatements name c ++ [⟨subject, Vocabulary.property, .name name⟩])
      used := ends a sourceId target.id
      keys := c.key.toList.map fun k => ⟨subject, k, name, a.id⟩ }
  | property, datatype =>
    { invalid := if property.isNone then [a.id] else []
      untyped := if datatype.isNone then some target.id else none }

def relationshipPart (a : Arrow) (sourceId subject targetId object : Text) : Contribution :=
  match (d.property a.text).filter fun p => p.2.key.isNone with
  | some (name, c) =>
    { statements :=
        ⟨name, Vocabulary.type, .name Vocabulary.relationshipType⟩ ::
        ⟨name, Vocabulary.targetClass, .name object⟩ ::
        (cardinalityStatements name c ++ [⟨subject, Vocabulary.property, .name name⟩])
      used := ends a sourceId targetId }
  | none => { invalid := [a.id] }

def annotationPart (a : Arrow) (sourceId subject : Text) (target : Note) : Contribution :=
  match NoteLabel.parse a.text with
  | none => { invalid := [a.id] }
  | some note =>
    if target.text.isEmpty then {}
    else
      { statements :=
          [⟨subject, note.predicate, .literal ⟨target.text, none, some note.language⟩⟩]
        used := ends a sourceId target.id }

/-- The object that a note spells: a literal if it opens with a quote, else a name. -/
def noteObject (text : Text) : Option Term :=
  let stripped := Text.trim text.toList
  match stripped with
  | [] => (d.resolve "").map .name
  | c :: _ =>
    if c = '"' ∨ c = '\'' then
      match LiteralText.parseChars stripped with
      | none => none
      | some l =>
        match l.datatype with
        | none => some (.literal ⟨l.value, none, l.language⟩)
        | some written =>
          (d.resolve written).map fun datatype => .literal ⟨l.value, some datatype, l.language⟩
    else (d.resolve (Text.ofList stripped)).map .name

/-- The name that a text spells, blanks around it apart. -/
def spelledName (text : Text) : Option Text :=
  d.resolve (Text.ofList (Text.trim text.toList))

/-- Two notes and the arrow between them spell out a single statement. -/
def spelledPart (a : Arrow) (source target : Note) : Contribution :=
  let ids := ends a source.id target.id
  match d.spelledName source.text, d.spelledName a.text, d.noteObject target.text with
  | some subject, some predicate, some object =>
    { statements := [⟨subject, predicate, object⟩], used := ids, raw := ids }
  | subject, predicate, object =>
    { raw := ids
      invalid := (if subject.isNone then [source.id] else []) ++
        (if predicate.isNone then [a.id] else []) ++ (if object.isNone then [target.id] else []) }

/-- What an arrow between two elements contributes. -/
def betweenPart (classes : Assoc ClassName) (a : Arrow) (source target : Element) : Contribution :=
  match source, target with
  | .note s, .note t => d.spelledPart a s t
  | .diamond s, _ =>
    match classes.lookup s.id with
    | none => {}
    | some c =>
      match target with
      | .rectangle t => d.attributePart a s.id c.name t
      | .diamond t =>
        match classes.lookup t.id with
        | none => {}
        | some object => d.relationshipPart a s.id c.name t.id object.name
      | .note t => annotationPart a s.id c.name t
      | _ => {}
  | _, _ => {}

/-- An arrow contributes if both its ends are attached to elements of the diagram. -/
def arrowPart (classes : Assoc ClassName) (a : Arrow) : Contribution :=
  match a.source.bind (List.lookup · d.elements), a.target.bind (List.lookup · d.elements) with
  | some source, some target => d.betweenPart classes a source target
  | _, _ => {}

def diamondParts : List Contribution :=
  d.elements.filterMap fun (_, e) =>
    match e with
    | .diamond s => some (d.diamondPart s)
    | _ => none

def treeParts (classes : Assoc ClassName) : List Contribution :=
  d.elements.filterMap fun (_, e) =>
    match e with
    | .tree t => some (treePart classes t)
    | _ => none

def arrowParts (classes : Assoc ClassName) : List Contribution :=
  d.elements.filterMap fun (_, e) =>
    match e with
    | .arrow a => some (d.arrowPart classes a)
    | _ => none

/-- The rectangles that name no datatype where one was needed, and that no earlier element used. -/
def untypedIds (used : List Text) : List Contribution → List Text
  | [] => []
  | c :: rest =>
    let here := match c.untyped with
      | some id => if used.contains id then [] else [id]
      | none => []
    here ++ untypedIds (c.used ++ used) rest

/-- By position, then by attribute, then by arrow. -/
def keyBefore (a b : KeyPart) : Bool :=
  ((compare a.position b.position).then <|
    (compare a.attributeName b.attributeName).then (compare a.arrow b.arrow)).isLE

/-- The parts of one class's key in their order. -/
def keyOf (subject : Text) (keys : List KeyPart) : List KeyPart :=
  (keys.filter fun k => k.subject == subject).mergeSort keyBefore

/-- The classes that have key attributes. -/
def keyedSubjects (keys : List KeyPart) : List Text := (keys.map (·.subject)).eraseDups

def keyStatements (keys : List KeyPart) : List Statement :=
  (keyedSubjects keys).map fun subject =>
    ⟨subject, Vocabulary.primaryKey, .list ((keyOf subject keys).map (·.attributeName))⟩

/-- The arrows from the first one on whose position breaks the sequence `expected, expected + 1, …` -/
def outOfSequence (expected : Nat) : List KeyPart → List Text
  | [] => []
  | k :: rest =>
    if k.position = expected then outOfSequence (expected + 1) rest
    else k.arrow :: rest.map (·.arrow)

/-- The arrows whose positions do not run one, two, three and so on. -/
def misplacedKeys (keys : List KeyPart) : List Text :=
  (keyedSubjects keys).flatMap fun subject => outOfSequence 1 (keyOf subject keys)

end Diagram

/-- The outcome of reading a whole diagram. -/
structure Generation where
  statements : List Statement
  classification : Assoc Classification

namespace Diagram

variable (d : Diagram)

/-- The contributions in the order in which they count, diamonds before trees before arrows. -/
def parts : List Contribution :=
  let classes := d.classNames
  d.diamondParts ++ d.treeParts classes ++ d.arrowParts classes

def usedIds : List Text := d.parts.flatMap (·.used)

def rawIds : List Text := d.parts.flatMap (·.raw)

def keyParts : List KeyPart := d.parts.flatMap (·.keys)

def invalidIds : List Text :=
  d.parts.flatMap (·.invalid) ++ untypedIds [] d.parts ++ misplacedKeys d.keyParts

/-- All statements, before those with undeclared names are dropped. -/
def allStatements : List Statement :=
  domainStatements d.domain d.declared ++ d.parts.flatMap (·.statements) ++ keyStatements d.keyParts

def statements : List Statement :=
  let all := d.allStatements.eraseDups
  match d.declared with
  | some declared => all.filter (·.isDeclared declared)
  | none => all

/-- Invalid wins over raw, raw over used; a used diamond whose class has key attributes is keyed. -/
def classify (invalid raw used keyed : List Text) (classes : Assoc ClassName) (id : Text)
    (e : Element) : Classification :=
  if invalid.contains id then .invalid
  else if raw.contains id then .raw
  else if used.contains id then
    if e.isDiamond && keyed.contains (((classes.lookup id).map (·.name)).getD "") then .keyed else .used
  else .ignored

def classification : Assoc Classification :=
  let invalid := d.invalidIds
  let raw := d.rawIds
  let used := d.usedIds
  let keyed := keyedSubjects d.keyParts
  let classes := d.classNames
  d.elements.map fun (id, e) => (id, classify invalid raw used keyed classes id e)

end Diagram

def generate (d : Diagram) : Generation := ⟨d.statements, d.classification⟩

/-- The ids of one kind, in code-point order. -/
def Generation.ids (g : Generation) (kind : Classification) : List Text :=
  ((g.classification.filter fun (_, c) => c == kind).map (·.1)).mergeSort fun a b => a ≤ b

end Ontogram

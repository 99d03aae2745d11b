import DefineBundle.Options.Settings

/-!
# Where a module lives

The path of a module from its id. An id is a list of segments with a dot or a slash between them.
A library owns the ids below its name, and of several such libraries the one with the longest name
does. The id, without the root namespace of its owner, leads from the owner's base directory to the
file. A path given for a single id goes before all that.
-/
namespace DefineBundle.Layout

open DefineBundle.Text (after?)

/-- A character between the segments of an id. -/
def isSeparator (c : Char) : Bool :=
  c == '.' || c == '/'

/-- Whether an id is a namespace or lies below it. -/
def isWithin (ns id : String) : Bool :=
  match after? ns.toList id.toList with
  | some [] => true
  | some (c :: _) => isSeparator c
  | none => false

/-- What follows a namespace and a separator in an id, if that is not empty. -/
def below? (ns id : String) : Option (List Char) :=
  match after? ns.toList id.toList with
  | some (c :: d :: rest) => if isSeparator c then some (d :: rest) else none
  | _ => none

/-- The longer of two names, the later one when they are equally long. -/
def longer (best : Option (String × Library)) (e : String × Library) : Option (String × Library) :=
  match best with
  | some b => if b.1.length ≤ e.1.length then some e else some b
  | none => some e

/-- The library that owns an id, with its name. -/
def libraryFor? (l : Layout) (id : String) : Option (String × Library) :=
  (l.libraries.entries.filter fun e => isWithin e.1 id).foldl longer none

def baseFor (l : Layout) (id : String) : String :=
  match l.libraryFor? id with
  | some (_, library) => library.baseDirectory
  | none => l.baseDirectory

def namespaceFor (l : Layout) (id : String) : Option String :=
  match l.libraryFor? id with
  | some (_, library) => library.rootNamespace
  | none => l.rootNamespace

/-- The segments of an id as a path to a file. -/
def fileOf (segments : List Char) : String :=
  String.ofList (segments.map fun c => if c == '.' then '/' else c) ++ ".js"

def pathOf (l : Layout) (id : String) : String :=
  match l.overrides.get? id with
  | some path => Path.normalize path
  | none =>
      let segments := ((l.namespaceFor id).bind fun ns => below? ns id).getD id.toList
      Path.normalize (Path.join (l.baseFor id) (fileOf segments))

/-- Whether a module belongs into the bundle; others are left to be provided when it runs. -/
def includes (l : Layout) (id : String) : Bool :=
  (l.libraryFor? id).isSome || l.overrides.contains id ||
    l.rootNamespace.all fun ns => isWithin ns id

end DefineBundle.Layout

import DefineBundle.Files.View
import DefineBundle.Path.Basic
import DefineBundle.Text.Bytes

/-!
# A disk

Files, directories, symbolic links and devices by location, where a location is the list of names on
the way from the root. A file can have several names, and what is written under one of them is read
under all. A path is looked up name by name; `..` goes to the directory above, and a link is
replaced by its target, at most forty times in one look-up. Names and paths have a greatest length
in bytes, and a path holds no NUL.
-/
namespace DefineBundle

/-- Why the disk refuses. -/
inductive DiskFault
  | noEntry | alreadyThere | notDirectory | isDirectory | tooManyLinks | nameTooLong | holdsNul
  | notText | noDevice | noSpace
  deriving DecidableEq, Repr

def DiskFault.text : DiskFault → String
  | noEntry => "No such file or directory (os error 2)"
  | noDevice => "No such device or address (os error 6)"
  | alreadyThere => "File exists (os error 17)"
  | notDirectory => "Not a directory (os error 20)"
  | isDirectory => "Is a directory (os error 21)"
  | noSpace => "No space left on device (os error 28)"
  | tooManyLinks => "Too many levels of symbolic links (os error 40)"
  | nameTooLong => "File name too long (os error 36)"
  | holdsNul => "file name contained an unexpected NUL byte"
  | notText => "stream did not contain valid UTF-8"

/-- The refusal as a fault without further causes. -/
def DiskFault.fault (f : DiskFault) : IoFault :=
  ⟨f.text, []⟩

/-- What keeps nothing of what is written to it, such as the end of a pipe. -/
structure Device where
  /-- What is read there, or nothing where that is no text. -/
  content : Option String
  /-- Why nothing can be written, if so. -/
  fault : Option DiskFault
  deriving DecidableEq, Repr

inductive Node
  | file (file : StoredFile)
  | device (device : Device)
  | link (target : String)
  | directory
  deriving DecidableEq, Repr

/-- What a directory has under a name: something of that name alone, or one of the names of the file
with a number. -/
inductive Entry
  | own (node : Node)
  | shared (number : Nat) (file : StoredFile)
  deriving DecidableEq, Repr

namespace Entry

def directory : Entry :=
  own .directory

def file (f : StoredFile) : Entry :=
  own (.file f)

def link (target : String) : Entry :=
  own (.link target)

def node : Entry → Node
  | own n => n
  | shared _ f => .file f

def number? : Entry → Option Nat
  | own _ => none
  | shared number _ => some number

/-- The entry once the file with the number is another one. -/
def rewrite (number : Nat) (f : StoredFile) : Entry → Entry
  | own n => own n
  | shared k g => shared k (if k = number then f else g)

end Entry

/-- The names on the way from the root. -/
abbrev Location := List String

/-- The state of a disk. The root is a directory that needs no entry. -/
structure Disk where
  entries : List (Location × Entry)
  /-- Where relative paths start. -/
  current : String
  /-- The time of everything that is written. -/
  now : Nat
  deriving DecidableEq, Repr

namespace Disk

def entryAt? (d : Disk) (l : Location) : Option Entry :=
  if l.isEmpty then some .directory else (d.entries.find? fun e => e.1 == l).map (·.2)

/-- What stands at a location. -/
def node? (d : Disk) (l : Location) : Option Node :=
  (d.entryAt? l).map Entry.node

/-- The number of the file at a location, if it has other names. -/
def number? (d : Disk) (l : Location) : Option Nat :=
  (d.entryAt? l).bind Entry.number?

/-- Whether two locations are names of one file. -/
def SameFile (d : Disk) (l k : Location) : Prop :=
  k = l ∨ (d.number? l).isSome ∧ d.number? k = d.number? l

instance (d : Disk) (l k : Location) : Decidable (d.SameFile l k) :=
  inferInstanceAs (Decidable (_ ∨ _))

/-- The disk with something put at a location, in the place of what is there under this name. -/
def put (d : Disk) (l : Location) (n : Node) : Disk :=
  { d with entries := (l, .own n) :: d.entries.filter fun e => e.1 != l }

/-- The disk with a file at a location, and under all other names that the file there has. -/
def store (d : Disk) (l : Location) (f : StoredFile) : Disk :=
  match d.number? l with
  | some number => { d with entries := d.entries.map fun e => (e.1, e.2.rewrite number f) }
  | none => d.put l (.file f)

/-- The disk without what is at a location. A file stays under its other names. -/
def erase (d : Disk) (l : Location) : Disk :=
  { d with entries := d.entries.filter fun e => e.1 != l }

def names (path : String) : List String :=
  (Path.route path).segments.map String.ofList

def linkLimit : Nat := 40

def nameLimit : Nat := 255

def pathLimit : Nat := 4095

/-- Why no disk takes a text for a path, if so. -/
def pathFault? (path : String) : Option DiskFault :=
  if path.toList.contains '\x00' then some .holdsNul
  else if path.isEmpty then some .noEntry
  else if pathLimit < Text.byteLength path then some .nameTooLong
  else none

/-- The location that names lead to from a directory. The last name need not be there; if it is a
link, it is followed when `follows` says so. -/
def locate (d : Disk) (follows : Bool) :
    Nat → Location → List String → Except DiskFault Location
  | _, l, [] => .ok l
  | links, l, name :: rest =>
      match d.node? l with
      | none => .error .noEntry
      | some (.file _) => .error .notDirectory
      | some (.device _) => .error .notDirectory
      | some (.link _) => .error .notDirectory
      | some .directory =>
          if name == "" || name == "." then locate d follows links l rest
          else if name == ".." then locate d follows links l.dropLast rest
          else if nameLimit < Text.byteLength name then .error .nameTooLong
          else match d.node? (l ++ [name]) with
            | some (.link target) =>
                if rest.isEmpty && !follows then .ok (l ++ [name])
                else match links with
                  | 0 => .error .tooManyLinks
                  | links + 1 =>
                      locate d follows links (if Path.isAbsolute target then [] else l)
                        (names target ++ rest)
            | _ => locate d follows links (l ++ [name]) rest
termination_by links _ ns => (links, ns.length)

def find (d : Disk) (follows : Bool) (path : String) : Except DiskFault Location :=
  match pathFault? path with
  | some e => .error e
  | none => d.locate follows linkLimit [] (names (Path.join d.current path))

def lookUp (d : Disk) (follows : Bool) (path : String) : Except DiskFault (Location × Node) := do
  let l ← d.find follows path
  match d.node? l with
  | some n => return (l, n)
  | none => throw .noEntry

def file? (d : Disk) (path : String) : Except DiskFault StoredFile := do
  match ← d.lookUp true path with
  | (_, .file f) => return f
  | _ => throw .isDirectory

def isFile (d : Disk) (path : String) : Bool :=
  match d.lookUp true path with
  | .ok (_, .file _) => true
  | _ => false

def isDirectory (d : Disk) (path : String) : Bool :=
  match d.lookUp true path with
  | .ok (_, .directory) => true
  | _ => false

/-- The text of a file, or what a device gives. -/
def read (d : Disk) (path : String) : Except DiskFault String := do
  let content? : Option String ← match ← d.lookUp true path with
    | (_, .file f) => pure f.content
    | (_, .device v) => pure v.content
    | _ => throw .isDirectory
  match content? with
  | some text => return text
  | none => throw .notText

def modified (d : Disk) (path : String) : Except DiskFault Nat := do
  match ← d.lookUp true path with
  | (_, .file f) => return f.modified
  | _ => return d.now

def makeDirectory (d : Disk) (path : String) : Except DiskFault Disk := do
  let l ← d.find false path
  match d.node? l with
  | some _ => throw .alreadyThere
  | none => return d.put l .directory

/-- A directory is made unless it is there, and so are all above it, at most `n` of them. -/
def makeDirectories : Nat → String → Disk → Except DiskFault Unit × Disk
  | 0, _, d => (.error .noEntry, d)
  | n + 1, path, d =>
      if path.isEmpty then (.ok (), d)
      else match d.makeDirectory path with
        | .ok d => (.ok (), d)
        | .error .noEntry => match Path.parent? path with
            | none => (.error .noEntry, d)
            | some above => match makeDirectories n above d with
                | (.error e, d) => (.error e, d)
                | (.ok (), d) => match d.makeDirectory path with
                    | .ok d => (.ok (), d)
                    | .error e => (if d.isDirectory path then .ok () else .error e, d)
        | .error e => (if d.isDirectory path then .ok () else .error e, d)

/-- A file is written in a directory that is there. -/
def writeFile (d : Disk) (path : String) (f : StoredFile) : Except DiskFault Disk := do
  let l ← d.find true path
  match d.node? l with
  | some .directory => throw .isDirectory
  | some (.device v) => match v.fault with
    | some e => throw e
    | none => return d
  | some _ => return d.store l f
  | none => return d.store l f

/-- A file is written; the directories above it are made first. -/
def write (d : Disk) (path : String) (f : StoredFile) : Except DiskFault Unit × Disk :=
  let above := Path.parent path
  match makeDirectories (path.length + 1) above d with
  | (.error e, d) => (.error e, d)
  | (.ok (), d) => match d.writeFile path f with
    | .ok d => (.ok (), d)
    | .error e => (.error e, d)

def remove (d : Disk) (path : String) : Except DiskFault Disk := do
  match ← d.lookUp false path with
  | (_, .directory) => throw .isDirectory
  | (l, _) => return d.erase l

def touch (d : Disk) (path : String) (modified : Nat) : Except DiskFault Disk := do
  match ← d.lookUp true path with
  | (l, .file f) => return d.store l { f with modified }
  | _ => return d

def link (d : Disk) (path target : String) : Except DiskFault Disk := do
  if let some e := pathFault? target then throw e
  let l ← d.find false path
  match d.node? l with
  | some _ => throw .alreadyThere
  | none => return d.put l (.link target)

end Disk

end DefineBundle

import DefineBundle.Files.Disk

/-!
# Walking a directory

The files below a directory, depth first, with the names of each directory in order. Links are
followed; one that leads nowhere ends the walk, and so does one that leads to a directory the walk
is in.
-/
namespace DefineBundle.Disk

/-- A directory that a walk is in, and the path by which it was reached. -/
structure Station where
  location : Location
  path : String

def children (d : Disk) (l : Location) : List String :=
  (d.entries.filterMap fun e => if e.1.dropLast == l then e.1.getLast? else none).mergeSort
    fun a b => a ≤ b

def brokenLink (path : String) (f : DiskFault) : IoFault :=
  ⟨"IO error for operation on " ++ path ++ ": " ++ f.text, [f.text]⟩

def loopFault (path ancestor : String) : IoFault :=
  ⟨"File system loop found: " ++ path ++ " points to an ancestor " ++ ancestor, []⟩

/-- The files at or below a name in the innermost directory of a walk. -/
def walkEntry (d : Disk) (descend : List Station → Station → Except IoFault (List String))
    (outer : List Station) (here : Station) (name : String) : Except IoFault (List String) :=
  let path := Path.join here.path name
  match d.node? (here.location ++ [name]) with
  | some (.file _) => .ok [path]
  | some (.device _) => .ok []
  | some .directory => descend (here :: outer) ⟨here.location ++ [name], path⟩
  | some (.link _) => match d.lookUp true path with
      | .error e => .error (brokenLink path e)
      | .ok (l, .directory) => match (here :: outer).find? fun s => s.location == l with
          | some s => .error (loopFault path s.path)
          | none => descend (here :: outer) ⟨l, path⟩
      | .ok (_, .file _) => .ok [path]
      | .ok _ => .ok []
  | none => .ok []

/-- The files below a directory, with at most `n` directories inside each other. -/
def walkFrom (d : Disk) : Nat → List Station → Station → Except IoFault (List String)
  | 0, _, _ => .ok []
  | n + 1, outer, here => do
      let lists ← (d.children here.location).mapM (d.walkEntry (walkFrom d n) outer here)
      return lists.flatten

/-- The files below a directory. Between two links a walk only goes down, and each link leads to a
directory that it is not in, which bounds the depth. -/
def walk (d : Disk) (path : String) : Except IoFault (List String) :=
  match d.lookUp true path with
  | .ok (l, .directory) => walkFrom d (Nat.pow (d.entries.length + 2) 2) [] ⟨l, path⟩
  | _ => .ok []

/-- More than the paths that a disk takes, whatever is on it. -/
def capacity : Nat :=
  Text.codeLimit pathLimit

theorem byteLength_le_of_isFile {d : Disk} {path : String} (h : d.isFile path = true) :
    Text.byteLength path ≤ pathLimit := by
  by_cases hlong : pathLimit < Text.byteLength path
  · have hfault : (pathFault? path).isSome := by
      simp only [pathFault?, hlong, if_true]
      split
      · rfl
      · split <;> rfl
    obtain ⟨e, he⟩ := Option.isSome_iff_exists.mp hfault
    simp [isFile, lookUp, find, he, bind, Except.bind] at h
  · omega

def view (d : Disk) : FileView where
  isFile := d.isFile
  read path := (d.read path).mapError DiskFault.fault
  modified path := (d.modified path).mapError DiskFault.fault
  walk := d.walk
  capacity := capacity
  length_le_capacity _ hn h :=
    Text.length_le_of_byteLength_le hn fun p hp => byteLength_le_of_isFile (h p hp)

def writeText (path text : String) (d : Disk) : Except IoFault Unit × Disk :=
  match d.write path ⟨some text, d.now⟩ with
  | (r, d) => (r.mapError DiskFault.fault, d)

def fileSystem : FileSystem Disk :=
  ⟨view, writeText⟩

end DefineBundle.Disk

import DefineBundle.Files.View
import DefineBundle.Path.Basic

/-!
# A cache of file contents

A text that was read once is served from then on, whatever becomes of the file. Only successful
readings are kept, and two paths that differ in spelling alone are the same path.
-/
namespace DefineBundle

structure FileCache where
  texts : List (Path.Route × String)
  deriving DecidableEq, Repr

namespace FileCache

def empty : FileCache :=
  ⟨[]⟩

def clear (_ : FileCache) : FileCache :=
  empty

def get? (c : FileCache) (path : String) : Option String :=
  (c.texts.find? fun e => e.1 == Path.components path).map (·.2)

def size (c : FileCache) : Nat :=
  c.texts.length

/-- The text of a file: the one kept, or else the one read now, which is kept. -/
def read (view : FileView) (path : String) (c : FileCache) : Except IoFault String × FileCache :=
  match c.get? path with
  | some text => (.ok text, c)
  | none => match view.read path with
    | .ok text => (.ok text, ⟨c.texts ++ [(Path.components path, text)]⟩)
    | .error e => (.error e, c)

end FileCache

end DefineBundle
